import PageManifest.Json.Typed
import PageManifest.Proofs.Json.Lengths
import PageManifest.Proofs.Json.RoundTrip
import PageManifest.Proofs.Value.Keys

/-!
# What JSON text spells

A JSON text spells a tree in which the keys of an object stand as they are written, be it
repeatedly (`Spells`), and it spells no other one (`Spells.unique`). What is read is the tree
with its keys settled (`Value.settled`). Every text that spells a tree is read, unless the tree
is too deep, and no other text is (`read_eq_ok_iff`).
-/

namespace PageManifest

namespace Json

open Value

/-! ## The grammar -/

/-- What some characters may spell: a value, or what is inside brackets from a point on, which is
the first item or a further one. -/
inductive Aim where
  | value
  | items (first : Bool)
  | members (first : Bool)

/-- Some characters spell a tree and leave others behind it. What is inside brackets is spelled
as the collection that it makes. -/
inductive Spells : Aim → List Char → Value → List Char → Prop
  | null {cs rest : List Char} (h : skipSpace cs = 'n' :: (['u', 'l', 'l'] ++ rest)) :
      Spells .value cs .null rest
  | yes {cs rest : List Char} (h : skipSpace cs = 't' :: (['r', 'u', 'e'] ++ rest)) :
      Spells .value cs (.bool true) rest
  | no {cs rest : List Char} (h : skipSpace cs = 'f' :: (['a', 'l', 's', 'e'] ++ rest)) :
      Spells .value cs (.bool false) rest
  | string {cs inside rest : List Char} {text : String} (h : skipSpace cs = '"' :: inside)
      (htext : string inside = .ok (text, rest)) : Spells .value cs (.string text) rest
  | negative {cs digits rest : List Char} {n : Number} (h : skipSpace cs = '-' :: digits)
      (hnumber : number false digits = .ok (n, rest)) : Spells .value cs (.number n) rest
  | positive {cs digits rest : List Char} {c : Char} {n : Number}
      (h : skipSpace cs = c :: digits) (hdigit : c.isDigit = true)
      (hnumber : number true (c :: digits) = .ok (n, rest)) : Spells .value cs (.number n) rest
  | list {cs inside rest : List Char} {items : List Value} (h : skipSpace cs = '[' :: inside)
      (hitems : Spells (.items true) inside (.sequence items) rest) :
      Spells .value cs (.sequence items) rest
  | object {cs inside rest : List Char} {entries : List (String × Value)}
      (h : skipSpace cs = '{' :: inside)
      (hmembers : Spells (.members true) inside (.mapping entries) rest) :
      Spells .value cs (.mapping entries) rest
  | listEnd {cs rest : List Char} {first : Bool} (h : skipSpace cs = ']' :: rest) :
      Spells (.items first) cs (.sequence []) rest
  | firstItem {cs behind rest : List Char} {item : Value} {items : List Value}
      (hitem : Spells .value cs item behind)
      (hothers : Spells (.items false) behind (.sequence items) rest) :
      Spells (.items true) cs (.sequence (item :: items)) rest
  | nextItem {cs after rest : List Char} {item : Value} {items : List Value}
      (h : skipSpace cs = ',' :: after)
      (hitems : Spells (.items true) after (.sequence (item :: items)) rest) :
      Spells (.items false) cs (.sequence (item :: items)) rest
  | objectEnd {cs rest : List Char} {first : Bool} (h : skipSpace cs = '}' :: rest) :
      Spells (.members first) cs (.mapping []) rest
  | firstMember {cs inside between after behind rest : List Char} {key : String} {item : Value}
      {entries : List (String × Value)} (h : skipSpace cs = '"' :: inside)
      (hkey : string inside = .ok (key, between)) (hcolon : skipSpace between = ':' :: after)
      (hitem : Spells .value after item behind)
      (hothers : Spells (.members false) behind (.mapping entries) rest) :
      Spells (.members true) cs (.mapping ((key, item) :: entries)) rest
  | nextMember {cs after rest : List Char} {entry : String × Value}
      {entries : List (String × Value)} (h : skipSpace cs = ',' :: after)
      (hmembers : Spells (.members true) after (.mapping (entry :: entries)) rest) :
      Spells (.members false) cs (.mapping (entry :: entries)) rest

/-- A text spells a tree: all its characters do, up to space at the end. -/
def Spelled (text : String) (tree : Value) : Prop :=
  ∃ rest, Spells .value text.toList tree rest ∧ skipSpace rest = []

variable {cs rest : List Char} {tree : Value} {aim : Aim}

theorem length_of_skipSpace {c : Char} (h : skipSpace cs = c :: rest) :
    rest.length < cs.length := by
  have hlength := length_skipSpace cs
  rw [h] at hlength
  exact hlength

/-- Something is read in any case. -/
theorem Spells.length_lt (h : Spells aim cs tree rest) : rest.length < cs.length := by
  induction h with
  | null h | yes h | no h =>
    have hlength := length_of_skipSpace h
    rw [List.length_append] at hlength
    omega
  | string h htext =>
    have hlength := length_of_skipSpace h
    have htext := length_string htext
    omega
  | negative h hnumber =>
    have hlength := length_of_skipSpace h
    have hnumber := length_number hnumber
    omega
  | @positive cs _ _ _ _ h _ hnumber =>
    have hlength := length_skipSpace cs
    have hnumber := length_number hnumber
    rw [h] at hlength
    omega
  | list h _ ih | object h _ ih | nextItem h _ ih | nextMember h _ ih =>
    have hlength := length_of_skipSpace h
    omega
  | listEnd h | objectEnd h => exact length_of_skipSpace h
  | firstItem _ _ ihitem ihothers => omega
  | firstMember h hkey hcolon _ _ ihitem ihothers =>
    have hlength := length_of_skipSpace h
    have hkey := length_string hkey
    have hcolon := length_of_skipSpace hcolon
    omega

theorem skipSpace_skipSpace (cs : List Char) : skipSpace (skipSpace cs) = skipSpace cs := by
  unfold skipSpace
  induction cs with
  | nil => rfl
  | cons c cs ih =>
    by_cases h : isSpace c = true
    · rw [List.dropWhile_cons_of_pos h, ih]
    · rw [List.dropWhile_cons_of_neg h, List.dropWhile_cons_of_neg h]

/-- Space in front of a value does not matter. -/
theorem spells_skipSpace :
    Spells .value (skipSpace cs) tree rest ↔ Spells .value cs tree rest := by
  have hsame : ∀ {cs other}, skipSpace cs = skipSpace other →
      Spells .value cs tree rest → Spells .value other tree rest := by
    intro cs other hskip h
    cases h with
    | null h => exact .null (hskip ▸ h)
    | yes h => exact .yes (hskip ▸ h)
    | no h => exact .no (hskip ▸ h)
    | string h htext => exact .string (hskip ▸ h) htext
    | negative h hnumber => exact .negative (hskip ▸ h) hnumber
    | positive h hdigit hnumber => exact .positive (hskip ▸ h) hdigit hnumber
    | list h hitems => exact .list (hskip ▸ h) hitems
    | object h hmembers => exact .object (hskip ▸ h) hmembers
  exact ⟨hsame (skipSpace_skipSpace cs), hsame (skipSpace_skipSpace cs).symm⟩

theorem Spells.exists_start (h : Spells .value cs tree rest) :
    ∃ c inside, skipSpace cs = c :: inside ∧ c ≠ ']' := by
  cases h with
  | null h => exact ⟨_, _, h, by decide⟩
  | yes h => exact ⟨_, _, h, by decide⟩
  | no h => exact ⟨_, _, h, by decide⟩
  | string h _ => exact ⟨_, _, h, by decide⟩
  | negative h _ => exact ⟨_, _, h, by decide⟩
  | list h _ => exact ⟨_, _, h, by decide⟩
  | object h _ => exact ⟨_, _, h, by decide⟩
  | positive h hdigit _ =>
    refine ⟨_, _, h, ?_⟩
    rintro rfl
    cases hdigit

/-- Some characters spell one tree only. -/
theorem Spells.unique {other : Value} {after : List Char} (h : Spells aim cs tree rest)
    (hother : Spells aim cs other after) : tree = other ∧ rest = after := by
  induction h generalizing other after with
  | null h =>
    cases hother with
    | null h' =>
      cases h.symm.trans h'
      exact ⟨rfl, rfl⟩
    | positive h' hdigit =>
      cases h.symm.trans h'
      cases hdigit
    | _ h' => cases h.symm.trans h'
  | yes h =>
    cases hother with
    | yes h' =>
      cases h.symm.trans h'
      exact ⟨rfl, rfl⟩
    | positive h' hdigit =>
      cases h.symm.trans h'
      cases hdigit
    | _ h' => cases h.symm.trans h'
  | no h =>
    cases hother with
    | no h' =>
      cases h.symm.trans h'
      exact ⟨rfl, rfl⟩
    | positive h' hdigit =>
      cases h.symm.trans h'
      cases hdigit
    | _ h' => cases h.symm.trans h'
  | string h htext =>
    cases hother with
    | string h' htext' =>
      cases h.symm.trans h'
      cases htext.symm.trans htext'
      exact ⟨rfl, rfl⟩
    | positive h' hdigit =>
      cases h.symm.trans h'
      cases hdigit
    | _ h' => cases h.symm.trans h'
  | negative h hnumber =>
    cases hother with
    | negative h' hnumber' =>
      cases h.symm.trans h'
      cases hnumber.symm.trans hnumber'
      exact ⟨rfl, rfl⟩
    | positive h' hdigit =>
      cases h.symm.trans h'
      cases hdigit
    | _ h' => cases h.symm.trans h'
  | positive h hdigit hnumber =>
    cases hother with
    | positive h' _ hnumber' =>
      cases h.symm.trans h'
      cases hnumber.symm.trans hnumber'
      exact ⟨rfl, rfl⟩
    | _ h' =>
      cases h.symm.trans h'
      cases hdigit
  | list h _ ih =>
    cases hother with
    | list h' hitems =>
      cases h.symm.trans h'
      exact ih hitems
    | positive h' hdigit =>
      cases h.symm.trans h'
      cases hdigit
    | _ h' => cases h.symm.trans h'
  | object h _ ih =>
    cases hother with
    | object h' hmembers =>
      cases h.symm.trans h'
      exact ih hmembers
    | positive h' hdigit =>
      cases h.symm.trans h'
      cases hdigit
    | _ h' => cases h.symm.trans h'
  | listEnd h =>
    cases hother with
    | listEnd h' =>
      cases h.symm.trans h'
      exact ⟨rfl, rfl⟩
    | firstItem hitem _ =>
      obtain ⟨c, inside, hstart, hne⟩ := hitem.exists_start
      cases h.symm.trans hstart
      exact absurd rfl hne
    | nextItem h' _ => cases h.symm.trans h'
  | firstItem hitem _ ihitem ihothers =>
    cases hother with
    | listEnd h' =>
      obtain ⟨c, inside, hstart, hne⟩ := hitem.exists_start
      cases h'.symm.trans hstart
      exact absurd rfl hne
    | firstItem hitem' hothers =>
      obtain ⟨rfl, rfl⟩ := ihitem hitem'
      obtain ⟨hsame, rfl⟩ := ihothers hothers
      cases hsame
      exact ⟨rfl, rfl⟩
  | nextItem h _ ih =>
    cases hother with
    | listEnd h' => cases h.symm.trans h'
    | nextItem h' hitems =>
      cases h.symm.trans h'
      exact ih hitems
  | objectEnd h =>
    cases hother with
    | objectEnd h' =>
      cases h.symm.trans h'
      exact ⟨rfl, rfl⟩
    | firstMember h' => cases h.symm.trans h'
    | nextMember h' => cases h.symm.trans h'
  | firstMember h hkey hcolon _ _ ihitem ihothers =>
    cases hother with
    | objectEnd h' => cases h.symm.trans h'
    | firstMember h' hkey' hcolon' hitem hothers =>
      cases h.symm.trans h'
      cases hkey.symm.trans hkey'
      cases hcolon.symm.trans hcolon'
      obtain ⟨rfl, rfl⟩ := ihitem hitem
      obtain ⟨hsame, rfl⟩ := ihothers hothers
      cases hsame
      exact ⟨rfl, rfl⟩
  | nextMember h _ ih =>
    cases hother with
    | objectEnd h' => cases h.symm.trans h'
    | nextMember h' hmembers =>
      cases h.symm.trans h'
      exact ih hmembers

theorem Spelled.unique {text : String} {other : Value} (h : Spelled text tree)
    (hother : Spelled text other) : tree = other := by
  obtain ⟨rest, h, -⟩ := h
  obtain ⟨after, hother, -⟩ := hother
  exact (h.unique hother).1

/-! ## Trees below lists -/

/-- A tree below a number of lists that have no other items. -/
def below : Nat → Value → Value
  | 0, tree => tree
  | count + 1, tree => .sequence [below count tree]

theorem spells_below (count : Nat) {cs rest : List Char} {tree : Value}
    (h : Spells .value cs tree (List.replicate count ']' ++ rest)) :
    Spells .value (List.replicate count '[' ++ cs) (below count tree) rest := by
  induction count generalizing rest with
  | zero => exact h
  | succ count ih =>
    rw [List.replicate_succ', List.append_assoc] at h
    have hclose : skipSpace (']' :: rest) = ']' :: rest := skipSpace_of_not_isSpace (by decide) rest
    exact .list (skipSpace_of_not_isSpace (by decide) _) (.firstItem (ih h) (.listEnd hclose))

theorem depth_below (count : Nat) (tree : Value) :
    (below count tree).depth = count + tree.depth := by
  induction count with
  | zero => exact (Nat.zero_add _).symm
  | succ count ih =>
    rw [below, Value.depth, depthItems, depthItems, ih]
    omega

/-! ## What is read is spelled -/

/-- What the readers with so many steps read is spelled by what they have read it from. -/
structure ReadsSpelled (fuel : Nat) : Prop where
  value : ∀ {depth cs v rest}, 0 < depth → value fuel depth cs = .ok (v, rest) →
    ∃ tree, Spells .value cs tree rest ∧ tree.depth < depth ∧ tree.settled = v
  items : ∀ {depth first cs vs rest}, 0 < depth → items fuel depth first cs = .ok (vs, rest) →
    ∃ trees, Spells (.items first) cs (.sequence trees) rest ∧ depthItems trees < depth ∧
      settledItems trees = vs
  members : ∀ {depth first cs vs rest}, 0 < depth → members fuel depth first cs = .ok (vs, rest) →
    ∃ trees, Spells (.members first) cs (.mapping trees) rest ∧ depthEntries trees < depth ∧
      settledEntries trees = vs

theorem spells_of_value {fuel depth : Nat} {v : Value} (ih : ReadsSpelled fuel) (hdepth : 0 < depth)
    (h : value (fuel + 1) depth cs = .ok (v, rest)) :
    ∃ tree, Spells .value cs tree rest ∧ tree.depth < depth ∧ tree.settled = v := by
  -- The cases are those of the first character, in the reader's order.
  unfold value at h
  split at h
  · cases h
  · rename_i hskip
    obtain ⟨behind, hword, h⟩ := bind_eq_ok.mp h
    cases h
    exact ⟨.null, .null (by rw [hskip, word_eq_ok_iff.mp hword]), hdepth, rfl⟩
  · rename_i hskip
    obtain ⟨behind, hword, h⟩ := bind_eq_ok.mp h
    cases h
    exact ⟨.bool true, .yes (by rw [hskip, word_eq_ok_iff.mp hword]), hdepth, rfl⟩
  · rename_i hskip
    obtain ⟨behind, hword, h⟩ := bind_eq_ok.mp h
    cases h
    exact ⟨.bool false, .no (by rw [hskip, word_eq_ok_iff.mp hword]), hdepth, rfl⟩
  · rename_i hskip
    obtain ⟨⟨text, behind⟩, htext, h⟩ := bind_eq_ok.mp h
    cases h
    exact ⟨.string text, .string hskip htext, hdepth, rfl⟩
  · rename_i hskip
    obtain ⟨⟨n, behind⟩, hnumber, h⟩ := bind_eq_ok.mp h
    cases h
    exact ⟨.number n, .negative hskip hnumber, hdepth, rfl⟩
  · rename_i hskip
    split at h
    · cases h
    · obtain ⟨⟨vs, behind⟩, hitems, h⟩ := bind_eq_ok.mp h
      cases h
      obtain ⟨trees, hspells, htrees, rfl⟩ := ih.items (by omega) hitems
      refine ⟨.sequence trees, .list hskip hspells, ?_, rfl⟩
      rw [Value.depth]
      omega
  · rename_i hskip
    split at h
    · cases h
    · obtain ⟨⟨vs, behind⟩, hmembers, h⟩ := bind_eq_ok.mp h
      cases h
      obtain ⟨trees, hspells, htrees, rfl⟩ := ih.members (by omega) hmembers
      refine ⟨.mapping trees, .object hskip hspells, ?_, rfl⟩
      rw [Value.depth]
      omega
  · rename_i hskip
    split at h
    · rename_i hdigit
      obtain ⟨⟨n, behind⟩, hnumber, h⟩ := bind_eq_ok.mp h
      cases h
      exact ⟨.number n, .positive hskip hdigit hnumber, hdepth, rfl⟩
    · cases h

theorem nextItem?_cases {first more : Bool} (h : nextItem? first cs = .ok (more, rest)) :
    more = false ∧ skipSpace cs = ']' :: rest ∨
      more = true ∧ first = true ∧ rest = skipSpace cs ∨
      more = true ∧ first = false ∧
        ∃ after, skipSpace cs = ',' :: after ∧ rest = skipSpace after := by
  unfold nextItem? at h
  split at h
  · cases h
  · rename_i hskip
    cases h
    exact Or.inl ⟨rfl, hskip⟩
  · rename_i c inside _ hskip
    split at h
    · rename_i hfirst
      cases h
      exact Or.inr (Or.inl ⟨rfl, hfirst, hskip.symm⟩)
    · rename_i hfirst
      split at h
      · rename_i hcomma
        subst hcomma
        split at h
        · cases h
        · cases h
        · rename_i hafter
          cases h
          exact Or.inr (Or.inr ⟨rfl, by simpa using hfirst, inside, hskip, rfl⟩)
      · cases h

theorem spells_of_items {fuel depth : Nat} {first : Bool} {vs : List Value}
    (ih : ReadsSpelled fuel) (hdepth : 0 < depth)
    (h : items (fuel + 1) depth first cs = .ok (vs, rest)) :
    ∃ trees, Spells (.items first) cs (.sequence trees) rest ∧ depthItems trees < depth ∧
      settledItems trees = vs := by
  rw [items] at h
  obtain ⟨⟨more, inside⟩, hnext, h⟩ := bind_eq_ok.mp h
  cases more with
  | false =>
    cases h
    rcases nextItem?_cases hnext with ⟨-, hskip⟩ | ⟨h, -⟩ | ⟨h, -⟩
    · exact ⟨[], .listEnd hskip, hdepth, rfl⟩
    · cases h
    · cases h
  | true =>
    obtain ⟨⟨item, behind⟩, hitem, h⟩ := bind_eq_ok.mp h
    obtain ⟨⟨others, last⟩, hothers, h⟩ := bind_eq_ok.mp h
    cases h
    obtain ⟨tree, htree, hless, rfl⟩ := ih.value hdepth hitem
    obtain ⟨trees, htrees, hmore, rfl⟩ := ih.items hdepth hothers
    have hdeep : depthItems (tree :: trees) < depth := by
      rw [depthItems]
      omega
    refine ⟨tree :: trees, ?_, hdeep, rfl⟩
    rcases nextItem?_cases hnext with ⟨h, -⟩ | ⟨-, rfl, rfl⟩ | ⟨-, rfl, after, hskip, rfl⟩
    · cases h
    · exact .firstItem (spells_skipSpace.mp htree) htrees
    · exact .nextItem hskip (.firstItem (spells_skipSpace.mp htree) htrees)

theorem nextKey?_cases {first more : Bool} (h : nextKey? first cs = .ok (more, rest)) :
    more = false ∧ skipSpace cs = '}' :: rest ∨
      more = true ∧ first = true ∧ skipSpace cs = '"' :: rest ∨
      more = true ∧ first = false ∧
        ∃ after, skipSpace cs = ',' :: after ∧ skipSpace after = '"' :: rest := by
  unfold nextKey? at h
  split at h
  · cases h
  · rename_i hskip
    cases h
    exact Or.inl ⟨rfl, hskip⟩
  · rename_i c inside _ hskip
    split at h
    · rename_i hfirst
      split at h
      · rename_i hquote
        cases h
        exact Or.inr (Or.inl ⟨rfl, hfirst, hquote ▸ hskip⟩)
      · cases h
    · rename_i hfirst
      split at h
      · rename_i hcomma
        subst hcomma
        split at h
        · cases h
        · rename_i hafter
          cases h
          exact Or.inr (Or.inr ⟨rfl, by simpa using hfirst, inside, hskip, hafter⟩)
        · cases h
        · cases h
      · cases h

theorem skipSpace_of_colon (h : colon cs = .ok rest) : skipSpace cs = ':' :: rest := by
  unfold colon at h
  split at h
  · cases h
  · rename_i hskip
    cases h
    exact hskip
  · cases h

theorem spells_of_members {fuel depth : Nat} {first : Bool} {vs : List (String × Value)}
    (ih : ReadsSpelled fuel) (hdepth : 0 < depth)
    (h : members (fuel + 1) depth first cs = .ok (vs, rest)) :
    ∃ trees, Spells (.members first) cs (.mapping trees) rest ∧ depthEntries trees < depth ∧
      settledEntries trees = vs := by
  rw [members] at h
  obtain ⟨⟨more, inside⟩, hnext, h⟩ := bind_eq_ok.mp h
  cases more with
  | false =>
    cases h
    rcases nextKey?_cases hnext with ⟨-, hskip⟩ | ⟨h, -⟩ | ⟨h, -⟩
    · exact ⟨[], .objectEnd hskip, hdepth, rfl⟩
    · cases h
    · cases h
  | true =>
    obtain ⟨⟨key, between⟩, hkey, h⟩ := bind_eq_ok.mp h
    obtain ⟨after, hcolon, h⟩ := bind_eq_ok.mp h
    obtain ⟨⟨item, behind⟩, hitem, h⟩ := bind_eq_ok.mp h
    obtain ⟨⟨others, last⟩, hothers, h⟩ := bind_eq_ok.mp h
    cases h
    have hcolon := skipSpace_of_colon hcolon
    obtain ⟨tree, htree, hless, rfl⟩ := ih.value hdepth hitem
    obtain ⟨trees, htrees, hmore, rfl⟩ := ih.members hdepth hothers
    have hdeep : depthEntries ((key, tree) :: trees) < depth := by
      rw [depthEntries]
      omega
    refine ⟨(key, tree) :: trees, ?_, hdeep, rfl⟩
    rcases nextKey?_cases hnext with ⟨h, -⟩ | ⟨-, rfl, hskip⟩ | ⟨-, rfl, after, hskip, hquote⟩
    · cases h
    · exact .firstMember hskip hkey hcolon htree htrees
    · exact .nextMember hskip (.firstMember hquote hkey hcolon htree htrees)

theorem readsSpelled (fuel : Nat) : ReadsSpelled fuel := by
  induction fuel with
  | zero =>
    refine ⟨?_, ?_, ?_⟩
    · intro depth cs v rest _ h
      rw [value] at h
      cases h
    · intro depth first cs vs rest _ h
      rw [items] at h
      cases h
    · intro depth first cs vs rest _ h
      rw [members] at h
      cases h
  | succ fuel ih => exact ⟨spells_of_value ih, spells_of_items ih, spells_of_members ih⟩

/-! ## What is spelled is read -/

/-- With enough steps and depth the readers read a tree that is spelled. Two steps for each
character are enough for a value, and one more for what is inside brackets. -/
def IsRead (cs : List Char) (tree : Value) (rest : List Char) : Aim → Prop
  | .value => ∀ fuel depth, 2 * cs.length ≤ fuel → tree.depth < depth →
      value fuel depth cs = .ok (tree.settled, rest)
  | .items first => ∀ trees, tree = .sequence trees → ∀ fuel depth, 2 * cs.length < fuel →
      depthItems trees < depth → items fuel depth first cs = .ok (settledItems trees, rest)
  | .members first => ∀ trees, tree = .mapping trees → ∀ fuel depth, 2 * cs.length < fuel →
      depthEntries trees < depth → members fuel depth first cs = .ok (settledEntries trees, rest)

theorem value_skipSpace (fuel depth : Nat) (cs : List Char) :
    value (fuel + 1) depth (skipSpace cs) = value (fuel + 1) depth cs := by
  rw [value, value, skipSpace_skipSpace]

/-- A value is read from its first character on. -/
theorem exists_value_eq {fuel : Nat} {c : Char} {inside : List Char}
    (h : skipSpace cs = c :: inside) (hfuel : 2 * cs.length ≤ fuel) (depth : Nat) :
    ∃ left, 2 * inside.length < left ∧
      value fuel depth cs = value (left + 1) depth (c :: inside) := by
  have hlength := length_of_skipSpace h
  obtain ⟨left, rfl⟩ := Nat.exists_eq_succ_of_ne_zero (n := fuel) (by omega)
  refine ⟨left, by omega, ?_⟩
  rw [← h, value_skipSpace]

theorem isRead_scalar {c : Char} {inside : List Char} (h : skipSpace cs = c :: inside)
    (hread : ∀ left depth, value (left + 1) depth (c :: inside) = .ok (tree.settled, rest)) :
    IsRead cs tree rest .value := by
  intro fuel depth hfuel _
  obtain ⟨left, -, hvalue⟩ := exists_value_eq h hfuel depth
  rw [hvalue, hread]

theorem isRead_list {inside : List Char} {trees : List Value} (h : skipSpace cs = '[' :: inside)
    (ih : IsRead inside (.sequence trees) rest (.items true)) :
    IsRead cs (.sequence trees) rest .value := by
  intro fuel depth hfuel hdepth
  obtain ⟨left, hleft, hvalue⟩ := exists_value_eq h hfuel depth
  rw [Value.depth] at hdepth
  rw [hvalue, value_bracket, if_neg (by omega), ih trees rfl left (depth - 1) hleft (by omega)]
  rfl

theorem isRead_object {inside : List Char} {trees : List (String × Value)}
    (h : skipSpace cs = '{' :: inside)
    (ih : IsRead inside (.mapping trees) rest (.members true)) :
    IsRead cs (.mapping trees) rest .value := by
  intro fuel depth hfuel hdepth
  obtain ⟨left, hleft, hvalue⟩ := exists_value_eq h hfuel depth
  rw [Value.depth] at hdepth
  rw [hvalue, value_brace, if_neg (by omega), ih trees rfl left (depth - 1) hleft (by omega)]
  rfl

theorem nextItem?_close (first : Bool) (h : skipSpace cs = ']' :: rest) :
    nextItem? first cs = .ok (false, rest) := by
  simp [nextItem?, h]

theorem nextKey?_close (first : Bool) (h : skipSpace cs = '}' :: rest) :
    nextKey? first cs = .ok (false, rest) := by
  simp [nextKey?, h]

theorem nextItem?_start {item : Value} (hitem : Spells .value cs item rest) :
    nextItem? true cs = .ok (true, skipSpace cs) := by
  obtain ⟨c, inside, hstart, hne⟩ := hitem.exists_start
  simp [nextItem?, hstart]

/-- Behind a comma there is an item, as there is behind an opening bracket. -/
theorem nextItem?_comma {after : List Char} {item : Value} (h : skipSpace cs = ',' :: after)
    (hitem : Spells .value after item rest) : nextItem? false cs = nextItem? true after := by
  obtain ⟨c, inside, hstart, hne⟩ := hitem.exists_start
  simp [nextItem?, h, hstart, hne]

theorem nextKey?_start (h : skipSpace cs = '"' :: rest) :
    nextKey? true cs = .ok (true, rest) := by
  simp [nextKey?, h]

theorem nextKey?_comma {after : List Char} (h : skipSpace cs = ',' :: after)
    (hquote : skipSpace after = '"' :: rest) : nextKey? false cs = nextKey? true after := by
  simp [nextKey?, h, hquote]

theorem colon_of_skipSpace (h : skipSpace cs = ':' :: rest) : colon cs = .ok rest := by
  simp [colon, h]

theorem isRead_firstItem {behind : List Char} {item : Value} {others : List Value}
    (hitem : Spells .value cs item behind) (ihitem : IsRead cs item behind .value)
    (ihothers : IsRead behind (.sequence others) rest (.items false)) :
    IsRead cs (.sequence (item :: others)) rest (.items true) := by
  rintro trees hsame fuel depth hfuel hdepth
  cases hsame
  have hshort := hitem.length_lt
  obtain ⟨left, rfl⟩ := Nat.exists_eq_succ_of_ne_zero (n := fuel) (by omega)
  obtain ⟨fewer, rfl⟩ := Nat.exists_eq_succ_of_ne_zero (n := left) (by omega)
  rw [depthItems] at hdepth
  have hread := ihitem (fewer + 1) depth (by omega) (by omega)
  rw [← value_skipSpace] at hread
  rw [items_of_nextItem? (nextItem?_start hitem), hread]
  dsimp only [bind, Except.bind]
  rw [ihothers others rfl (fewer + 1) depth (by omega) (by omega)]
  rfl

theorem isRead_nextItem {after : List Char} {item : Value} {others : List Value}
    (h : skipSpace cs = ',' :: after)
    (hitems : Spells (.items true) after (.sequence (item :: others)) rest)
    (ih : IsRead after (.sequence (item :: others)) rest (.items true)) :
    IsRead cs (.sequence (item :: others)) rest (.items false) := by
  rintro trees hsame fuel depth hfuel hdepth
  cases hsame
  have hlength := length_of_skipSpace h
  cases hitems with
  | firstItem hitem _ =>
    have hread := ih _ rfl fuel depth (by omega) hdepth
    obtain ⟨left, rfl⟩ := Nat.exists_eq_succ_of_ne_zero (n := fuel) (by omega)
    rw [items] at hread ⊢
    rw [nextItem?_comma h hitem]
    exact hread

theorem isRead_firstMember {inside between after behind : List Char} {key : String}
    {item : Value} {others : List (String × Value)} (h : skipSpace cs = '"' :: inside)
    (hkey : string inside = .ok (key, between)) (hcolon : skipSpace between = ':' :: after)
    (hitem : Spells .value after item behind) (ihitem : IsRead after item behind .value)
    (ihothers : IsRead behind (.mapping others) rest (.members false)) :
    IsRead cs (.mapping ((key, item) :: others)) rest (.members true) := by
  rintro trees hsame fuel depth hfuel hdepth
  cases hsame
  have hquote := length_of_skipSpace h
  have hname := length_string hkey
  have hpoint := length_of_skipSpace hcolon
  have hshort := hitem.length_lt
  obtain ⟨left, rfl⟩ := Nat.exists_eq_succ_of_ne_zero (n := fuel) (by omega)
  rw [depthEntries] at hdepth
  rw [members, nextKey?_start h]
  dsimp only [bind, Except.bind]
  rw [hkey]
  dsimp only
  rw [colon_of_skipSpace hcolon]
  dsimp only
  rw [ihitem left depth (by omega) (by omega)]
  dsimp only
  rw [ihothers others rfl left depth (by omega) (by omega)]
  rfl

theorem isRead_nextMember {after : List Char} {entry : String × Value}
    {others : List (String × Value)} (h : skipSpace cs = ',' :: after)
    (hmembers : Spells (.members true) after (.mapping (entry :: others)) rest)
    (ih : IsRead after (.mapping (entry :: others)) rest (.members true)) :
    IsRead cs (.mapping (entry :: others)) rest (.members false) := by
  rintro trees hsame fuel depth hfuel hdepth
  cases hsame
  have hlength := length_of_skipSpace h
  cases hmembers with
  | firstMember hquote _ _ _ _ =>
    have hread := ih _ rfl fuel depth (by omega) hdepth
    obtain ⟨left, rfl⟩ := Nat.exists_eq_succ_of_ne_zero (n := fuel) (by omega)
    rw [members] at hread ⊢
    rw [nextKey?_comma h hquote]
    exact hread

theorem isRead_of_spells (h : Spells aim cs tree rest) : IsRead cs tree rest aim := by
  induction h with
  | null h =>
    exact isRead_scalar h fun left depth => by
      rw [value, skipSpace_of_not_isSpace (by decide)]
      rfl
  | yes h =>
    exact isRead_scalar h fun left depth => by
      rw [value, skipSpace_of_not_isSpace (by decide)]
      rfl
  | no h =>
    exact isRead_scalar h fun left depth => by
      rw [value, skipSpace_of_not_isSpace (by decide)]
      rfl
  | string h htext => exact isRead_scalar h fun left depth => by rw [value_quote, htext]; rfl
  | negative h hnumber => exact isRead_scalar h fun left depth => by rw [value_minus, hnumber]; rfl
  | positive h hdigit hnumber =>
    exact isRead_scalar h fun left depth => by rw [value_of_isDigit hdigit, hnumber]; rfl
  | list h _ ih => exact isRead_list h ih
  | object h _ ih => exact isRead_object h ih
  | listEnd h =>
    rintro trees hsame fuel depth hfuel hdepth
    cases hsame
    obtain ⟨left, rfl⟩ := Nat.exists_eq_succ_of_ne_zero (Nat.ne_of_gt (Nat.zero_lt_of_lt hfuel))
    rw [items, nextItem?_close _ h]
    rfl
  | firstItem hitem _ ihitem ihothers => exact isRead_firstItem hitem ihitem ihothers
  | nextItem h hitems ih => exact isRead_nextItem h hitems ih
  | objectEnd h =>
    rintro trees hsame fuel depth hfuel hdepth
    cases hsame
    obtain ⟨left, rfl⟩ := Nat.exists_eq_succ_of_ne_zero (Nat.ne_of_gt (Nat.zero_lt_of_lt hfuel))
    rw [members, nextKey?_close _ h]
    rfl
  | firstMember h hkey hcolon hitem _ ihitem ihothers =>
    exact isRead_firstMember h hkey hcolon hitem ihitem ihothers
  | nextMember h hmembers ih => exact isRead_nextMember h hmembers ih

/-- With enough steps a value is read if and only if it is spelled by a tree that is not too
deep. -/
theorem value_eq_ok_iff {fuel : Nat} {v : Value} (hfuel : 2 * cs.length ≤ fuel) :
    value fuel depthLimit cs = .ok (v, rest) ↔
      ∃ tree, Spells .value cs tree rest ∧ tree.depth < depthLimit ∧ tree.settled = v := by
  constructor
  · exact (readsSpelled fuel).value (by decide)
  · rintro ⟨tree, hspells, hdepth, rfl⟩
    exact isRead_of_spells hspells fuel depthLimit hfuel hdepth

/-! ## Whole texts -/

theorem readWhole_eq_ok_iff {α : Type} {reader : List Char → Except Failure (α × List Char)}
    {text : String} {a : α} :
    readWhole reader text = .ok a ↔
      ∃ rest, reader text.toList = .ok (a, rest) ∧ skipSpace rest = [] := by
  constructor
  · intro h
    unfold readWhole at h
    dsimp only at h
    split at h
    · rename_i hresult
      cases h
      obtain ⟨⟨b, rest⟩, hread, hend⟩ := bind_eq_ok.mp hresult
      dsimp only at hend
      split at hend
      · rename_i hskip
        cases hend
        exact ⟨rest, hread, hskip⟩
      · cases hend
    · cases h
  · rintro ⟨rest, hread, hskip⟩
    simp [readWhole, hread, hskip, bind, Except.bind]

/-- A text is read if and only if it spells a tree that is not too deep, and then as the value of
that tree. -/
theorem read_eq_ok_iff {text : String} {v : Value} :
    read text = .ok v ↔
      ∃ tree, Spelled text tree ∧ tree.depth < depthLimit ∧ tree.settled = v := by
  have hfuel : 2 * text.toList.length ≤ stepsFor text.toList := Nat.le_add_right _ _
  rw [read, readWhole_eq_ok_iff]
  constructor
  · rintro ⟨rest, hread, hend⟩
    obtain ⟨tree, hspells, hlimit⟩ := (value_eq_ok_iff hfuel).mp hread
    exact ⟨tree, ⟨rest, hspells, hend⟩, hlimit⟩
  · rintro ⟨tree, ⟨rest, hspells, hend⟩, hlimit⟩
    exact ⟨rest, (value_eq_ok_iff hfuel).mpr ⟨tree, hspells, hlimit⟩, hend⟩

/-- An object is read as the mapping that a value would be read as. -/
theorem object_eq_ok_iff {entries : OrderedMap String Value} :
    object cs = .ok (entries, rest) ↔
      value (stepsFor cs) depthLimit cs = .ok (.mapping entries, rest) := by
  have hfuel : 2 * cs.length ≤ stepsFor cs := Nat.le_add_right _ _
  rw [value_eq_ok_iff hfuel, ← value_eq_ok_iff (Nat.le_succ_of_le hfuel)]
  constructor
  · intro h
    unfold object at h
    split at h
    · cases h
    · rename_i inside hskip
      obtain ⟨⟨members, behind⟩, hmembers, h⟩ := bind_eq_ok.mp h
      cases h
      rw [← value_skipSpace, hskip, value_brace, if_neg (by decide), hmembers]
      rfl
    · cases h
  · intro h
    obtain ⟨tree, hspells, hdepth, hsettled⟩ :=
      (value_eq_ok_iff (Nat.le_succ_of_le hfuel)).mp h
    cases hspells with
    | object hskip hmembers =>
      rw [← value_skipSpace, hskip, value_brace, if_neg (by decide)] at h
      obtain ⟨⟨members, behind⟩, hmembers, h⟩ := bind_eq_ok.mp h
      cases h
      simp only [object, hskip, hmembers]
      rfl
    | _ => cases hsettled

/-- A text is read as an object if and only if it is read as a mapping. -/
theorem readWhole_object_eq_ok_iff {text : String} {entries : OrderedMap String Value} :
    readWhole object text = .ok entries ↔ read text = .ok (.mapping entries) := by
  rw [read, readWhole_eq_ok_iff, readWhole_eq_ok_iff]
  exact exists_congr fun rest => and_congr_left' object_eq_ok_iff

end Json

end PageManifest
