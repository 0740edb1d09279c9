import PageManifest.Proofs.Json.Grammar

/-!
# What is read for a given type

A reader that expects one kind of value reads a tree just if the tree is of that kind:
`true` or `false` (`bool_eq_ok_iff`), a string (`text_eq_ok_iff`), or a list of strings
(`texts_eq_ok_iff`).
-/

namespace PageManifest.Json

variable {cs rest behind : List Char} {tree : Value}

theorem spells_of_bool {b : Bool} (h : bool cs = .ok (b, rest)) :
    Spells .value cs (.bool b) rest := by
  unfold bool at h
  split at h
  · cases h
  · rename_i hskip
    obtain ⟨after, hword, h⟩ := bind_eq_ok.mp h
    cases h
    exact .yes (by rw [hskip, word_eq_ok_iff.mp hword])
  · rename_i hskip
    obtain ⟨after, hword, h⟩ := bind_eq_ok.mp h
    cases h
    exact .no (by rw [hskip, word_eq_ok_iff.mp hword])
  · cases h

theorem bool_eq_ok_iff {b : Bool} (h : Spells .value cs tree rest) :
    bool cs = .ok (b, behind) ↔ tree = .bool b ∧ rest = behind := by
  constructor
  · intro hread
    exact h.unique (spells_of_bool hread)
  · rintro ⟨rfl, rfl⟩
    cases h with
    | yes hskip =>
      rw [bool, hskip]
      rfl
    | no hskip =>
      rw [bool, hskip]
      rfl

theorem spells_of_text {expected content : String} (h : text expected cs = .ok (content, rest)) :
    Spells .value cs (.string content) rest := by
  unfold text at h
  split at h
  · cases h
  · rename_i hskip
    exact .string hskip h
  · cases h

theorem text_eq_ok_iff {expected content : String} (h : Spells .value cs tree rest) :
    text expected cs = .ok (content, behind) ↔ tree = .string content ∧ rest = behind := by
  constructor
  · intro hread
    exact h.unique (spells_of_text hread)
  · rintro ⟨rfl, rfl⟩
    cases h with
    | string hskip htext =>
      rw [text, hskip]
      exact htext

/-! ## Lists of strings -/

/-- The list of some strings. -/
def textList (contents : List String) : Value := .sequence (contents.map .string)

theorem spells_of_textItems {fuel : Nat} {first : Bool} {contents : List String}
    (h : textItems fuel first cs = .ok (contents, rest)) :
    Spells (.items first) cs (textList contents) rest := by
  induction fuel generalizing first cs contents with
  | zero => cases h
  | succ fuel ih =>
    rw [textItems] at h
    obtain ⟨⟨more, inside⟩, hnext, h⟩ := bind_eq_ok.mp h
    cases more with
    | false =>
      cases h
      rcases nextItem?_cases hnext with ⟨-, hskip⟩ | ⟨h, -⟩ | ⟨h, -⟩
      · exact .listEnd hskip
      · cases h
      · cases h
    | true =>
      obtain ⟨⟨content, between⟩, hcontent, h⟩ := bind_eq_ok.mp h
      obtain ⟨⟨others, last⟩, hothers, h⟩ := bind_eq_ok.mp h
      cases h
      rcases nextItem?_cases hnext with ⟨h, -⟩ | ⟨-, rfl, rfl⟩ | ⟨-, rfl, after, hskip, rfl⟩
      · cases h
      · exact .firstItem (spells_skipSpace.mp (spells_of_text hcontent)) (ih hothers)
      · exact .nextItem hskip
          (.firstItem (spells_skipSpace.mp (spells_of_text hcontent)) (ih hothers))

/-- With a step for each character a list of strings is read. -/
def IsReadAsTexts (cs : List Char) (tree : Value) (rest : List Char) : Aim → Prop
  | .items first => ∀ contents, tree = textList contents → ∀ fuel, cs.length < fuel →
      textItems fuel first cs = .ok (contents, rest)
  | _ => True

theorem isReadAsTexts_firstItem {item : Value} {others : List Value}
    (hitem : Spells .value cs item behind)
    (ih : IsReadAsTexts behind (.sequence others) rest (.items false)) :
    IsReadAsTexts cs (.sequence (item :: others)) rest (.items true) := by
  intro contents hsame fuel hfuel
  cases contents with
  | nil => cases hsame
  | cons content contents =>
    cases hsame
    have hshort := hitem.length_lt
    obtain ⟨left, rfl⟩ := Nat.exists_eq_succ_of_ne_zero (n := fuel) (by omega)
    have hcontent : text "a string" (skipSpace cs) = .ok (content, behind) :=
      (text_eq_ok_iff (spells_skipSpace.mpr hitem)).mpr ⟨rfl, rfl⟩
    rw [textItems, nextItem?_start hitem]
    dsimp only [bind, Except.bind]
    rw [hcontent]
    dsimp only
    rw [ih contents rfl left (by omega)]
    rfl

theorem isReadAsTexts_nextItem {after : List Char} {item : Value} {others : List Value}
    (h : skipSpace cs = ',' :: after)
    (hitems : Spells (.items true) after (.sequence (item :: others)) rest)
    (ih : IsReadAsTexts after (.sequence (item :: others)) rest (.items true)) :
    IsReadAsTexts cs (.sequence (item :: others)) rest (.items false) := by
  intro contents hsame fuel hfuel
  have hlength := length_of_skipSpace h
  cases hitems with
  | firstItem hitem _ =>
    have hread := ih contents hsame fuel (by omega)
    obtain ⟨left, rfl⟩ := Nat.exists_eq_succ_of_ne_zero (n := fuel) (by omega)
    rw [textItems] at hread ⊢
    rw [nextItem?_comma h hitem]
    exact hread

theorem isReadAsTexts_of_spells {aim : Aim} (h : Spells aim cs tree rest) :
    IsReadAsTexts cs tree rest aim := by
  induction h with
  | listEnd h =>
    intro contents hsame fuel hfuel
    cases contents with
    | nil =>
      obtain ⟨left, rfl⟩ := Nat.exists_eq_succ_of_ne_zero (n := fuel) (by omega)
      rw [textItems, nextItem?_close _ h]
      rfl
    | cons content contents => cases hsame
  | firstItem hitem _ _ ih => exact isReadAsTexts_firstItem hitem ih
  | nextItem h hitems ih => exact isReadAsTexts_nextItem h hitems ih
  | _ => trivial

theorem spells_of_texts {contents : List String} (h : texts cs = .ok (contents, rest)) :
    Spells .value cs (textList contents) rest := by
  unfold texts at h
  split at h
  · cases h
  · rename_i hskip
    exact .list hskip (spells_of_textItems h)
  · cases h

theorem texts_eq_ok_iff {contents : List String} (h : Spells .value cs tree rest) :
    texts cs = .ok (contents, behind) ↔ tree = textList contents ∧ rest = behind := by
  constructor
  · intro hread
    exact h.unique (spells_of_texts hread)
  · rintro ⟨rfl, rfl⟩
    cases h with
    | list hskip hitems =>
      have hlength := length_of_skipSpace hskip
      rw [texts, hskip]
      exact isReadAsTexts_of_spells hitems contents rfl (stepsFor cs) (by rw [stepsFor]; omega)

end PageManifest.Json
