import PageManifest.Proofs.Client.Calls
import PageManifest.Proofs.Json.Skipping
import PageManifest.Proofs.Json.Typed
import PageManifest.Proofs.Json.Writing
import PageManifest.Validation.Reader

/-!
# What verdicts are read from

A tree gives a verdict if it is an object that has the members `valid` and `errors` once at most
and of the right kind, whatever else it has, or a list of at most these two values (`Gives`). Just
those texts that spell such a tree are read as verdicts (`ofJson_eq_ok_iff`). The members of an
object are noted one after the other (`Notes`, `Collects`), and each field is filled from at most
one of them (`Fills`).
-/

namespace PageManifest.Validation

open Json (Aim Spells Spelled skipSpace textList)

/-! ## Trees that give verdicts -/

/-- There is at most one member of a name among some entries, and it is of the form of what the
name stands for. -/
inductive AtMostOnce {α : Type} (form : α → Value) (name : String)
    (entries : List (String × Value)) : Option α → Prop
  | absent (h : ∀ entry ∈ entries, entry.1 ≠ name) : AtMostOnce form name entries none
  | once (a : α) (before after : List (String × Value))
      (hentries : entries = before ++ (name, form a) :: after)
      (hothers : ∀ entry ∈ before ++ after, entry.1 ≠ name) :
      AtMostOnce form name entries (some a)

/-- A tree gives a verdict. -/
inductive Gives : Value → Validation → Prop
  | object {entries : List (String × Value)} {valid : Option Bool} {errors : Option (List String)}
      (hvalid : AtMostOnce .bool "valid" entries valid)
      (herrors : AtMostOnce textList "errors" entries errors) :
      Gives (.mapping entries) { valid := valid.getD false, errors := errors.getD [] }
  | nothing : Gives (.sequence []) { valid := false, errors := [] }
  | valid (valid : Bool) : Gives (.sequence [.bool valid]) { valid, errors := [] }
  | both (valid : Bool) (errors : List String) :
      Gives (.sequence [.bool valid, textList errors]) { valid, errors }

/-- A tree says that something is valid: the literal true stands in the member for it, or in the
first place. -/
def SaysTrue (tree : Value) : Prop :=
  (∃ entries, tree = .mapping entries ∧ ("valid", .bool true) ∈ entries) ∨
    ∃ items, tree = .sequence (.bool true :: items)

theorem Gives.saysTrue {tree : Value} {verdict : Validation} (h : Gives tree verdict)
    (hvalid : verdict.valid = true) : SaysTrue tree := by
  cases h with
  | @object entries valid errors hmember herrors =>
    cases hmember with
    | absent h => cases hvalid
    | once a before after hentries hothers =>
      cases hvalid
      exact Or.inl ⟨entries, rfl, by simp [hentries]⟩
  | nothing => cases hvalid
  | valid valid =>
    cases hvalid
    exact Or.inr ⟨[], rfl⟩
  | both valid errors =>
    cases hvalid
    exact Or.inr ⟨_, rfl⟩

/-! ## Members -/

/-- A member is noted: it has the form that its name asks for and is the first of that name, or
nothing is known of the name. -/
inductive Notes (found : Members) : String → Value → Members → Prop
  | valid {valid : Bool} (h : found.valid = none) :
      Notes found "valid" (.bool valid) { found with valid := some valid }
  | errors {errors : List String} (h : found.errors = none) :
      Notes found "errors" (textList errors) { found with errors := some errors }
  | other {key : String} {item : Value} (hvalid : key ≠ "valid") (herrors : key ≠ "errors") :
      Notes found key item found

/-- All members are noted, in their order. -/
inductive Collects : Members → List (String × Value) → Members → Prop
  | done {found : Members} : Collects found [] found
  | more {found next last : Members} {key : String} {item : Value}
      {others : List (String × Value)} (hfirst : Notes found key item next)
      (hothers : Collects next others last) : Collects found ((key, item) :: others) last

/-- A field is filled from some entries, unless it is filled already. -/
def Fills {α : Type} (form : α → Value) (name : String) (start : Option α)
    (entries : List (String × Value)) (final : Option α) : Prop :=
  start = none ∧ AtMostOnce form name entries final ∨
    start ≠ none ∧ final = start ∧ ∀ entry ∈ entries, entry.1 ≠ name

section Fills

variable {α : Type} {form : α → Value} {name key : String} {start final : Option α} {item : Value}
  {others : List (String × Value)}

theorem fills_nil : Fills form name start [] final ↔ final = start := by
  constructor
  · rintro (⟨rfl, h⟩ | ⟨-, rfl, -⟩)
    · cases h with
      | absent h => rfl
      | once a before after hentries hothers => simp at hentries
    · rfl
  · rintro rfl
    cases final with
    | none => exact Or.inl ⟨rfl, .absent (by simp)⟩
    | some a => exact Or.inr ⟨by simp, rfl, by simp⟩

theorem fills_cons_of_ne (h : key ≠ name) :
    Fills form name start ((key, item) :: others) final ↔ Fills form name start others final := by
  have habsent : (∀ entry ∈ (key, item) :: others, entry.1 ≠ name) ↔
      ∀ entry ∈ others, entry.1 ≠ name := by simp [h]
  have honce : AtMostOnce form name ((key, item) :: others) final ↔
      AtMostOnce form name others final := by
    constructor
    · intro hmember
      cases hmember with
      | absent hnone => exact .absent (habsent.mp hnone)
      | once a before after hentries hothers =>
        cases before with
        | nil =>
          cases hentries
          exact absurd rfl h
        | cons entry before =>
          cases hentries
          exact .once a before after rfl fun entry hmem =>
            hothers entry (List.mem_cons_of_mem _ hmem)
    · intro hmember
      cases hmember with
      | absent hnone => exact .absent (habsent.mpr hnone)
      | once a before after hentries hothers =>
        refine .once a ((key, item) :: before) after (by rw [hentries]; rfl) ?_
        intro entry hmem
        rcases List.mem_cons.mp hmem with rfl | hmem
        · exact h
        · exact hothers entry hmem
  rw [Fills, Fills, habsent, honce]

theorem fills_cons_self :
    Fills form name start ((name, item) :: others) final ↔
      start = none ∧ ∃ a, item = form a ∧ Fills form name (some a) others final := by
  constructor
  · rintro (⟨rfl, h⟩ | ⟨-, -, h⟩)
    · cases h with
      | absent h => exact absurd rfl (h (name, item) List.mem_cons_self)
      | once a before after hentries hothers =>
        cases before with
        | nil =>
          cases hentries
          exact ⟨rfl, a, rfl, Or.inr ⟨by simp, rfl, hothers⟩⟩
        | cons entry before =>
          cases hentries
          exact absurd rfl (hothers (name, item) List.mem_cons_self)
    · exact absurd rfl (h (name, item) List.mem_cons_self)
  · rintro ⟨rfl, a, rfl, ⟨h, -⟩ | ⟨-, rfl, h⟩⟩
    · cases h
    · exact Or.inl ⟨rfl, .once a [] others rfl h⟩

end Fills

/-- The two fields are filled independently. -/
theorem collects_iff {found last : Members} {entries : List (String × Value)} :
    Collects found entries last ↔
      Fills .bool "valid" found.valid entries last.valid ∧
        Fills textList "errors" found.errors entries last.errors := by
  have hnames : "valid" ≠ "errors" := by decide
  constructor
  · intro h
    induction h with
    | done => exact ⟨fills_nil.mpr rfl, fills_nil.mpr rfl⟩
    | more hfirst _ ih =>
      cases hfirst with
      | valid h =>
        exact ⟨fills_cons_self.mpr ⟨h, _, rfl, ih.1⟩, (fills_cons_of_ne hnames).mpr ih.2⟩
      | errors h =>
        exact ⟨(fills_cons_of_ne hnames.symm).mpr ih.1, fills_cons_self.mpr ⟨h, _, rfl, ih.2⟩⟩
      | other hvalid herrors =>
        exact ⟨(fills_cons_of_ne hvalid).mpr ih.1, (fills_cons_of_ne herrors).mpr ih.2⟩
  · intro h
    induction entries generalizing found with
    | nil =>
      obtain ⟨valid, errors⟩ := last
      obtain ⟨hvalid, herrors⟩ := h
      cases fills_nil.mp hvalid
      cases fills_nil.mp herrors
      exact .done
    | cons entry others ih =>
      obtain ⟨key, item⟩ := entry
      by_cases hvalid : key = "valid"
      · subst hvalid
        rw [fills_cons_self, fills_cons_of_ne hnames] at h
        obtain ⟨⟨hnone, valid, rfl, hfills⟩, herrors⟩ := h
        exact .more (.valid hnone) (ih ⟨hfills, herrors⟩)
      by_cases herrors : key = "errors"
      · subst herrors
        rw [fills_cons_self, fills_cons_of_ne hvalid] at h
        obtain ⟨hvalid, hnone, errors, rfl, hfills⟩ := h
        exact .more (.errors hnone) (ih ⟨hvalid, hfills⟩)
      · rw [fills_cons_of_ne hvalid, fills_cons_of_ne herrors] at h
        exact .more (.other hvalid herrors) (ih h)

theorem gives_mapping_iff {entries : List (String × Value)} {verdict : Validation} :
    Gives (.mapping entries) verdict ↔
      ∃ last, Collects {} entries last ∧ last.verdict = verdict := by
  have hfills : ∀ {α : Type} {form : α → Value} {name : String} {final : Option α},
      Fills form name none entries final ↔ AtMostOnce form name entries final := by
    intro α form name final
    simp [Fills]
  constructor
  · intro h
    cases h with
    | @object _ valid errors hvalid herrors =>
      exact ⟨⟨valid, errors⟩, collects_iff.mpr ⟨hfills.mpr hvalid, hfills.mpr herrors⟩, rfl⟩
  · rintro ⟨last, hcollects, rfl⟩
    obtain ⟨hvalid, herrors⟩ := collects_iff.mp hcollects
    exact .object (hfills.mp hvalid) (hfills.mp herrors)

/-! ## Reading -/

variable {cs rest behind : List Char} {tree : Value}

theorem repeated_ne_ok {α : Type} {name : String} {result : α} : repeated name cs ≠ .ok result := by
  unfold repeated
  split
  · rintro ⟨⟩
  · rintro ⟨⟩

/-- One member is read just if it is noted. -/
theorem member_eq_ok_iff {found next : Members} {key : String} {between after last : List Char}
    {item : Value} (hcolon : skipSpace between = ':' :: after)
    (hitem : Spells .value after item behind) :
    member found key between = .ok (next, last) ↔ Notes found key item next ∧ behind = last := by
  constructor
  · intro h
    unfold member at h
    split at h
    · rename_i hkey
      subst hkey
      split at h
      · exact absurd h repeated_ne_ok
      · rename_i hnone
        obtain ⟨start, hstart, h⟩ := bind_eq_ok.mp h
        cases (Json.colon_of_skipSpace hcolon).symm.trans hstart
        obtain ⟨⟨valid, following⟩, hvalid, h⟩ := bind_eq_ok.mp h
        cases h
        obtain ⟨rfl, rfl⟩ := (Json.bool_eq_ok_iff hitem).mp hvalid
        exact ⟨.valid (by simpa using hnone), rfl⟩
    · split at h
      · rename_i hkey
        subst hkey
        split at h
        · exact absurd h repeated_ne_ok
        · rename_i hnone
          obtain ⟨start, hstart, h⟩ := bind_eq_ok.mp h
          cases (Json.colon_of_skipSpace hcolon).symm.trans hstart
          obtain ⟨⟨errors, following⟩, herrors, h⟩ := bind_eq_ok.mp h
          cases h
          obtain ⟨rfl, rfl⟩ := (Json.texts_eq_ok_iff hitem).mp herrors
          exact ⟨.errors (by simpa using hnone), rfl⟩
      · rename_i hvalid herrors
        obtain ⟨start, hstart, h⟩ := bind_eq_ok.mp h
        cases (Json.colon_of_skipSpace hcolon).symm.trans hstart
        obtain ⟨following, hskip, h⟩ := bind_eq_ok.mp h
        cases (Json.skip_of_spells hitem).symm.trans hskip
        cases h
        exact ⟨.other hvalid herrors, rfl⟩
  · rintro ⟨hnotes, rfl⟩
    cases hnotes with
    | @valid valid hnone =>
      have hvalid := (Json.bool_eq_ok_iff hitem).mpr ⟨rfl, rfl⟩
      simp [member, hnone, Json.colon_of_skipSpace hcolon, hvalid, bind, Except.bind, pure,
        Except.pure]
    | @errors errors hnone =>
      have herrors := (Json.texts_eq_ok_iff hitem).mpr ⟨rfl, rfl⟩
      simp [member, hnone, Json.colon_of_skipSpace hcolon, herrors, bind, Except.bind, pure,
        Except.pure]
    | other hvalid herrors =>
      simp [member, hvalid, herrors, Json.colon_of_skipSpace hcolon, Json.skip_of_spells hitem,
        bind, Except.bind, pure, Except.pure]

/-- With a step for each character the members of an object are read just if they can be
collected. -/
def ReadsMembers (cs : List Char) (tree : Value) (rest : List Char) : Aim → Prop
  | .members first => ∀ entries, tree = .mapping entries → ∀ fuel, cs.length < fuel →
      ∀ found last behind, members fuel first found cs = .ok (last, behind) ↔
        Collects found entries last ∧ rest = behind
  | _ => True

theorem readsMembers_objectEnd {first : Bool} (h : skipSpace cs = '}' :: rest) :
    ReadsMembers cs (.mapping []) rest (.members first) := by
  intro entries hsame fuel hfuel found last behind
  cases hsame
  obtain ⟨left, rfl⟩ := Nat.exists_eq_succ_of_ne_zero (n := fuel) (by omega)
  rw [members, Json.nextKey?_close first h]
  constructor
  · intro hread
    cases hread
    exact ⟨.done, rfl⟩
  · rintro ⟨hcollects, rfl⟩
    cases hcollects
    rfl

theorem readsMembers_firstMember {inside between after following : List Char} {key : String}
    {item : Value} {others : List (String × Value)} (h : skipSpace cs = '"' :: inside)
    (hkey : Json.string inside = .ok (key, between)) (hcolon : skipSpace between = ':' :: after)
    (hitem : Spells .value after item following)
    (ih : ReadsMembers following (.mapping others) rest (.members false)) :
    ReadsMembers cs (.mapping ((key, item) :: others)) rest (.members true) := by
  intro entries hsame fuel hfuel found last behind
  cases hsame
  have hquote := Json.length_of_skipSpace h
  have hname := Json.length_string hkey
  have hpoint := Json.length_of_skipSpace hcolon
  have hshort := hitem.length_lt
  obtain ⟨left, rfl⟩ := Nat.exists_eq_succ_of_ne_zero (n := fuel) (by omega)
  have hothers := ih others rfl left (by omega)
  rw [members, Json.nextKey?_start h]
  dsimp only [bind, Except.bind]
  rw [hkey]
  constructor
  · intro hread
    obtain ⟨⟨next, middle⟩, hmember, hread⟩ := bind_eq_ok.mp hread
    obtain ⟨hnotes, rfl⟩ := (member_eq_ok_iff hcolon hitem).mp hmember
    obtain ⟨hcollects, rfl⟩ := (hothers next last behind).mp hread
    exact ⟨.more hnotes hcollects, rfl⟩
  · rintro ⟨hcollects, rfl⟩
    cases hcollects with
    | @more _ next _ _ _ _ hnotes hcollects =>
      exact bind_eq_ok.mpr ⟨(next, following), (member_eq_ok_iff hcolon hitem).mpr ⟨hnotes, rfl⟩,
        (hothers next last rest).mpr ⟨hcollects, rfl⟩⟩

theorem readsMembers_nextMember {after : List Char} {entry : String × Value}
    {others : List (String × Value)} (h : skipSpace cs = ',' :: after)
    (hmembers : Spells (.members true) after (.mapping (entry :: others)) rest)
    (ih : ReadsMembers after (.mapping (entry :: others)) rest (.members true)) :
    ReadsMembers cs (.mapping (entry :: others)) rest (.members false) := by
  intro entries hsame fuel hfuel found last behind
  have hlength := Json.length_of_skipSpace h
  cases hmembers with
  | firstMember hquote _ _ _ _ =>
    rw [← ih entries hsame fuel (by omega)]
    obtain ⟨left, rfl⟩ := Nat.exists_eq_succ_of_ne_zero (n := fuel) (by omega)
    rw [members, members, Json.nextKey?_comma h hquote]

theorem readsMembers_of_spells {aim : Aim} (h : Spells aim cs tree rest) :
    ReadsMembers cs tree rest aim := by
  induction h with
  | objectEnd h => exact readsMembers_objectEnd h
  | firstMember h hkey hcolon hitem _ _ ih =>
    exact readsMembers_firstMember h hkey hcolon hitem ih
  | nextMember h hmembers ih => exact readsMembers_nextMember h hmembers ih
  | _ => trivial

theorem spells_of_endOfList (h : endOfList cs = .ok rest) :
    Spells (.items false) cs (.sequence []) rest := by
  unfold endOfList at h
  split at h
  · rename_i hskip
    cases h
    exact .listEnd hskip
  · split at h
    · cases h
    · cases h
  · cases h
  · cases h

theorem spells_of_items {verdict : Validation} (h : items cs = .ok (verdict, rest)) :
    ∃ trees, Spells (.items true) cs (.sequence trees) rest ∧ Gives (.sequence trees) verdict := by
  obtain ⟨⟨more, inside⟩, hnext, h⟩ := bind_eq_ok.mp h
  cases more with
  | false =>
    cases h
    rcases Json.nextItem?_cases hnext with ⟨-, hskip⟩ | ⟨h, -⟩ | ⟨h, -⟩
    · exact ⟨[], .listEnd hskip, .nothing⟩
    · cases h
    · cases h
  | true =>
    rcases Json.nextItem?_cases hnext with ⟨h, -⟩ | ⟨-, -, rfl⟩ | ⟨-, h, -⟩
    · cases h
    · obtain ⟨⟨valid, between⟩, hvalid, h⟩ := bind_eq_ok.mp h
      have hfirst := Json.spells_skipSpace.mp (Json.spells_of_bool hvalid)
      obtain ⟨⟨more, after⟩, hnext, h⟩ := bind_eq_ok.mp h
      cases more with
      | false =>
        cases h
        rcases Json.nextItem?_cases hnext with ⟨-, hskip⟩ | ⟨h, -⟩ | ⟨h, -⟩
        · exact ⟨[.bool valid], .firstItem hfirst (.listEnd hskip), .valid valid⟩
        · cases h
        · cases h
      | true =>
        obtain ⟨⟨errors, following⟩, herrors, h⟩ := bind_eq_ok.mp h
        obtain ⟨last, hend, h⟩ := bind_eq_ok.mp h
        cases h
        rcases Json.nextItem?_cases hnext with ⟨h, -⟩ | ⟨-, h, -⟩ | ⟨-, -, next, hskip, rfl⟩
        · cases h
        · cases h
        · have hsecond := Json.spells_skipSpace.mp (Json.spells_of_texts herrors)
          exact ⟨[.bool valid, textList errors],
            .firstItem hfirst (.nextItem hskip (.firstItem hsecond (spells_of_endOfList hend))),
            .both valid errors⟩
    · cases h

theorem items_of_gives {trees : List Value} {verdict : Validation}
    (h : Spells (.items true) cs (.sequence trees) rest)
    (hgives : Gives (.sequence trees) verdict) :
    items cs = .ok (verdict, rest) := by
  cases hgives with
  | nothing =>
    cases h with
    | listEnd hskip =>
      rw [items, Json.nextItem?_close _ hskip]
      rfl
  | valid valid =>
    cases h with
    | firstItem hitem hothers =>
      have hvalid := (Json.bool_eq_ok_iff (Json.spells_skipSpace.mpr hitem)).mpr ⟨rfl, rfl⟩
      cases hothers with
      | listEnd hskip =>
        simp [items, Json.nextItem?_start hitem, hvalid, Json.nextItem?_close _ hskip, bind,
          Except.bind, pure, Except.pure]
  | both valid errors =>
    cases h with
    | firstItem hitem hothers =>
      have hvalid := (Json.bool_eq_ok_iff (Json.spells_skipSpace.mpr hitem)).mpr ⟨rfl, rfl⟩
      cases hothers with
      | nextItem hcomma hitems =>
        cases hitems with
        | firstItem hsecond hrest =>
          have herrors :=
            (Json.texts_eq_ok_iff (Json.spells_skipSpace.mpr hsecond)).mpr ⟨rfl, rfl⟩
          cases hrest with
          | listEnd hskip =>
            simp [items, Json.nextItem?_start hitem, hvalid, Json.nextItem?_comma hcomma hsecond,
              Json.nextItem?_start hsecond, herrors, endOfList, hskip, bind, Except.bind, pure,
              Except.pure]

/-- Reads a verdict and leaves what is behind it. -/
def verdictIn (cs : List Char) : Except Json.Failure (Validation × List Char) :=
  match skipSpace cs with
  | '{' :: rest => do
    let (found, rest) ← members (Json.stepsFor cs) true {} rest
    return (found.verdict, rest)
  | '[' :: rest => items rest
  | [] => Json.failPast (.unfinished .value) []
  | rest => .error (Json.mismatch "struct ValidationResult" rest)

theorem ofJson_eq_readWhole (text : String) : ofJson text = Json.readWhole verdictIn text := rfl

theorem verdictIn_eq_ok_iff {verdict : Validation} (h : Spells .value cs tree rest) :
    verdictIn cs = .ok (verdict, behind) ↔ Gives tree verdict ∧ rest = behind := by
  -- Only brackets lead to a verdict.
  have hother : ∀ {c inside}, skipSpace cs = c :: inside → c ≠ '{' → c ≠ '[' →
      verdictIn cs ≠ .ok (verdict, behind) := by
    intro c inside hskip hbrace hbracket hread
    unfold verdictIn at hread
    rw [hskip] at hread
    split at hread
    · rename_i hcons
      cases hcons
      exact hbrace rfl
    · rename_i hcons
      cases hcons
      exact hbracket rfl
    · cases hread
    · cases hread
  cases h with
  | object hskip hmembers =>
    have hlength := Json.length_of_skipSpace hskip
    have hread := readsMembers_of_spells hmembers _ rfl (Json.stepsFor cs)
      (by rw [Json.stepsFor]; omega) {}
    rw [gives_mapping_iff, verdictIn, hskip]
    dsimp only
    constructor
    · intro h
      obtain ⟨⟨last, following⟩, hlast, h⟩ := bind_eq_ok.mp h
      cases h
      obtain ⟨hcollects, rfl⟩ := (hread last following).mp hlast
      exact ⟨⟨last, hcollects, rfl⟩, rfl⟩
    · rintro ⟨⟨last, hcollects, rfl⟩, rfl⟩
      exact bind_eq_ok.mpr ⟨(last, rest), (hread last rest).mpr ⟨hcollects, rfl⟩, rfl⟩
  | list hskip hitems =>
    rw [verdictIn, hskip]
    dsimp only
    constructor
    · intro h
      obtain ⟨trees, hspells, hgives⟩ := spells_of_items h
      obtain ⟨hsame, rfl⟩ := hitems.unique hspells
      cases hsame
      exact ⟨hgives, rfl⟩
    · rintro ⟨hgives, rfl⟩
      exact items_of_gives hitems hgives
  | positive hskip hdigit _ =>
    refine iff_of_false (hother hskip ?_ ?_) ?_
    · rintro rfl
      cases hdigit
    · rintro rfl
      cases hdigit
    · rintro ⟨⟨⟩, -⟩
  | _ hskip =>
    refine iff_of_false (hother hskip (by decide) (by decide)) ?_
    rintro ⟨⟨⟩, -⟩

/-- A text that spells a tree is read as a verdict just if the tree gives it. -/
theorem ofJson_eq_ok_iff {text : String} {verdict : Validation} (htext : Spelled text tree) :
    ofJson text = .ok verdict ↔ Gives tree verdict := by
  obtain ⟨rest, hspells, hend⟩ := htext
  rw [ofJson_eq_readWhole, Json.readWhole_eq_ok_iff]
  constructor
  · rintro ⟨behind, hread, -⟩
    exact ((verdictIn_eq_ok_iff hspells).mp hread).1
  · intro hgives
    exact ⟨rest, (verdictIn_eq_ok_iff hspells).mpr ⟨hgives, rfl⟩, hend⟩

/-! ## Writing -/

theorem gives_toValue (verdict : Validation) : Gives verdict.toValue verdict := by
  obtain ⟨valid, errors⟩ := verdict
  have hvalid : AtMostOnce .bool "valid"
      [("valid", .bool valid), ("errors", textList errors)] (some valid) :=
    .once valid [] _ rfl (by simp)
  have herrors : AtMostOnce textList "errors"
      [("valid", .bool valid), ("errors", textList errors)] (some errors) :=
    .once errors [("valid", .bool valid)] [] rfl (by simp)
  exact .object hvalid herrors

theorem wholeNumbersItems_texts (contents : List String) :
    Value.WholeNumbersItems (contents.map .string) := by
  induction contents with
  | nil => trivial
  | cons content contents ih => exact ⟨trivial, ih⟩

theorem spelled_write (verdict : Validation) :
    Spelled (Json.write verdict.toValue) verdict.toValue :=
  Json.spelled_write ⟨trivial, wholeNumbersItems_texts verdict.errors, trivial⟩

/-! ## Verdicts of a server -/

theorem tryValidate_of_answer {client : Client} {world : World} {manifest : Manifest}
    {answer : Http.Answer} {body : String}
    (hanswer : (client.call world.network (.validation manifest)).1 = .ok answer)
    (hstatus : answer.status.isSuccess = true) (hbody : answer.text = .ok body) :
    (client.tryValidate world manifest).1 = (ofJson body).mapError .json := by
  obtain ⟨hresult, -⟩ := client.tryValidate_call world manifest
  rw [hresult, hanswer, Client.successText, Client.success, if_pos hstatus]
  dsimp only [Except.bind]
  rw [Client.answerText, hbody]
  dsimp only [Client.verdict]
  cases ofJson body with
  | ok verdict => rfl
  | error error => rfl

/-- Of the texts that spell a tree just those are read as a verdict whose tree gives it, so that
nothing is said to be valid without the literal true for it. A verdict that was written is read
back. A client gets what the text of a successful answer is read as, or the error of that text. -/
theorem verdicts_read :
    (∀ text tree, Spelled text tree → ∀ verdict, ofJson text = .ok verdict ↔ Gives tree verdict) ∧
    (∀ text tree verdict, Spelled text tree → ofJson text = .ok verdict → verdict.valid = true →
      SaysTrue tree) ∧
    (∀ verdict, ofJson (Json.write verdict.toValue) = .ok verdict) ∧
    ∀ (client : Client) (world : World) (manifest : Manifest) (answer : Http.Answer)
      (body : String), (client.call world.network (.validation manifest)).1 = .ok answer →
      answer.status.isSuccess = true → answer.text = .ok body →
      (client.tryValidate world manifest).1 = (ofJson body).mapError .json := by
  refine ⟨?_, ?_, ?_, ?_⟩
  · intro text tree htext verdict
    exact ofJson_eq_ok_iff htext
  · intro text tree verdict htext hread hvalid
    exact ((ofJson_eq_ok_iff htext).mp hread).saysTrue hvalid
  · intro verdict
    exact (ofJson_eq_ok_iff (spelled_write verdict)).mpr (gives_toValue verdict)
  · intro client world manifest answer body hanswer hstatus hbody
    exact tryValidate_of_answer hanswer hstatus hbody

/-- The members in another order, and between them one that is not known. -/
def roundabout : List (String × Value) :=
  [("errors", textList ["a", "b"]), ("seen", .sequence [.mapping [("valid", .bool true)]]),
    ("valid", .bool false)]

theorem verdicts_read_roundabout :
    let client : Client := { baseUrl := "http://localhost" }
    let body := Json.write (.mapping roundabout)
    let world : World :=
      { network :=
          { obstacle := fun _ => none
            script := [("/api/validate", [.answer 200 [] (Text.Utf8.encode body) 0])] }
        files := { entries := [], workingDirectory := [] } }
    Spelled body (.mapping roundabout) ∧ ofJson body = .ok { valid := false, errors := ["a", "b"] } ∧
      (client.tryValidate world .empty).1 = .ok { valid := false, errors := ["a", "b"] } ∧
      ¬ SaysTrue (.mapping roundabout) ∧ ofJson (Json.write passed.toValue) = .ok passed := by
  intro client body world
  obtain ⟨hgives, -, hwritten, hanswered⟩ := verdicts_read
  have hspelled : Spelled body (.mapping roundabout) :=
    Json.spelled_write (by simp [roundabout, textList, Value.WholeNumbers,
      Value.WholeNumbersEntries, Value.WholeNumbersItems])
  have hread : ofJson body = .ok { valid := false, errors := ["a", "b"] } :=
    (hgives body _ hspelled _).mpr
      (.object (.once false (roundabout.take 2) [] rfl (by simp [roundabout]))
        (.once ["a", "b"] [] (roundabout.drop 1) rfl (by simp [roundabout])))
  have hreply : ((client.call world.network (.validation .empty)).1.toOption.bind fun answer =>
      if answer.status.isSuccess then answer.text.toOption else none) = some body := by
    decide +kernel
  refine ⟨hspelled, hread, ?_, ?_, hwritten passed⟩
  · cases hcall : (client.call world.network (.validation .empty)).1 with
    | error failure =>
      rw [hcall] at hreply
      cases hreply
    | ok answer =>
      rw [hcall] at hreply
      dsimp only [Except.toOption, Option.bind] at hreply
      split at hreply
      · rename_i hstatus
        cases htext : answer.text with
        | error failure =>
          rw [htext] at hreply
          cases hreply
        | ok received =>
          rw [htext] at hreply
          cases hreply
          rw [hanswered client world .empty answer body hcall hstatus htext, hread]
          rfl
      · cases hreply
  · rintro (⟨entries, hsame, hmem⟩ | ⟨items, hsame⟩)
    · cases hsame
      simp [roundabout] at hmem
    · cases hsame

end PageManifest.Validation
