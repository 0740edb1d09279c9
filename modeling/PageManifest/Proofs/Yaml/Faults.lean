import PageManifest.Proofs.Json.Faults
import PageManifest.Proofs.Yaml.Spelling

/-!
# What is said about YAML text

A message about a document is fixed words, numbers and quoted texts, and the names of the keys
that lead to its place. These are keys of the document (`HasKey`): scalars that stand where
reading it comes to a key. So the message has no escape character if no key of the document has
one (`escapeFree_message_of_read`), whatever its other scalars are.
-/

namespace PageManifest.Yaml

open Text (EscapeFree escapeFree_append)

/-! ## Words -/

theorem escapeFree_suffix (mark : Mark) : EscapeFree mark.suffix := by
  unfold Mark.suffix
  split
  · exact .of_chars (by decide)
  · show EscapeFree (" at " ++ ("line " ++ toString (mark.line + 1) ++ " column " ++
      toString (mark.column + 1)))
    simp only [escapeFree_append]
    exact ⟨.of_chars (by decide), ⟨⟨.of_chars (by decide), Text.escapeFree_toString_nat _⟩,
      .of_chars (by decide)⟩, Text.escapeFree_toString_nat _⟩

theorem Activity.escapeFree_phrase (activity : Activity) : EscapeFree activity.phrase := by
  cases activity <;> exact .of_chars (by decide)

theorem Problem.escapeFree_phrase (problem : Problem) : EscapeFree problem.phrase := by
  cases problem <;> exact .of_chars (by decide)

theorem Malformation.escapeFree_message (malformation : Malformation) :
    EscapeFree malformation.message := by
  cases malformation with
  | forbiddenCharacter offset =>
    unfold Malformation.message
    rw [escapeFree_append]
    refine ⟨.of_chars (by decide), ?_⟩
    split
    · exact .of_chars (by decide)
    · show EscapeFree (" at position " ++ toString offset)
      rw [escapeFree_append]
      exact ⟨.of_chars (by decide), Text.escapeFree_toString_nat offset⟩
  | faulty problem mark context =>
    unfold Malformation.message
    rw [escapeFree_append, escapeFree_append]
    refine ⟨⟨problem.escapeFree_phrase, escapeFree_suffix mark⟩, ?_⟩
    split
    · exact .of_chars (by decide)
    · rename_i activity began
      rw [escapeFree_append, escapeFree_append]
      refine ⟨⟨.of_chars (by decide), activity.escapeFree_phrase⟩, ?_⟩
      split
      · exact .of_chars (by decide)
      · exact escapeFree_suffix began

theorem escapeFree_infiniteWord (x : Binary64) {infinity nan : String}
    (hinfinity : EscapeFree infinity) (hnan : EscapeFree nan) :
    EscapeFree (infiniteWord x infinity nan) := by
  unfold infiniteWord
  split
  · exact hnan
  · split
    · exact escapeFree_append.mpr ⟨.of_chars (by decide), hinfinity⟩
    · exact hinfinity

theorem escapeFree_duplicatePhrase (key : Node) : EscapeFree (duplicatePhrase key) := by
  cases key with
  | bool b =>
    show EscapeFree ("with key `" ++ toString b ++ "`")
    simp only [escapeFree_append]
    exact ⟨⟨.of_chars (by decide), Text.escapeFree_toString_bool b⟩, .of_chars (by decide)⟩
  | int n =>
    show EscapeFree ("with key " ++ toString n)
    exact escapeFree_append.mpr ⟨.of_chars (by decide), Text.escapeFree_toString_int n⟩
  | float x =>
    unfold duplicatePhrase
    rw [escapeFree_append]
    refine ⟨.of_chars (by decide), ?_⟩
    split
    · exact Text.escapeFree_write keyForm x
    · refine escapeFree_infiniteWord x ?_ ?_
      · exact .of_chars (by decide)
      · exact .of_chars (by decide)
  | string text => exact escapeFree_append.mpr ⟨.of_chars (by decide), Text.escapeFree_quote text⟩
  | _ => exact .of_chars (by decide)

theorem escapeFree_foundPhrase (found : Node) : EscapeFree (foundPhrase found) := by
  cases found with
  | bool b =>
    show EscapeFree ("boolean `" ++ toString b ++ "`")
    simp only [escapeFree_append]
    exact ⟨⟨.of_chars (by decide), Text.escapeFree_toString_bool b⟩, .of_chars (by decide)⟩
  | int n =>
    show EscapeFree ("integer `" ++ toString n ++ "`")
    simp only [escapeFree_append]
    exact ⟨⟨.of_chars (by decide), Text.escapeFree_toString_int n⟩, .of_chars (by decide)⟩
  | float x =>
    unfold foundPhrase
    simp only [escapeFree_append]
    refine ⟨⟨.of_chars (by decide), ?_⟩, .of_chars (by decide)⟩
    split
    · exact Text.escapeFree_write Decimal.pointed x
    · refine escapeFree_infiniteWord x ?_ ?_
      · exact .of_chars (by decide)
      · exact .of_chars (by decide)
  | string text => exact escapeFree_append.mpr ⟨.of_chars (by decide), Text.escapeFree_quote text⟩
  | _ => exact .of_chars (by decide)

/-- What is said about a node that does not fit has no text of its own but quoted ones. -/
def Misfit.IsFixed : Misfit → Prop
  | .badScalar _ expected => EscapeFree expected
  | _ => True

theorem Misfit.IsFixed.escapeFree {misfit : Misfit} (h : misfit.IsFixed) :
    EscapeFree misfit.phrase := by
  cases misfit with
  | duplicateKey key =>
    exact escapeFree_append.mpr ⟨.of_chars (by decide), escapeFree_duplicatePhrase key⟩
  | wideInteger n =>
    show EscapeFree ("invalid type: integer `" ++ toString n ++ "` as " ++
      toString (if n < 0 then "i128" else "u128") ++ ", expected any YAML value")
    simp only [escapeFree_append]
    refine ⟨⟨⟨⟨.of_chars (by decide), Text.escapeFree_toString_int n⟩, .of_chars (by decide)⟩, ?_⟩,
      .of_chars (by decide)⟩
    split
    · exact .of_chars (by decide)
    · exact .of_chars (by decide)
  | badScalar text expected =>
    show EscapeFree ("invalid value: string " ++ Text.Quoted.quote text ++ ", expected " ++ expected)
    simp only [escapeFree_append]
    exact ⟨⟨⟨.of_chars (by decide), Text.escapeFree_quote text⟩, .of_chars (by decide)⟩, h⟩

/-! ## Paths and errors -/

/-- The named steps of a path have a property. -/
def Path.NamesIn (P : String → Prop) (path : Path) : Prop :=
  ∀ text, PathStep.key text ∈ path → P text

theorem Path.NamesIn.cons {P : String → Prop} {step : PathStep} {path : Path}
    (hstep : ∀ text, step = .key text → P text) (hpath : path.NamesIn P) :
    Path.NamesIn P (step :: path) := by
  intro text hmem
  obtain hmem | hmem := List.mem_cons.mp hmem
  · exact hstep text hmem.symm
  · exact hpath text hmem

theorem Path.NamesIn.tail {P : String → Prop} {step : PathStep} {path : Path}
    (h : Path.NamesIn P (step :: path)) : path.NamesIn P :=
  fun text hmem => h text (List.mem_cons_of_mem step hmem)

theorem Path.NamesIn.escapeFree {path : Path} (h : path.NamesIn EscapeFree) :
    EscapeFree path.phrase := by
  have hlead : ∀ {parent : Path}, EscapeFree (Path.phrase parent) →
      EscapeFree (if parent.isEmpty then "" else Path.phrase parent ++ ".") := by
    intro parent hparent
    split
    · exact .of_chars (by decide)
    · exact escapeFree_append.mpr ⟨hparent, .of_chars (by decide)⟩
  induction path with
  | nil => exact .of_chars (by decide)
  | cons step parent ih =>
    have hparent := ih h.tail
    cases step with
    | index position =>
      show EscapeFree (Path.phrase parent ++ "[" ++ toString position ++ "]")
      simp only [escapeFree_append]
      exact ⟨⟨⟨hparent, .of_chars (by decide)⟩, Text.escapeFree_toString_nat position⟩,
        .of_chars (by decide)⟩
    | key text => exact escapeFree_append.mpr ⟨hlead hparent, h text List.mem_cons_self⟩
    | unnamed => exact escapeFree_append.mpr ⟨hlead hparent, .of_chars (by decide)⟩

/-- The message of an error has fixed words, numbers and quoted texts, and names with a
property. -/
def Error.NamesIn (P : String → Prop) : Error → Prop
  | .unfit misfit path _ => misfit.IsFixed ∧ path.NamesIn P
  | _ => True

theorem Error.NamesIn.escapeFree {error : Error} (h : error.NamesIn EscapeFree) :
    EscapeFree error.message := by
  cases error with
  | malformed malformation => exact malformation.escapeFree_message
  | unfit misfit path mark =>
    obtain ⟨hmisfit, hpath⟩ := h
    show EscapeFree ((if path.isEmpty then "" else path.phrase ++ ": ") ++ misfit.phrase ++
      mark.suffix)
    rw [escapeFree_append, escapeFree_append]
    refine ⟨⟨?_, hmisfit.escapeFree⟩, escapeFree_suffix mark⟩
    split
    · exact .of_chars (by decide)
    · exact escapeFree_append.mpr ⟨hpath.escapeFree, .of_chars (by decide)⟩
  | unknownAnchor mark =>
    exact escapeFree_append.mpr ⟨.of_chars (by decide), escapeFree_suffix mark⟩
  | tooDeep mark => exact escapeFree_append.mpr ⟨.of_chars (by decide), escapeFree_suffix mark⟩
  | badMerge fault => cases fault <;> exact .of_chars (by decide)
  | unsuitable found wanted =>
    show EscapeFree ("invalid type: " ++ foundPhrase found ++ ", expected " ++ wanted.phrase)
    simp only [escapeFree_append]
    refine ⟨⟨⟨.of_chars (by decide), escapeFree_foundPhrase found⟩, .of_chars (by decide)⟩, ?_⟩
    cases wanted <;> exact .of_chars (by decide)
  | _ => exact .of_chars (by decide)

/-! ## The keys of a document -/

/-- Reading a document comes to some parts and looks for a node, or for what is left of a
collection. What stands in front of them, if anything, spells a tree. -/
inductive Reaches (doc : Document) : Aim → List (Piece × Mark) → Prop
  | root : Reaches doc (.node false) doc.pieces
  | inTagged {pieces : List (Piece × Mark)} (h : Reaches doc (.node false) pieces) :
      Reaches doc (.node true) pieces
  | target {tagRead : Bool} {number : Nat} {mark : Mark} {rest : List (Piece × Mark)}
      (h : Reaches doc (.node tagRead) ((.alias number, mark) :: rest)) :
      Reaches doc (.node false) (doc.target number)
  | items {tagRead : Bool} {tag : Option TagText} {mark : Mark} {rest : List (Piece × Mark)}
      (h : Reaches doc (.node tagRead) ((.sequenceStart tag, mark) :: rest)) :
      Reaches doc .items rest
  | item {pieces : List (Piece × Mark)} (h : Reaches doc .items pieces) :
      Reaches doc (.node false) pieces
  | otherItems {pieces rest : List (Piece × Mark)} {item : Node} (h : Reaches doc .items pieces)
      (hitem : Spells doc (.node false) pieces item rest) : Reaches doc .items rest
  | entries {tagRead : Bool} {tag : Option TagText} {mark : Mark} {rest : List (Piece × Mark)}
      (h : Reaches doc (.node tagRead) ((.mappingStart tag, mark) :: rest)) :
      Reaches doc .entries rest
  | key {pieces : List (Piece × Mark)} (h : Reaches doc .entries pieces) :
      Reaches doc (.node false) pieces
  | value {pieces between : List (Piece × Mark)} {key : Node} (h : Reaches doc .entries pieces)
      (hkey : Spells doc (.node false) pieces key between) : Reaches doc (.node false) between
  | otherEntries {pieces between rest : List (Piece × Mark)} {key value : Node}
      (h : Reaches doc .entries pieces) (hkey : Spells doc (.node false) pieces key between)
      (hvalue : Spells doc (.node false) between value rest) : Reaches doc .entries rest

/-- A scalar of the text is in front where reading a document looks for a key. -/
def HasKey (doc : Document) (text : String) : Prop :=
  ∃ tag style mark rest, Reaches doc .entries ((.scalar tag text style, mark) :: rest)

variable {doc : Document} {tagRead : Bool} {aim : Aim} {pieces rest : List (Piece × Mark)}

theorem Spells.suffix {root : Node} (h : Spells doc aim pieces root rest) : rest <:+ pieces := by
  induction h with
  | tagged _ _ ih => exact ih
  | void | aliased | scalar | sequenceEnd | mappingEnd => exact List.suffix_cons _ _
  | sequence _ _ ih | mapping _ _ ih => exact ih.trans (List.suffix_cons _ _)
  | item _ _ ihitem ihothers => exact ihothers.trans ihitem
  | entry _ _ _ ihkey ihvalue ihothers => exact ihothers.trans (ihvalue.trans ihkey)

theorem target_suffix (doc : Document) (number : Nat) : doc.target number <:+ doc.pieces := by
  unfold Document.target
  split
  · exact List.drop_suffix _ _
  · exact List.nil_suffix

/-- Reading a document stays within it. -/
theorem Reaches.suffix (h : Reaches doc aim pieces) : pieces <:+ doc.pieces := by
  induction h with
  | root => exact List.suffix_refl _
  | inTagged _ ih | item _ ih | key _ ih => exact ih
  | target _ _ => exact target_suffix doc _
  | items _ ih | entries _ ih => exact (List.suffix_cons _ _).trans ih
  | otherItems _ hitem ih => exact hitem.suffix.trans ih
  | value _ hkey ih => exact hkey.suffix.trans ih
  | otherEntries _ hkey hvalue ih => exact hvalue.suffix.trans (hkey.suffix.trans ih)

/-- The texts of the scalars of a document, in order. -/
def Document.scalars (doc : Document) : List String :=
  doc.pieces.filterMap fun entry =>
    match entry.1 with
    | .scalar _ text _ => some text
    | _ => none

/-- The keys of a document are among its scalars. -/
theorem HasKey.mem_scalars {text : String} (h : HasKey doc text) : text ∈ doc.scalars := by
  obtain ⟨tag, style, mark, rest, hreaches⟩ := h
  exact List.mem_filterMap.mpr ⟨_, hreaches.suffix.subset List.mem_cons_self, rfl⟩

/-! ## Scalars -/

theorem isFixed_of_untaggedScalar (text : String) (style : ScalarStyle) :
    FailsWith Misfit.IsFixed (untaggedScalar text style) := by
  unfold untaggedScalar
  split
  · split
    · exact .ok _
    · exact .error (by trivial)
  · exact .ok _

theorem isFixed_of_demanded (node? : Option Node) (text : String) {expected : String}
    (hexpected : EscapeFree expected) : FailsWith Misfit.IsFixed (demanded node? text expected) := by
  unfold demanded
  split
  · exact .ok _
  · exact .error hexpected

theorem isFixed_of_scalarNode (tag : Option TagText) (text : String) (style : ScalarStyle) :
    FailsWith Misfit.IsFixed (scalarNode tag text style) := by
  unfold scalarNode
  split
  · exact isFixed_of_untaggedScalar text style
  · split_ifs
    · exact isFixed_of_demanded _ text (.of_chars (by decide))
    · split
      · exact .ok _
      · exact .error (by trivial)
      · exact .error (show EscapeFree "an integer" from .of_chars (by decide))
    · exact isFixed_of_demanded _ text (.of_chars (by decide))
    · exact isFixed_of_demanded _ text (.of_chars (by decide))
    · exact isFixed_of_demanded _ text (.of_chars (by decide))
    · exact isFixed_of_untaggedScalar text style
    · exact .ok _

theorem isFixed_of_scalar {tag : Option TagText} {text : String} {style : ScalarStyle}
    {misfit : Misfit}
    (h : (if tagRead then untaggedScalar text style else scalarNode tag text style) =
      .error misfit) : misfit.IsFixed := by
  split at h
  · exact (h ▸ isFixed_of_untaggedScalar text style).of_error
  · exact (h ▸ isFixed_of_scalarNode tag text style).of_error

/-! ## Trees -/

/-- An error names keys of the document only. -/
abbrev NamesKeys {α : Type} (doc : Document) (result : Except Error α) : Prop :=
  FailsWith (Error.NamesIn (HasKey doc)) result

/-- What is wrong with a document beyond its parts names no key. -/
def NamelessFault (doc : Document) : Prop :=
  ∀ error, doc.fault = some error → error.NamesIn (HasKey doc)

theorem NamelessFault.missing {α : Type} (h : NamelessFault doc) :
    NamesKeys doc (.error doc.missing : Except Error α) := by
  refine .error ?_
  unfold Document.missing
  cases hfault : doc.fault with
  | none => trivial
  | some error => exact h error hfault

/-- With so many steps the builders name keys only, on parts that reading comes to. -/
structure BuildsNaming (doc : Document) (fuel : Nat) : Prop where
  node : ∀ {depth path tagRead pieces aliases}, Reaches doc (.node tagRead) pieces →
    path.NamesIn (HasKey doc) → NamesKeys doc (doc.node fuel depth path tagRead pieces aliases)
  items : ∀ {depth path index pieces aliases}, Reaches doc .items pieces →
    path.NamesIn (HasKey doc) → NamesKeys doc (doc.items fuel depth path index pieces aliases)
  entries : ∀ {depth path began present pieces aliases}, Reaches doc .entries pieces →
    path.NamesIn (HasKey doc) →
      NamesKeys doc (doc.entries fuel depth path began present pieces aliases)

section Building

variable {fuel depth aliases : Nat} {path : Path}

theorem namesKeys_node (hfault : NamelessFault doc) (ih : BuildsNaming doc fuel)
    (h : Reaches doc (.node tagRead) pieces) (hpath : path.NamesIn (HasKey doc)) :
    NamesKeys doc (doc.node (fuel + 1) depth path tagRead pieces aliases) := by
  unfold Document.node
  split
  · exact hfault.missing
  · rename_i piece mark rest
    dsimp only
    split
    · exact .bind (ih.node (.inTagged h) hpath) fun _ _ => .ok _
    · rcases piece with _ | number | ⟨tag, text, style⟩ | tag | _ | tag | _
      · exact .ok _
      · dsimp only
        split
        · exact .error (by trivial)
        · exact .bind (ih.node (.target h) hpath) fun _ _ => .ok _
      · dsimp only
        split
        · exact .ok _
        · rename_i misfit hmisfit
          exact .error ⟨isFixed_of_scalar hmisfit, hpath⟩
      · cases depth with
        | zero => exact .error (by trivial)
        | succ depth => exact .bind (ih.items (.items h) hpath) fun _ _ => .ok _
      · exact hfault.missing
      · cases depth with
        | zero => exact .error (by trivial)
        | succ depth => exact .bind (ih.entries (.entries h) hpath) fun _ _ => .ok _
      · exact hfault.missing

theorem namesKeys_items (hfault : NamelessFault doc) (ih : BuildsNaming doc fuel) {index : Nat}
    (h : Reaches doc .items pieces) (hpath : path.NamesIn (HasKey doc)) :
    NamesKeys doc (doc.items (fuel + 1) depth path index pieces aliases) := by
  unfold Document.items
  split
  · exact hfault.missing
  · exact .ok _
  · have hindexed : Path.NamesIn (HasKey doc) (.index index :: path) :=
      .cons (by rintro text ⟨⟩) hpath
    refine .bind (ih.node (.item h) hindexed) ?_
    rintro ⟨item, rest, count⟩ hitem
    have hspells := ((buildsSpelled doc fuel).node hitem).1
    exact .bind (ih.items (.otherItems h hspells) hpath) fun _ _ => .ok _

theorem namesKeys_entries (hfault : NamelessFault doc) (ih : BuildsNaming doc fuel) {began : Mark}
    {present : List (Node × Node)} (h : Reaches doc .entries pieces)
    (hpath : path.NamesIn (HasKey doc)) :
    NamesKeys doc (doc.entries (fuel + 1) depth path began present pieces aliases) := by
  unfold Document.entries
  split
  · exact hfault.missing
  · exact .ok _
  · rename_i first mark rest _
    refine .bind (ih.node (.key h) hpath) ?_
    rintro ⟨key, between, count⟩ hkey
    have hkey := ((buildsSpelled doc fuel).node hkey).1
    dsimp only
    split
    · exact .error ⟨trivial, hpath⟩
    · have hnamed : Path.NamesIn (HasKey doc) (Document.keyStep first :: path) := by
        refine .cons ?_ hpath
        rintro text hstep
        cases first with
        | scalar tag other style =>
          cases hstep
          exact ⟨tag, style, mark, rest, h⟩
        | _ => cases hstep
      refine .bind (ih.node (.value h hkey) hnamed) ?_
      rintro ⟨value, behind, count⟩ hvalue
      have hvalue := ((buildsSpelled doc fuel).node hvalue).1
      exact ih.entries (.otherEntries h hkey hvalue) hpath

theorem buildsNaming (hfault : NamelessFault doc) (fuel : Nat) : BuildsNaming doc fuel := by
  induction fuel with
  | zero =>
    refine ⟨?_, ?_, ?_⟩
    · intro depth path tagRead pieces aliases _ _
      rw [Document.node]
      exact hfault.missing
    · intro depth path index pieces aliases _ _
      rw [Document.items]
      exact hfault.missing
    · intro depth path began present pieces aliases _ _
      rw [Document.entries]
      exact hfault.missing
  | succ fuel ih =>
    exact ⟨namesKeys_node hfault ih, namesKeys_items hfault ih, namesKeys_entries hfault ih⟩

end Building

theorem namesKeys_build (hfault : NamelessFault doc) : NamesKeys doc doc.build := by
  unfold Document.build
  refine .bind ((buildsNaming hfault _).node .root fun _ => by simp) ?_
  rintro ⟨root, rest, count⟩ -
  dsimp only
  split
  · rename_i error herror
    exact .error (hfault error herror)
  · split
    · exact .ok root
    · exact .error (by trivial)

/-- What is wrong behind the parts of a document is its form or an anchor. -/
theorem namesIn_fault_collect (P : String → Prop) (fuel : Nat) (c : Collector) (g : Grammar)
    {error : Error} (h : (collect fuel c g).fault = some error) : error.NamesIn P := by
  induction fuel generalizing c g with
  | zero => cases h
  | succ fuel ih =>
    unfold collect at h
    repeat' split at h
    all_goals first
      | exact ih _ _ h
      | cases h
    all_goals trivial

theorem namelessFault_load (text : String) : NamelessFault (load text) :=
  fun _ h => namesIn_fault_collect _ _ _ _ h

/-! ## Values -/

/-- An error names nothing, whatever the names should be. -/
abbrev NamesNothing {α : Type} (result : Except Error α) : Prop :=
  FailsWith (fun error => ∀ P, error.NamesIn P) result

mutual

theorem namesNothing_toValue (node : Node) : NamesNothing node.toValue := by
  match node with
  | .null | .bool _ | .int _ | .float _ | .string _ => exact .ok _
  | .sequence items => exact .bind (namesNothing_toItems items) fun _ _ => .ok _
  | .mapping entries => exact .bind (namesNothing_toEntries .firstKey entries) fun _ _ => .ok _
  | .tagged _ _ => exact .error fun _ => trivial

theorem namesNothing_toItems (items : List Node) : NamesNothing (Node.toItems items) := by
  match items with
  | [] => exact .ok _
  | item :: items =>
    exact .bind (namesNothing_toValue item) fun _ _ =>
      .bind (namesNothing_toItems items) fun _ _ => .ok _

theorem namesNothing_toEntries (wanted : Wanted) (entries : List (Node × Node)) :
    NamesNothing (Node.toEntries wanted entries) := by
  match entries with
  | [] => exact .ok _
  | (key, item) :: entries =>
    have hkey : NamesNothing (keyText wanted key) := by
      unfold keyText
      split
      · exact .ok _
      · exact .error fun _ => trivial
    exact .bind hkey fun _ _ => .bind (namesNothing_toValue item) fun _ _ =>
      .bind (namesNothing_toEntries .key entries) fun _ _ => .ok _

end

theorem namesKeys_read (text : String) : NamesKeys (load text) (read text) := by
  unfold read
  refine .bind (namesKeys_build (namelessFault_load text)) fun node _ => ?_
  split
  · exact (namesNothing_toValue _).mono fun _ h => h _
  · exact .error (by trivial)

/-- What is said about a text has no escape character if no key of its document has one. -/
theorem escapeFree_message_of_read {text : String}
    (hkeys : ∀ key, HasKey (load text) key → EscapeFree key) :
    FailsWith (fun error => EscapeFree error.message) (read text) := by
  refine (namesKeys_read text).mono fun error h => Error.NamesIn.escapeFree ?_
  cases error with
  | unfit misfit path mark => exact ⟨h.1, fun key hkey => hkeys key (h.2 key hkey)⟩
  | _ => trivial

end PageManifest.Yaml
