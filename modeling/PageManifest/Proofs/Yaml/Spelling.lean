import Mathlib.Tactic.SplitIfs
import PageManifest.Proofs.Json.Lengths
import PageManifest.Proofs.Value.Keys
import PageManifest.Proofs.Yaml.Trees

/-!
# What YAML text spells

The parts of a document spell a tree in which a key may stand more than once (`Spells`), and
they spell no other one (`Spells.unique`). A document is built as the tree that it spells, and
only if no mapping in it has the same key twice (`spells_of_build`). What is read from it has
distinct keys (`distinctKeys_of_read`).
-/

namespace PageManifest.Yaml

/-! ## Repeated keys -/

/-- A mapping within a tree, be it in a key, has the same key twice. -/
inductive Node.RepeatsKey : Node → Prop
  | here {entries : List (Node × Node)} {first later : Node}
      (hkeys : [first, later].Sublist (OrderedMap.keys entries)) (hsame : (first == later) = true) :
      RepeatsKey (.mapping entries)
  | inItem {items : List Node} {item : Node} (hmem : item ∈ items) (h : item.RepeatsKey) :
      RepeatsKey (.sequence items)
  | inKey {entries : List (Node × Node)} {entry : Node × Node} (hmem : entry ∈ entries)
      (h : entry.1.RepeatsKey) : RepeatsKey (.mapping entries)
  | inValue {entries : List (Node × Node)} {entry : Node × Node} (hmem : entry ∈ entries)
      (h : entry.2.RepeatsKey) : RepeatsKey (.mapping entries)
  | inTagged {tag : String} {node : Node} (h : node.RepeatsKey) : RepeatsKey (.tagged tag node)

/-- No two entries have the same key, and neither does any mapping within their keys and
values. -/
structure KeysDiffer (entries : List (Node × Node)) : Prop where
  here : (OrderedMap.keys entries).Pairwise fun first later => (first == later) = false
  inKeys : ∀ entry ∈ entries, ¬ entry.1.RepeatsKey
  inValues : ∀ entry ∈ entries, ¬ entry.2.RepeatsKey

theorem KeysDiffer.nil : KeysDiffer [] := ⟨List.Pairwise.nil, by simp, by simp⟩

theorem not_same_of_not_hasKey {entries : List (Node × Node)} {key : Node}
    (h : OrderedMap.hasKey entries key = false) :
    ∀ other ∈ OrderedMap.keys entries, (other == key) = false := by
  induction entries with
  | nil => simp
  | cons entry entries ih =>
    obtain ⟨other, item⟩ := entry
    rw [OrderedMap.hasKey, OrderedMap.get?_cons] at h
    split at h
    · cases h
    · rename_i hne
      rw [OrderedMap.keys_cons, List.forall_mem_cons]
      exact ⟨Bool.eq_false_iff.mpr hne, ih h⟩

theorem KeysDiffer.concat {entries : List (Node × Node)} {key value : Node}
    (h : KeysDiffer entries) (hnew : OrderedMap.hasKey entries key = false)
    (hkey : ¬ key.RepeatsKey) (hvalue : ¬ value.RepeatsKey) :
    KeysDiffer (entries ++ [(key, value)]) := by
  refine ⟨?_, ?_, ?_⟩
  · rw [OrderedMap.keys, List.map_append, List.pairwise_append]
    refine ⟨h.here, List.pairwise_singleton _ _, ?_⟩
    intro other hother last hlast
    cases List.mem_singleton.mp hlast
    exact not_same_of_not_hasKey hnew other hother
  · rw [List.forall_mem_append, List.forall_mem_singleton]
    exact ⟨h.inKeys, hkey⟩
  · rw [List.forall_mem_append, List.forall_mem_singleton]
    exact ⟨h.inValues, hvalue⟩

theorem not_repeatsKey_mapping {entries : List (Node × Node)} (h : KeysDiffer entries) :
    ¬ (Node.mapping entries).RepeatsKey := by
  intro hrepeats
  cases hrepeats with
  | here hkeys hsame =>
    have hdiffer := List.pairwise_iff_forall_sublist.mp h.here hkeys
    cases hsame.symm.trans hdiffer
  | inKey hmem hkey => exact h.inKeys _ hmem hkey
  | inValue hmem hvalue => exact h.inValues _ hmem hvalue

theorem not_repeatsKey_sequence {items : List Node} (h : ∀ item ∈ items, ¬ item.RepeatsKey) :
    ¬ (Node.sequence items).RepeatsKey := by
  intro hrepeats
  cases hrepeats with
  | inItem hmem hitem => exact h _ hmem hitem

/-! ## The tree of some parts -/

/-- What some parts may spell: a node, whose tag may have been read, or what is left of a sequence
or of a mapping. -/
inductive Aim where
  | node (tagRead : Bool)
  | items
  | entries

/-- The tag of its own that the node of a part has. -/
def Piece.tag? : Piece → Option String
  | .scalar tag _ _ | .sequenceStart tag | .mappingStart tag => ownTag? tag
  | _ => none

variable {doc : Document} {aim : Aim} {tagRead : Bool} {mark : Mark}
  {pieces rest behind : List (Piece × Mark)} {root : Node}

/-- Some parts of a document spell a tree and leave others behind it. What is left of a
collection is spelled as the collection that it makes. -/
inductive Spells (doc : Document) :
    Aim → List (Piece × Mark) → Node → List (Piece × Mark) → Prop
  | tagged {piece : Piece} {mark : Mark} {rest behind : List (Piece × Mark)} {tag : String}
      {inner : Node} (htag : piece.tag? = some tag)
      (hinner : Spells doc (.node true) ((piece, mark) :: rest) inner behind) :
      Spells doc (.node false) ((piece, mark) :: rest) (.tagged tag inner) behind
  | void {tagRead : Bool} {mark : Mark} {rest : List (Piece × Mark)} :
      Spells doc (.node tagRead) ((.void, mark) :: rest) .null rest
  | aliased {tagRead : Bool} {number : Nat} {mark : Mark} {rest behind : List (Piece × Mark)}
      {inner : Node} (hinner : Spells doc (.node false) (doc.target number) inner behind) :
      Spells doc (.node tagRead) ((.alias number, mark) :: rest) inner rest
  | scalar {tagRead : Bool} {tag : Option TagText} {text : String} {style : ScalarStyle}
      {mark : Mark} {rest : List (Piece × Mark)} {inner : Node}
      (htag : ownTag? tag = none ∨ tagRead = true)
      (hinner : (if tagRead then untaggedScalar text style else scalarNode tag text style) =
        .ok inner) :
      Spells doc (.node tagRead) ((.scalar tag text style, mark) :: rest) inner rest
  | sequence {tagRead : Bool} {tag : Option TagText} {mark : Mark}
      {rest behind : List (Piece × Mark)} {items : List Node}
      (htag : ownTag? tag = none ∨ tagRead = true)
      (hitems : Spells doc .items rest (.sequence items) behind) :
      Spells doc (.node tagRead) ((.sequenceStart tag, mark) :: rest) (.sequence items) behind
  | mapping {tagRead : Bool} {tag : Option TagText} {mark : Mark}
      {rest behind : List (Piece × Mark)} {entries : List (Node × Node)}
      (htag : ownTag? tag = none ∨ tagRead = true)
      (hentries : Spells doc .entries rest (.mapping entries) behind) :
      Spells doc (.node tagRead) ((.mappingStart tag, mark) :: rest) (.mapping entries) behind
  | sequenceEnd {mark : Mark} {rest : List (Piece × Mark)} :
      Spells doc .items ((.sequenceEnd, mark) :: rest) (.sequence []) rest
  | item {pieces rest behind : List (Piece × Mark)} {item : Node} {items : List Node}
      (hitem : Spells doc (.node false) pieces item rest)
      (hothers : Spells doc .items rest (.sequence items) behind) :
      Spells doc .items pieces (.sequence (item :: items)) behind
  | mappingEnd {mark : Mark} {rest : List (Piece × Mark)} :
      Spells doc .entries ((.mappingEnd, mark) :: rest) (.mapping []) rest
  | entry {pieces between rest behind : List (Piece × Mark)} {key value : Node}
      {entries : List (Node × Node)} (hkey : Spells doc (.node false) pieces key between)
      (hvalue : Spells doc (.node false) between value rest)
      (hothers : Spells doc .entries rest (.mapping entries) behind) :
      Spells doc .entries pieces (.mapping ((key, value) :: entries)) behind

/-- Some parts spell one tree only. -/
theorem Spells.unique {other : Node} {after : List (Piece × Mark)}
    (h : Spells doc aim pieces root rest) (hother : Spells doc aim pieces other after) :
    root = other ∧ rest = after := by
  induction h generalizing other after with
  | tagged htag _ ih =>
    cases hother with
    | tagged htag' hinner =>
      obtain ⟨rfl, rfl⟩ := ih hinner
      cases htag.symm.trans htag'
      exact ⟨rfl, rfl⟩
    | void | aliased => cases htag
    | scalar htag' | sequence htag' | mapping htag' =>
      rcases htag' with hnone | ⟨⟨⟩⟩
      cases htag.symm.trans hnone
  | void =>
    cases hother with
    | tagged htag => cases htag
    | void => exact ⟨rfl, rfl⟩
  | aliased _ ih =>
    cases hother with
    | tagged htag => cases htag
    | aliased hinner => exact ⟨(ih hinner).1, rfl⟩
  | scalar htag hinner =>
    cases hother with
    | tagged htag' =>
      rcases htag with hnone | ⟨⟨⟩⟩
      cases hnone.symm.trans htag'
    | scalar _ hinner' =>
      cases hinner.symm.trans hinner'
      exact ⟨rfl, rfl⟩
  | sequence htag _ ih =>
    cases hother with
    | tagged htag' =>
      rcases htag with hnone | ⟨⟨⟩⟩
      cases hnone.symm.trans htag'
    | sequence _ hitems => exact ih hitems
  | mapping htag _ ih =>
    cases hother with
    | tagged htag' =>
      rcases htag with hnone | ⟨⟨⟩⟩
      cases hnone.symm.trans htag'
    | mapping _ hentries => exact ih hentries
  | sequenceEnd =>
    cases hother with
    | sequenceEnd => exact ⟨rfl, rfl⟩
    | item hitem => cases hitem with | tagged htag => cases htag
  | item hitem _ ihitem ihothers =>
    cases hother with
    | sequenceEnd => cases hitem with | tagged htag => cases htag
    | item hitem' hothers =>
      obtain ⟨rfl, rfl⟩ := ihitem hitem'
      obtain ⟨hsame, rfl⟩ := ihothers hothers
      cases hsame
      exact ⟨rfl, rfl⟩
  | mappingEnd =>
    cases hother with
    | mappingEnd => exact ⟨rfl, rfl⟩
    | entry hkey => cases hkey with | tagged htag => cases htag
  | entry hkey _ _ ihkey ihvalue ihothers =>
    cases hother with
    | mappingEnd => cases hkey with | tagged htag => cases htag
    | entry hkey' hvalue hothers =>
      obtain ⟨rfl, rfl⟩ := ihkey hkey'
      obtain ⟨rfl, rfl⟩ := ihvalue hvalue
      obtain ⟨hsame, rfl⟩ := ihothers hothers
      cases hsame
      exact ⟨rfl, rfl⟩

/-! ## What is built is spelled -/

section Building

variable {fuel depth aliases count : Nat} {path : Path}

theorem not_repeatsKey_of_resolvePlain {text : String} (h : resolvePlain text = .ok root) :
    ¬ root.RepeatsKey := by
  unfold resolvePlain at h
  repeat' split at h
  all_goals
    cases h
    try rintro ⟨⟩

theorem not_repeatsKey_of_untaggedScalar {text : String} {style : ScalarStyle}
    (h : untaggedScalar text style = .ok root) : ¬ root.RepeatsKey := by
  unfold untaggedScalar at h
  split at h
  · split at h
    · rename_i hplain
      cases h
      exact not_repeatsKey_of_resolvePlain hplain
    · cases h
  · cases h
    rintro ⟨⟩

theorem eq_of_demanded {node? : Option Node} {text expected : String}
    (h : demanded node? text expected = .ok root) : node? = some root := by
  unfold demanded at h
  split at h
  · cases h
    rfl
  · cases h

/-- A scalar is no mapping and holds none. -/
theorem not_repeatsKey_of_scalarNode {tag : Option TagText} {text : String} {style : ScalarStyle}
    (h : scalarNode tag text style = .ok root) : ¬ root.RepeatsKey := by
  unfold scalarNode at h
  split at h
  · exact not_repeatsKey_of_untaggedScalar h
  · split_ifs at h
    · obtain ⟨b, -, rfl⟩ := Option.map_eq_some_iff.mp (eq_of_demanded h)
      rintro ⟨⟩
    · split at h
      · cases h
        rintro ⟨⟩
      · cases h
      · cases h
    · obtain ⟨x, -, rfl⟩ := Option.map_eq_some_iff.mp (eq_of_demanded h)
      rintro ⟨⟩
    · cases eq_of_demanded h
      rintro ⟨⟩
    · cases eq_of_demanded h
    · exact not_repeatsKey_of_untaggedScalar h
    · cases h
      rintro ⟨⟩

/-- What the builders with so many steps build is spelled by the parts, and no mapping in it has
the same key twice. -/
structure BuildsSpelled (doc : Document) (fuel : Nat) : Prop where
  node : ∀ {depth path tagRead pieces aliases root rest count},
    doc.node fuel depth path tagRead pieces aliases = .ok (root, rest, count) →
      Spells doc (.node tagRead) pieces root rest ∧ ¬ root.RepeatsKey
  items : ∀ {depth path index pieces aliases items rest count},
    doc.items fuel depth path index pieces aliases = .ok (items, rest, count) →
      Spells doc .items pieces (.sequence items) rest ∧ ∀ item ∈ items, ¬ item.RepeatsKey
  entries : ∀ {depth path began present pieces aliases entries rest count},
    doc.entries fuel depth path began present pieces aliases = .ok (entries, rest, count) →
      KeysDiffer present → ∃ others, entries = present ++ others ∧
        Spells doc .entries pieces (.mapping others) rest ∧ KeysDiffer entries

theorem none_or_read {tag? : Option String}
    (h : ∀ tag, tag? = some tag → tagRead = false → False) : tag? = none ∨ tagRead = true := by
  cases tag? with
  | none => exact Or.inl rfl
  | some tag => exact Or.inr (Bool.of_not_eq_false (h tag rfl))

theorem spells_of_node (ih : BuildsSpelled doc fuel)
    (h : doc.node (fuel + 1) depth path tagRead pieces aliases = .ok (root, rest, count)) :
    Spells doc (.node tagRead) pieces root rest ∧ ¬ root.RepeatsKey := by
  unfold Document.node at h
  split at h
  · cases h
  · rename_i piece mark behind
    dsimp only at h
    split at h
    · rename_i tag htag
      obtain ⟨⟨inner, left, counted⟩, hinner, h⟩ := bind_eq_ok.mp h
      cases h
      obtain ⟨hspells, hdiffer⟩ := ih.node hinner
      refine ⟨.tagged ?_ hspells, ?_⟩
      · cases piece <;> exact htag
      · intro hrepeats
        cases hrepeats with
        | inTagged hinner => exact hdiffer hinner
    · rename_i htag
      -- Nothing, an alias, a scalar, and the starts and ends of collections: no node starts
      -- with an end.
      rcases piece with _ | number | ⟨tag, text, style⟩ | tag | _ | tag | _
      · cases h
        exact ⟨.void, by rintro ⟨⟩⟩
      · dsimp only at h
        split at h
        · cases h
        · obtain ⟨⟨inner, left, counted⟩, hinner, h⟩ := bind_eq_ok.mp h
          cases h
          obtain ⟨hspells, hdiffer⟩ := ih.node hinner
          exact ⟨.aliased hspells, hdiffer⟩
      · dsimp only at h
        split at h
        · rename_i hscalar
          cases h
          refine ⟨.scalar (none_or_read htag) hscalar, ?_⟩
          split at hscalar
          · exact not_repeatsKey_of_untaggedScalar hscalar
          · exact not_repeatsKey_of_scalarNode hscalar
        · cases h
      · cases depth with
        | zero => cases h
        | succ depth =>
          obtain ⟨⟨items, left, counted⟩, hitems, h⟩ := bind_eq_ok.mp h
          cases h
          obtain ⟨hspells, hdiffer⟩ := ih.items hitems
          exact ⟨.sequence (none_or_read htag) hspells, not_repeatsKey_sequence hdiffer⟩
      · cases h
      · cases depth with
        | zero => cases h
        | succ depth =>
          obtain ⟨⟨entries, left, counted⟩, hentries, h⟩ := bind_eq_ok.mp h
          cases h
          obtain ⟨others, rfl, hspells, hdiffer⟩ := ih.entries hentries .nil
          exact ⟨.mapping (none_or_read htag) hspells, not_repeatsKey_mapping hdiffer⟩
      · cases h

theorem spells_of_items (ih : BuildsSpelled doc fuel) {index : Nat} {items : List Node}
    (h : doc.items (fuel + 1) depth path index pieces aliases = .ok (items, rest, count)) :
    Spells doc .items pieces (.sequence items) rest ∧ ∀ item ∈ items, ¬ item.RepeatsKey := by
  unfold Document.items at h
  split at h
  · cases h
  · cases h
    exact ⟨.sequenceEnd, by simp⟩
  · obtain ⟨⟨item, between, counted⟩, hitem, h⟩ := bind_eq_ok.mp h
    obtain ⟨⟨others, behind, counted'⟩, hothers, h⟩ := bind_eq_ok.mp h
    cases h
    obtain ⟨hspells, hdiffer⟩ := ih.node hitem
    obtain ⟨hspells', hdiffer'⟩ := ih.items hothers
    exact ⟨.item hspells hspells', List.forall_mem_cons.mpr ⟨hdiffer, hdiffer'⟩⟩

theorem spells_of_entries (ih : BuildsSpelled doc fuel) {began : Mark}
    {present entries : List (Node × Node)}
    (h : doc.entries (fuel + 1) depth path began present pieces aliases =
      .ok (entries, rest, count)) (hpresent : KeysDiffer present) :
    ∃ others, entries = present ++ others ∧ Spells doc .entries pieces (.mapping others) rest ∧
      KeysDiffer entries := by
  unfold Document.entries at h
  split at h
  · cases h
  · cases h
    exact ⟨[], (List.append_nil _).symm, .mappingEnd, hpresent⟩
  · obtain ⟨⟨key, between, counted⟩, hkey, h⟩ := bind_eq_ok.mp h
    dsimp only at h
    split at h
    · cases h
    · rename_i hnew
      obtain ⟨⟨value, behind, counted'⟩, hvalue, h⟩ := bind_eq_ok.mp h
      obtain ⟨hspells, hkey⟩ := ih.node hkey
      obtain ⟨hspells', hvalue⟩ := ih.node hvalue
      have hdiffer := hpresent.concat (by simpa using hnew) hkey hvalue
      obtain ⟨others, rfl, hothers, hdiffer'⟩ := ih.entries h hdiffer
      refine ⟨(key, value) :: others, ?_, .entry hspells hspells' hothers, hdiffer'⟩
      rw [List.append_assoc, List.singleton_append]

theorem buildsSpelled (doc : Document) (fuel : Nat) : BuildsSpelled doc fuel := by
  induction fuel with
  | zero =>
    refine ⟨?_, ?_, ?_⟩
    · intro depth path tagRead pieces aliases root rest count h
      rw [Document.node] at h
      cases h
    · intro depth path index pieces aliases items rest count h
      rw [Document.items] at h
      cases h
    · intro depth path began present pieces aliases entries rest count h
      rw [Document.entries] at h
      cases h
  | succ fuel ih => exact ⟨spells_of_node ih, spells_of_items ih, spells_of_entries ih⟩

end Building

/-- The tree that a document is built as is the one that its parts spell, no mapping in it has
the same key twice, and there is nothing else behind it. -/
theorem spells_of_build (h : doc.build = .ok root) :
    doc.fault = none ∧ doc.alone = true ∧
      (∃ rest, Spells doc (.node false) doc.pieces root rest) ∧ ¬ root.RepeatsKey := by
  unfold Document.build at h
  obtain ⟨⟨built, rest, count⟩, hbuilt, h⟩ := bind_eq_ok.mp h
  obtain ⟨hspells, hdiffer⟩ := (buildsSpelled doc _).node hbuilt
  dsimp only at h
  split at h
  · cases h
  · rename_i hfault
    split at h
    · rename_i halone
      cases h
      exact ⟨hfault, halone, ⟨rest, hspells⟩, hdiffer⟩
    · cases h

/-! ## Whole texts -/

deriving instance DecidableEq for Piece

/-- A text spells a tree: the parts of its first document do. -/
def Spelled (text : String) (root : Node) : Prop :=
  ∃ rest, Spells (load text) (.node false) (load text).pieces root rest

theorem Spelled.unique {text : String} {other : Node} (h : Spelled text root)
    (hother : Spelled text other) : root = other := by
  obtain ⟨rest, h⟩ := h
  obtain ⟨behind, hother⟩ := hother
  exact (h.unique hother).1

/-! ## The texts of values -/

mutual

/-- The parts of a tree of values spell it, be it with repeated keys. -/
theorem spells_value (v : Value) (hwhole : v.WholeNumbers) {pieces : List (Piece × Mark)}
    {after : List Piece} (h : pieces.map Prod.fst = valuePieces v ++ after) :
    ∃ rest, rest.map Prod.fst = after ∧ Spells doc (.node false) pieces (valueNode v) rest := by
  match v with
  | .null | .bool true | .bool false | .string _ =>
    obtain ⟨mark, rest, rfl, hrest⟩ := exists_piece h
    exact ⟨rest, hrest, .scalar (Or.inl rfl) rfl⟩
  | .number (.float _) => exact hwhole.elim
  | .number (.int n) =>
    obtain ⟨mark, rest, rfl, hrest⟩ := exists_piece h
    have hscalar : untaggedScalar (String.ofList (Json.intText n)) .plain = .ok (.int n) := by
      rw [untaggedScalar, if_pos rfl, resolvePlain_intText hwhole]
    exact ⟨rest, hrest, .scalar (Or.inl rfl) hscalar⟩
  | .sequence items =>
    rw [valuePieces, List.cons_append, List.append_assoc] at h
    obtain ⟨mark, inside, rfl, hinside⟩ := exists_piece h
    obtain ⟨rest, hrest, hitems⟩ := spells_itemsPieces items hwhole hinside
    exact ⟨rest, hrest, .sequence (Or.inl rfl) hitems⟩
  | .mapping entries =>
    rw [valuePieces, List.cons_append, List.append_assoc] at h
    obtain ⟨mark, inside, rfl, hinside⟩ := exists_piece h
    obtain ⟨rest, hrest, hentries⟩ := spells_entriesPieces entries hwhole hinside
    exact ⟨rest, hrest, .mapping (Or.inl rfl) hentries⟩

theorem spells_itemsPieces (items : List Value) (hwhole : Value.WholeNumbersItems items)
    {pieces : List (Piece × Mark)} {after : List Piece}
    (h : pieces.map Prod.fst = itemsPieces items ++ ([.sequenceEnd] ++ after)) :
    ∃ rest, rest.map Prod.fst = after ∧
      Spells doc .items pieces (.sequence (itemsNodes items)) rest := by
  match items with
  | [] =>
    obtain ⟨mark, rest, rfl, hrest⟩ := exists_piece h
    exact ⟨rest, hrest, .sequenceEnd⟩
  | item :: items =>
    rw [itemsPieces, List.append_assoc] at h
    obtain ⟨behind, hbehind, hitem⟩ := spells_value item hwhole.1 h
    obtain ⟨rest, hrest, hothers⟩ := spells_itemsPieces items hwhole.2 hbehind
    exact ⟨rest, hrest, .item hitem hothers⟩

theorem spells_entriesPieces (entries : List (String × Value))
    (hwhole : Value.WholeNumbersEntries entries) {pieces : List (Piece × Mark)}
    {after : List Piece}
    (h : pieces.map Prod.fst = entriesPieces entries ++ ([.mappingEnd] ++ after)) :
    ∃ rest, rest.map Prod.fst = after ∧
      Spells doc .entries pieces (.mapping (entriesNodes entries)) rest := by
  match entries with
  | [] =>
    obtain ⟨mark, rest, rfl, hrest⟩ := exists_piece h
    exact ⟨rest, hrest, .mappingEnd⟩
  | (key, item) :: entries =>
    rw [entriesPieces, List.cons_append, List.append_assoc] at h
    obtain ⟨mark, between, rfl, hbetween⟩ := exists_piece h
    obtain ⟨behind, hbehind, hitem⟩ := spells_value item hwhole.1 hbetween
    obtain ⟨rest, hrest, hothers⟩ := spells_entriesPieces entries hwhole.2 hbehind
    exact ⟨rest, hrest, .entry (.scalar (Or.inl rfl) rfl) hitem hothers⟩

end

/-- The JSON text of a mapping is a YAML text that spells its tree. -/
theorem spelled_write {entries : List (String × Value)}
    (hwhole : Value.WholeNumbersEntries entries)
    (htexts : Value.EveryTextEntries IsSharedText entries)
    (hkeys : Value.EveryKeyEntries IsNearKey entries) :
    Spelled (Json.write (.mapping entries)) (valueNode (.mapping entries)) := by
  obtain ⟨pieces, hload, hpieces⟩ := load_write hwhole htexts hkeys
  obtain ⟨rest, -, hspells⟩ := spells_value (.mapping entries) hwhole
    (hpieces.trans (List.append_nil _).symm)
  exact ⟨rest, by rw [hload]; exact hspells⟩

/-! ## What is read -/

/-- What is read is one document that spells a tree without a repeated key. -/
theorem spelled_of_read {text : String} {v : Value} (h : read text = .ok v) :
    (load text).fault = none ∧ (load text).alone = true ∧
      ∃ root, Spelled text root ∧ ¬ root.RepeatsKey := by
  obtain ⟨root, hroot, -⟩ := bind_eq_ok.mp h
  obtain ⟨hfault, halone, hspells, hdiffer⟩ := spells_of_build hroot
  exact ⟨hfault, halone, root, hspells, hdiffer⟩

mutual

theorem distinctKeys_of_toValue (node : Node) {v : Value} (h : node.toValue = .ok v) :
    v.DistinctKeys := by
  match node with
  | .null | .bool _ | .int _ | .string _ =>
    cases h
    exact trivial
  | .float x =>
    cases h
    split
    · exact trivial
    · exact trivial
  | .sequence items =>
    obtain ⟨values, hvalues, h⟩ := bind_eq_ok.mp h
    cases h
    exact distinctKeys_of_toItems items hvalues
  | .mapping entries =>
    obtain ⟨values, hvalues, h⟩ := bind_eq_ok.mp h
    cases h
    exact Value.distinctKeys_ofEntries (distinctKeys_of_toEntries entries hvalues)
  | .tagged _ _ => cases h

theorem distinctKeys_of_toItems (items : List Node) {values : List Value}
    (h : Node.toItems items = .ok values) : Value.DistinctKeysItems values := by
  match items with
  | [] =>
    cases h
    exact trivial
  | item :: items =>
    obtain ⟨value, hvalue, h⟩ := bind_eq_ok.mp h
    obtain ⟨others, hothers, h⟩ := bind_eq_ok.mp h
    cases h
    exact ⟨distinctKeys_of_toValue item hvalue, distinctKeys_of_toItems items hothers⟩

theorem distinctKeys_of_toEntries {wanted : Wanted} (entries : List (Node × Node))
    {values : List (String × Value)} (h : Node.toEntries wanted entries = .ok values) :
    Value.DistinctKeysEntries values := by
  match entries with
  | [] =>
    cases h
    exact trivial
  | (key, item) :: entries =>
    obtain ⟨text, -, h⟩ := bind_eq_ok.mp h
    obtain ⟨value, hvalue, h⟩ := bind_eq_ok.mp h
    obtain ⟨others, hothers, h⟩ := bind_eq_ok.mp h
    cases h
    exact ⟨distinctKeys_of_toValue item hvalue, distinctKeys_of_toEntries entries hothers⟩

end

/-- What is read has distinct keys, whatever tags the keys had and whatever was merged. -/
theorem distinctKeys_of_read {text : String} {v : Value} (h : read text = .ok v) :
    v.DistinctKeys := by
  obtain ⟨root, -, h⟩ := bind_eq_ok.mp h
  split at h
  · rename_i merged _
    exact distinctKeys_of_toValue merged h
  · cases h

end PageManifest.Yaml
