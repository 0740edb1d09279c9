import PageManifest.Proofs.Manifest.Merges
import PageManifest.Proofs.Yaml.Precedence

/-!
# Merged keys of page descriptions

Each mapping of a document that is not under a merge key is in the page description, merged: its
own keys keep their values, and the others have those of the first mapping that has them. A merge
key over anything but mappings is an error (`merge_precedence`). Keys that differ by a tag alone
are the exception: there the value that is lent may replace the own one (`ofYaml_of_lent_tag`).
-/

namespace PageManifest.Manifest

open Yaml

variable {text : String} {manifest : Manifest}

/-- Each mapping that is at a place of the document is at the same place of the page description,
merged, and so is every mapping in a value that is lent. A merge key over anything but a mapping or
a sequence of mappings is an error, be it in a key or below a tag. -/
theorem merge_precedence (text : String) :
    (∀ manifest, ofYaml text = .ok manifest →
      Text.isBlankText text = true ∧ manifest = empty ∨
        ∃ root, Spelled text root ∧ ∀ place entries, IsAt place root (.mapping entries) →
          ∃ fields, manifest.toValue.at? place = some (.mapping fields) ∧
            Merged entries fields) ∧
    (∀ entries value, ¬ (Node.mapping entries).RepeatsKey →
      (Node.mapping entries).read = .ok value →
      ∃ fields, value = .mapping fields ∧ Merged entries fields) ∧
    (Text.isBlankText text = false → ∀ root entries source, Spelled text root →
      Outside root (.mapping entries) → (mergeKey, source) ∈ entries →
      (∀ lenders, ¬ Lenders source lenders) → ∃ error, ofYaml text = .error (.yaml error)) := by
  refine ⟨?_, ?_, ?_⟩
  · intro manifest h
    unfold ofYaml at h
    split at h
    · rename_i hblank
      cases h
      exact Or.inl ⟨hblank, rfl⟩
    · split at h
      · rename_i value hread
        obtain ⟨root, hspelled, hdiffer, hroot⟩ := exists_reads_of_read hread
        refine Or.inr ⟨root, hspelled, ?_⟩
        intro place entries hplace
        obtain ⟨found, hfound, hreads, hdiffer⟩ := hplace.exists_at? hroot hdiffer
        obtain ⟨fields, rfl, hmerged⟩ := hreads.exists_merged hdiffer
        have hvalue : manifest.toValue = value := by
          cases value with
          | mapping fields =>
            cases h
            rfl
          | null => cases place with
            | nil => cases hfound
            | cons step place => cases step <;> cases hfound
          | _ => cases h
        rw [hvalue]
        exact ⟨fields, hfound, hmerged⟩
      · cases h
  · intro entries value hdiffer hread
    exact (reads_iff.mpr hread).exists_merged hdiffer
  · intro hblank root entries source hspelled houtside hsource hnone
    unfold ofYaml
    rw [if_neg (by rw [hblank]; exact Bool.false_ne_true)]
    cases hread : Yaml.read text with
    | error error => exact ⟨error, rfl⟩
    | ok value =>
      obtain ⟨other, hother, hdiffer, hroot⟩ := exists_reads_of_read hread
      cases hspelled.unique hother
      obtain ⟨lenders, hlenders⟩ := houtside.exists_lenders hsource hroot hdiffer
      exact absurd hlenders (hnone lenders)

/-! ## Two texts -/

/-- Parts whose marks do not matter are those that stand there with some marks. -/
theorem exists_marks {pieces : List (Piece × Mark)} {bare : List Piece}
    (h : pieces.map Prod.fst = bare) :
    ∃ marks : List Mark, pieces = bare.zip marks ∧ marks.length = bare.length := by
  subst h
  refine ⟨pieces.map Prod.snd, ?_, by simp⟩
  rw [List.zip_map', List.map_id'' fun _ => rfl]

theorem spells_plain {doc : Document} {text : String} {node : Node} {mark : Mark}
    {rest : List (Piece × Mark)} (h : scalarNode none text .plain = .ok node) :
    Spells doc (.node false) ((.scalar none text .plain, mark) :: rest) node rest :=
  .scalar (Or.inl rfl) h

/-- Under `p`, two mappings that both have `x`, and one of which has the `y` that is there. -/
def overlapText : String := "p: {<<: [{x: 1}, {x: 2, y: 3}], y: 4}\n"

/-- The mappings that the one under `p` is merged with. -/
def overlapLenders : List (List (Node × Node)) :=
  [[(.string "x", .int 1)], [(.string "x", .int 2), (.string "y", .int 3)]]

/-- The entries under `p`. -/
def overlap : List (Node × Node) :=
  [(mergeKey, .sequence (overlapLenders.map .mapping)), (.string "y", .int 4)]

theorem spelled_overlap : Spelled overlapText (.mapping [(.string "p", .mapping overlap)]) := by
  have hpieces : (load overlapText).pieces.map Prod.fst =
      [.mappingStart none, .scalar none "p" .plain, .mappingStart none, .scalar none "<<" .plain,
        .sequenceStart none, .mappingStart none, .scalar none "x" .plain, .scalar none "1" .plain,
        .mappingEnd, .mappingStart none, .scalar none "x" .plain, .scalar none "2" .plain,
        .scalar none "y" .plain, .scalar none "3" .plain, .mappingEnd, .sequenceEnd,
        .scalar none "y" .plain, .scalar none "4" .plain, .mappingEnd, .mappingEnd] := by
    decide
  obtain ⟨marks, hload, hlength⟩ := exists_marks hpieces
  match marks, hlength with
  | [_, _, _, _, _, _, _, _, _, _, _, _, _, _, _, _, _, _, _, _], _ =>
    refine ⟨[], ?_⟩
    rw [hload]
    exact .mapping (Or.inl rfl) (.entry (spells_plain rfl) (.mapping (Or.inl rfl)
      (.entry (spells_plain rfl) (.sequence (Or.inl rfl)
        (.item (.mapping (Or.inl rfl) (.entry (spells_plain rfl) (spells_plain rfl) .mappingEnd))
        (.item (.mapping (Or.inl rfl) (.entry (spells_plain rfl) (spells_plain rfl)
          (.entry (spells_plain rfl) (spells_plain rfl) .mappingEnd))) .sequenceEnd)))
      (.entry (spells_plain rfl) (spells_plain rfl) .mappingEnd))) .mappingEnd)

theorem mergeKey_ne {text : String} (h : text ≠ "<<") : mergeKey ≠ .string text := by
  intro heq
  exact h (Node.string.inj heq).symm

theorem clear_overlap (name : String) : Clear overlap name := by
  refine clear_of_strings ?_
  rintro key (⟨hmem, -⟩ | ⟨⟨source, hsource, hlenders⟩, hlender, hmem⟩)
  · simp only [overlap, List.mem_cons, List.not_mem_nil, or_false] at hmem
    rcases hmem with rfl | rfl
    · exact ⟨_, rfl⟩
    · exact ⟨_, rfl⟩
  · simp only [overlap, List.mem_cons, Prod.mk.injEq, true_and, List.not_mem_nil, or_false,
      mergeKey_ne (show "y" ≠ "<<" by decide), false_and] at hsource
    subst hsource
    cases (Lenders.many overlapLenders).unique hlenders
    simp only [overlapLenders, List.mem_cons, List.not_mem_nil, or_false] at hlender
    rcases hlender with rfl | rfl
    · simp only [List.mem_cons, List.not_mem_nil, or_false] at hmem
      exact ⟨"x", by rw [hmem]⟩
    · simp only [List.mem_cons, List.not_mem_nil, or_false] at hmem
      rcases hmem with rfl | rfl
      · exact ⟨"x", rfl⟩
      · exact ⟨"y", rfl⟩

/-- A merge key over a scalar. -/
def scalarText : String := "<<: 1\n"

theorem spelled_scalarText : Spelled scalarText (.mapping [(mergeKey, .int 1)]) := by
  have hpieces : (load scalarText).pieces.map Prod.fst =
      [.mappingStart none, .scalar none "<<" .plain, .scalar none "1" .plain, .mappingEnd] := by
    decide
  obtain ⟨marks, hload, hlength⟩ := exists_marks hpieces
  match marks, hlength with
  | [_, _, _, _], _ =>
    refine ⟨[], ?_⟩
    rw [hload]
    exact .mapping (Or.inl rfl)
      (.entry (spells_plain rfl) (spells_plain rfl) .mappingEnd)

theorem merge_precedence_of_overlap :
    ∃ manifest fields, ofYaml overlapText = .ok manifest ∧
      manifest.toValue.at? [.key "p"] = some (.mapping fields) ∧
      OrderedMap.get? fields "x" = some (.number (.int 1)) ∧
      OrderedMap.get? fields "y" = some (.number (.int 4)) ∧
      ∃ error, ofYaml scalarText = .error (.yaml error) := by
  obtain ⟨hplaces, -, -⟩ := merge_precedence overlapText
  obtain ⟨-, -, hrefused⟩ := merge_precedence scalarText
  have hread : (ofYaml overlapText).toOption.any (fun _ => true) = true := by decide +kernel
  obtain ⟨manifest, hmanifest, -⟩ := exists_ofYaml hread
  have hclear : Clear [(.string "p", .mapping overlap)] "p" := by
    refine clear_of_strings ?_
    rintro key (⟨hmem, -⟩ | ⟨⟨source, hsource, -⟩, -, -⟩)
    · exact ⟨"p", by rw [List.mem_singleton.mp hmem]⟩
    · exact absurd (congrArg Prod.fst (List.mem_singleton.mp hsource))
        (mergeKey_ne (by decide))
  have hplace : IsAt [.key "p"] (.mapping [(.string "p", .mapping overlap)]) (.mapping overlap) :=
    .entry ⟨List.mem_singleton_self _, (mergeKey_ne (by decide)).symm⟩ rfl hclear .here
  rcases hplaces manifest hmanifest with ⟨hblank, -⟩ | ⟨root, hspelled, hroot⟩
  · exact absurd hblank (by decide)
  cases spelled_overlap.unique hspelled
  obtain ⟨fields, hfields, hmerged⟩ := hroot _ _ hplace
  have hmerges : MergesWith overlap overlapLenders :=
    ⟨_, List.mem_cons_self, .many overlapLenders⟩
  obtain ⟨x, hx, hxRead⟩ := hmerged.lent [] _ _ (.string "x", .int 1) "x" hmerges
    (List.mem_singleton_self _) rfl (clear_overlap "x") (by
      rintro other ⟨hmem, hkey⟩ hname
      simp only [overlap, List.mem_cons, List.not_mem_nil, or_false] at hmem
      rcases hmem with rfl | rfl
      · exact hkey rfl
      · exact absurd (Option.some.inj hname) (by decide)) (by simp)
  obtain ⟨y, hy, hyRead⟩ := hmerged.own (.string "y", .int 4) "y"
    ⟨by simp [overlap], (mergeKey_ne (by decide)).symm⟩ rfl (clear_overlap "y")
  cases hxRead
  cases hyRead
  exact ⟨manifest, fields, hmanifest, hfields, hx, hy,
    hrefused (by decide) _ _ _ spelled_scalarText .root List.mem_cons_self (by rintro _ ⟨⟩)⟩

/-! ## A key that is lent under a tag -/

/-- The mapping has `x` itself, and is lent it under a tag. -/
def lentTagText : String := "<<: \x7b!a x: 9\x7d\nx: 1\n"

/-- Its entries. -/
def lentTag : List (Node × Node) :=
  [(mergeKey, .mapping [(.tagged "a" (.string "x"), .int 9)]), (.string "x", .int 1)]

theorem spelled_lentTag : Spelled lentTagText (.mapping lentTag) := by
  have hpieces : (load lentTagText).pieces.map Prod.fst =
      [.mappingStart none, .scalar none "<<" .plain, .mappingStart none,
        .scalar (some ⟨"!a", true⟩) "x" .plain, .scalar none "9" .plain, .mappingEnd,
        .scalar none "x" .plain, .scalar none "1" .plain, .mappingEnd] := by
    decide
  obtain ⟨marks, hload, hlength⟩ := exists_marks hpieces
  match marks, hlength with
  | [_, _, _, _, _, _, _, _, _], _ =>
    refine ⟨[], ?_⟩
    rw [hload]
    exact .mapping (Or.inl rfl) (.entry (spells_plain rfl) (.mapping (Or.inl rfl)
      (.entry (.tagged rfl (.scalar (Or.inr rfl) rfl)) (spells_plain rfl) .mappingEnd))
      (.entry (spells_plain rfl) (spells_plain rfl) .mappingEnd))

/-- A key of the document's own does not always keep its value. -/
theorem ofYaml_of_lent_tag :
    (ofYaml lentTagText).toOption.map toJson = some "\x7b\"x\":9\x7d" ∧
    ¬ ∀ text manifest entries entry name, ofYaml text = .ok manifest →
      Spelled text (.mapping entries) → IsOwn entries entry → entry.1.name? = some name →
      ∃ value, OrderedMap.get? manifest.entries name = some value ∧
        entry.2.read = .ok value := by
  have hread : (ofYaml lentTagText).toOption.any (fun manifest =>
      manifest.toJson == "\x7b\"x\":9\x7d" &&
        (OrderedMap.get? manifest.entries "x").map Json.write != some "1") = true := by
    decide +kernel
  obtain ⟨manifest, hmanifest, hchecked⟩ := exists_ofYaml hread
  obtain ⟨hjson, hother⟩ := Bool.and_eq_true_iff.mp hchecked
  refine ⟨by rw [hmanifest, Except.toOption, Option.map_some, eq_of_beq hjson], ?_⟩
  intro hown
  obtain ⟨value, hvalue, hone⟩ := hown lentTagText manifest lentTag (.string "x", .int 1) "x"
    hmanifest spelled_lentTag ⟨by simp [lentTag], (mergeKey_ne (by decide)).symm⟩ rfl
  cases hone
  rw [hvalue] at hother
  exact absurd hother (by decide)

end PageManifest.Manifest
