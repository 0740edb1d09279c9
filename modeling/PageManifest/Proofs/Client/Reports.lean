import PageManifest.Demo

/-!
# Reports on every format

The report on some results (`ofResults`) lists what was written and what failed, both in the
order of the results. A report that covers every format (`IsExact`) has each of them in
exactly one of the two lists, and once there, so that no row of its table is blank.
-/

namespace PageManifest.BatchReport

/-! ## Reports on results -/

/-- The report on the results of some formats. -/
def ofResults (results : List (Format × Except Error String)) : BatchReport :=
  results.foldr (fun result report => report.withResult result.1 result.2) {}

theorem ofResults_cons (format : Format) (result : Except Error String)
    (results : List (Format × Except Error String)) :
    ofResults ((format, result) :: results) = (ofResults results).withResult format result := rfl

variable (results : List (Format × Except Error String)) (format : Format)

theorem mem_written_ofResults (path : String) :
    (format, path) ∈ (ofResults results).written ↔ (format, .ok path) ∈ results := by
  induction results with
  | nil => simp [ofResults]
  | cons head results ih =>
    obtain ⟨other, result⟩ := head
    rw [ofResults_cons]
    cases result with
    | ok found => simp [withResult, ih]
    | error error => simp [withResult, ih]

theorem mem_failed_ofResults (message : String) :
    (format, message) ∈ (ofResults results).failed ↔
      ∃ error, (format, .error error) ∈ results ∧ message = error.message := by
  induction results with
  | nil => simp [ofResults]
  | cons head results ih =>
    obtain ⟨other, result⟩ := head
    rw [ofResults_cons]
    cases result with
    | ok path => simp [withResult, ih]
    | error error =>
      simp only [withResult, List.mem_cons, Prod.mk.injEq, ih, Except.error.injEq]
      constructor
      · rintro (⟨rfl, rfl⟩ | ⟨found, hmem, hmessage⟩)
        · exact ⟨error, Or.inl ⟨rfl, rfl⟩, rfl⟩
        · exact ⟨found, Or.inr hmem, hmessage⟩
      · rintro ⟨found, ⟨hformat, rfl⟩ | hmem, hmessage⟩
        · exact Or.inl ⟨hformat, hmessage⟩
        · exact Or.inr ⟨found, hmem, hmessage⟩

theorem written_ofResults_sublist :
    ((ofResults results).written.map (·.1)).Sublist (results.map (·.1)) := by
  induction results with
  | nil => exact .slnil
  | cons head results ih =>
    obtain ⟨other, result⟩ := head
    rw [ofResults_cons]
    cases result with
    | ok path => exact ih.cons_cons other
    | error error => exact ih.cons other

theorem failed_ofResults_sublist :
    ((ofResults results).failed.map (·.1)).Sublist (results.map (·.1)) := by
  induction results with
  | nil => exact .slnil
  | cons head results ih =>
    obtain ⟨other, result⟩ := head
    rw [ofResults_cons]
    cases result with
    | ok path => exact ih.cons other
    | error error => exact ih.cons_cons other

theorem perm_ofResults :
    (((ofResults results).written ++ (ofResults results).failed).map (·.1)).Perm
      (results.map (·.1)) := by
  induction results with
  | nil => exact .nil
  | cons head results ih =>
    obtain ⟨other, result⟩ := head
    rw [ofResults_cons]
    cases result with
    | ok path => exact ih.cons other
    | error error =>
      rw [List.map_append] at ih ⊢
      exact List.perm_middle.trans (ih.cons other)

/-- All formats that failed for one reason. -/
theorem allFailed_eq (error : Error) :
    allFailed error.message =
      ofResults (Format.all.map fun format => (format, .error error)) := rfl

/-! ## Exact reports -/

/-- A report on every format: both lists are in the order of conversion, and each format is
once in one of them. It is complete if and only if all formats are written. -/
structure IsExact (report : BatchReport) : Prop where
  written_sublist : (report.written.map (·.1)).Sublist Format.all
  failed_sublist : (report.failed.map (·.1)).Sublist Format.all
  disjoint : ∀ format ∈ report.written.map (·.1), format ∉ report.failed.map (·.1)
  count_eq_one : ∀ format, ((report.written ++ report.failed).map (·.1)).count format = 1
  isSome_iff : ∀ format,
    (report.writtenPath? format).isSome = true ↔ (report.failure? format).isSome = false
  isComplete_iff : report.isComplete = true ↔ report.written.map (·.1) = Format.all

theorem isSome_lookup_iff {α : Type} (entries : List (Format × α)) :
    (entries.lookup format).isSome = true ↔ format ∈ entries.map (·.1) := by
  simp only [List.lookup_isSome_iff, List.mem_map]
  exact ⟨fun ⟨entry, hmem, hkey⟩ => ⟨entry, hmem, (eq_of_beq hkey).symm⟩,
    fun ⟨entry, hmem, hkey⟩ => ⟨entry, hmem, by simp [hkey]⟩⟩

theorem lookups_of_not_mem (h : format ∉ results.map (·.1)) :
    (ofResults results).writtenPath? format = none ∧
      (ofResults results).failure? format = none := by
  have hnone : ∀ {entries : List (Format × String)},
      (entries.map (·.1)).Sublist (results.map (·.1)) → entries.lookup format = none := by
    intro entries hsub
    rw [← Option.not_isSome_iff_eq_none, isSome_lookup_iff]
    exact fun hmem => h (hsub.subset hmem)
  exact ⟨hnone (written_ofResults_sublist results), hnone (failed_ofResults_sublist results)⟩

/-- Why there is no output, if there is none. -/
def reason? : Except Error String → Option String
  | .ok _ => none
  | .error error => some error.message

/-- What a report says about a format is its result. -/
theorem lookups_ofResults (hnodup : (results.map (·.1)).Nodup) {result : Except Error String}
    (hmem : (format, result) ∈ results) :
    (ofResults results).writtenPath? format = result.toOption ∧
      (ofResults results).failure? format = reason? result := by
  induction results with
  | nil => cases hmem
  | cons head results ih =>
    obtain ⟨other, found⟩ := head
    rw [List.map_cons, List.nodup_cons] at hnodup
    rw [ofResults_cons]
    rcases List.mem_cons.mp hmem with hhead | hmem
    · obtain ⟨rfl, rfl⟩ := Prod.mk.inj hhead
      obtain ⟨hwritten, hfailed⟩ := lookups_of_not_mem results format hnodup.1
      cases result with
      | ok path => exact ⟨List.lookup_cons_self, hfailed⟩
      | error error => exact ⟨hwritten, List.lookup_cons_self⟩
    · have hbehind : format ∈ results.map (·.1) := List.mem_map_of_mem hmem
      have hne : (format == other) = false := by
        rw [beq_eq_false_iff_ne]
        rintro rfl
        exact hnodup.1 hbehind
      rw [← (ih hnodup.2 hmem).1, ← (ih hnodup.2 hmem).2]
      cases found with
      | ok path => simp [withResult, writtenPath?, failure?, List.lookup_cons, hne]
      | error error => simp [withResult, writtenPath?, failure?, List.lookup_cons, hne]

theorem isExact_ofResults (h : results.map (·.1) = Format.all) : IsExact (ofResults results) := by
  have hwritten := h ▸ written_ofResults_sublist results
  have hfailed := h ▸ failed_ofResults_sublist results
  have hperm := h ▸ perm_ofResults results
  generalize ofResults results = report at hwritten hfailed hperm
  have hcount : ∀ format, ((report.written ++ report.failed).map (·.1)).count format = 1 := by
    intro format
    rw [hperm.count_eq, Format.nodup_all.count, if_pos (Format.mem_all format)]
  have hsplit : ∀ format, (report.written.map (·.1)).count format +
      (report.failed.map (·.1)).count format = 1 := by
    intro format
    rw [← List.count_append, ← List.map_append, hcount]
  have hdisjoint : ∀ format ∈ report.written.map (·.1), format ∉ report.failed.map (·.1) := by
    intro format hmem hother
    have hfirst := List.one_le_count_iff.mpr hmem
    have hsecond := List.one_le_count_iff.mpr hother
    have := hsplit format
    omega
  refine ⟨hwritten, hfailed, hdisjoint, hcount, ?_, ?_⟩
  · intro format
    rw [writtenPath?, failure?, isSome_lookup_iff, Bool.eq_false_iff, ne_eq, isSome_lookup_iff]
    refine ⟨hdisjoint format, fun hno => ?_⟩
    have hnone := List.count_eq_zero.mpr hno
    have := hsplit format
    exact List.one_le_count_iff.mp (by omega)
  · have hlength := hperm.length_eq
    rw [List.length_map, List.length_append] at hlength
    rw [isComplete, List.isEmpty_iff]
    constructor
    · intro hnil
      refine hwritten.eq_of_length ?_
      rw [List.length_map, ← hlength, hnil]
      rfl
    · intro hall
      have hsame := congrArg List.length hall
      rw [List.length_map] at hsame
      exact List.length_eq_zero_iff.mp (by omega)

theorem isExact_allFailed (error : Error) : IsExact (allFailed error.message) := by
  rw [allFailed_eq]
  exact isExact_ofResults _ rfl

/-- An exact report leaves no row of its table blank, provided that no path is empty. -/
theorem IsExact.summaryRow_ne {report : BatchReport} (h : IsExact report)
    (hpath : ∀ entry ∈ report.written, entry.2 ≠ "") :
    Demo.summaryRow report format ≠ [format.name, ""] := by
  have hone := h.isSome_iff format
  rw [Demo.summaryRow]
  cases hwritten : report.writtenPath? format with
  | some path =>
    obtain ⟨before, behind, hsplit, _⟩ := List.lookup_eq_some_iff.mp hwritten
    have hne : path ≠ "" := hpath (format, path) (by rw [hsplit]; simp)
    simpa using hne
  | none =>
    cases hfailed : report.failure? format with
    | some message => simp
    | none => simp [hwritten, hfailed] at hone

end PageManifest.BatchReport
