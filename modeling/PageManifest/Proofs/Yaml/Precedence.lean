import PageManifest.Proofs.Value.Places
import PageManifest.Proofs.Yaml.Merges

/-!
# Whose value a merged key has

A mapping has its own keys and those of the mappings that it is merged with. Of the entries of a
name its own one counts, and otherwise that of the first mapping that has the name (`Merged`). This
is so as long as no two keys of the name differ by their tags (`Clear`): such keys are both there
until the tags go, and then the later one counts.

A tree whose merge keys are resolved is read the same way in all its parts (`Node.read`), so the
value of a mapping in the tree is found at the same place of the whole value (`Value.at?`). Where
the value of a merge key is no mapping and no sequence of mappings, nothing is read
(`Outside.exists_lenders`).
-/

namespace PageManifest.Yaml

/-! ## Reading a part of a tree -/

/-- Reads a node as a document of its own would be read. -/
def Node.read (node : Node) : Except Error Value :=
  match resolveMerges node with
  | .ok resolved => resolved.toValue
  | .error fault => .error (.badMerge fault)

theorem mapLastFirst_congr {α β ε : Type} {f g : α → Except ε β} {xs : List α}
    (h : ∀ x ∈ xs, f x = g x) : mapLastFirst f xs = mapLastFirst g xs := by
  induction xs with
  | nil => rfl
  | cons x xs ih =>
    rw [List.forall_mem_cons] at h
    rw [mapLastFirst, mapLastFirst, ih h.2, h.1]

/-- Below the deepest node there is nothing to resolve. -/
theorem resolveMergesTo_succ {depth : Nat} {node : Node} (h : node.depth ≤ depth) :
    resolveMergesTo (depth + 1) node = resolveMergesTo depth node := by
  induction depth generalizing node with
  | zero =>
    cases node with
    | sequence items => exact absurd h (by simp [Node.depth])
    | mapping entries => exact absurd h (by simp [Node.depth])
    | tagged tag inner => exact absurd h (by simp [Node.depth])
    | _ => rfl
  | succ depth ih =>
    cases node with
    | sequence items =>
      rw [depth_sequence] at h
      have hitems : mapLastFirst (resolveMergesTo (depth + 1)) items =
          mapLastFirst (resolveMergesTo depth) items := by
        refine mapLastFirst_congr fun item hitem => ih ?_
        have hle := depth_le_of_mem_items hitem
        omega
      rw [resolveMergesTo, resolveMergesTo, hitems]
    | mapping entries =>
      rw [depth_mapping] at h
      rw [resolveMergesTo, resolveMergesTo]
      refine bind_congr_ok fun merged hmerged => ?_
      rw [mapLastFirst_congr fun entry hentry => ?_]
      have hle := (mergedAs_of_mergeEntries hmerged).depth_le hentry
      rw [ih (by omega)]
    | tagged tag inner =>
      rw [depth_tagged] at h
      rw [resolveMergesTo, resolveMergesTo, ih (by omega)]
    | _ => rfl

theorem resolveMergesTo_eq {depth : Nat} {node : Node} (h : node.depth ≤ depth) :
    resolveMergesTo depth node = resolveMerges node := by
  induction h with
  | refl => rfl
  | step h ih => rw [resolveMergesTo_succ h, ih]

theorem reads_iff {node : Node} {value : Value} : Reads node value ↔ node.read = .ok value := by
  unfold Node.read
  constructor
  · rintro ⟨depth, resolved, hdepth, hresolved, hvalue⟩
    rw [resolveMergesTo_eq hdepth] at hresolved
    rw [hresolved]
    exact hvalue
  · intro h
    split at h
    · rename_i resolved hresolved
      exact ⟨node.depth, resolved, Nat.le_refl _, hresolved, h⟩
    · cases h

/-! ## Sources -/

/-- The mappings that a node stands for under a merge key, in order. -/
inductive Lenders : Node → List (List (Node × Node)) → Prop
  | one (lender : List (Node × Node)) : Lenders (.mapping lender) [lender]
  | many (lenders : List (List (Node × Node))) : Lenders (.sequence (lenders.map .mapping)) lenders

theorem mergeSources_eq_ok_iff {source : Node} {lenders : List (List (Node × Node))} :
    mergeSources source = .ok lenders ↔ Lenders source lenders := by
  constructor
  · intro h
    unfold mergeSources at h
    split at h
    · cases h
      exact .one _
    · rename_i items
      have hitems : items = lenders.map .mapping := by
        have hall := forall₂_of_mapM h
        clear h
        induction hall with
        | nil => rfl
        | cons hitem _ ih =>
          split at hitem
          · cases hitem
            rw [List.map_cons, ih]
          · cases hitem
          · cases hitem
          · cases hitem
      rw [hitems]
      exact .many lenders
    · cases h
    · cases h
  · intro h
    cases h with
    | one lender => rfl
    | many lenders =>
      rw [mergeSources]
      induction lenders with
      | nil => rfl
      | cons lender lenders ih =>
        rw [List.map_cons, List.mapM_cons, ih]
        rfl

theorem Lenders.unique {source : Node} {lenders others : List (List (Node × Node))}
    (h : Lenders source lenders) (hothers : Lenders source others) : lenders = others :=
  Except.ok.inj ((mergeSources_eq_ok_iff.mpr h).symm.trans (mergeSources_eq_ok_iff.mpr hothers))

variable {entries merged lender : List (Node × Node)} {entry : Node × Node} {name : String}

/-- An entry of a mapping itself, which its merge key does not count as. -/
def IsOwn (entries : List (Node × Node)) (entry : Node × Node) : Prop :=
  entry ∈ entries ∧ entry.1 ≠ mergeKey

/-- The mappings that a mapping is merged with, in order. -/
def MergesWith (entries : List (Node × Node)) (lenders : List (List (Node × Node))) : Prop :=
  ∃ source, (mergeKey, source) ∈ entries ∧ Lenders source lenders

/-- A key of a mapping, or of one that it is merged with. -/
inductive Meets (entries : List (Node × Node)) : Node → Prop
  | own {entry : Node × Node} (h : IsOwn entries entry) : Meets entries entry.1
  | lent {lenders : List (List (Node × Node))} {lender : List (Node × Node)} {entry : Node × Node}
      (hmerges : MergesWith entries lenders) (hlender : lender ∈ lenders) (hmem : entry ∈ lender) :
      Meets entries entry.1

/-- The keys of a name are all the same where they meet in a mapping: none differs by a tag. -/
def Clear (entries : List (Node × Node)) (name : String) : Prop :=
  ∀ key other, Meets entries key → Meets entries other → key.name? = some name →
    other.name? = some name → (key == other) = true

/-- Keys without tags do not differ by their tags. -/
theorem clear_of_strings (h : ∀ key, Meets entries key → ∃ text, key = .string text) :
    Clear entries name := by
  intro key other hkey hother hname hname'
  obtain ⟨text, rfl⟩ := h key hkey
  obtain ⟨text', rfl⟩ := h other hother
  cases hname
  cases hname'
  exact beq_self_of_name rfl

/-- The fields of a mapping are those of its entries and of the mappings that it is merged with. A
name of its own has its own value, and another one the value of the first mapping that has it. -/
structure Merged (entries : List (Node × Node)) (fields : List (String × Value)) : Prop where
  named : ∀ key, Meets entries key → ∃ name, key.name? = some name
  keys : ∀ name, name ∈ OrderedMap.keys fields ↔
    ∃ key, Meets entries key ∧ key.name? = some name
  own : ∀ entry name, IsOwn entries entry → entry.1.name? = some name → Clear entries name →
    ∃ value, OrderedMap.get? fields name = some value ∧ entry.2.read = .ok value
  lent : ∀ before lender after entry name, MergesWith entries (before ++ lender :: after) →
    entry ∈ lender → entry.1.name? = some name → Clear entries name →
    (∀ other, IsOwn entries other → other.1.name? ≠ some name) →
    (∀ earlier ∈ before, name ∉ names earlier) →
    ∃ value, OrderedMap.get? fields name = some value ∧ entry.2.read = .ok value

/-! ## The entries of one name -/

/-- The entries whose key has a name. -/
def named (name : String) (entries : List (Node × Node)) : List (Node × Node) :=
  entries.filter fun entry => entry.1.name? = some name

theorem mem_named_iff :
    entry ∈ named name entries ↔ entry ∈ entries ∧ entry.1.name? = some name := by
  simp [named]

theorem named_eq_nil_iff :
    named name entries = [] ↔ ∀ entry ∈ entries, entry.1.name? ≠ some name := by
  simp [named]

theorem named_append (front behind : List (Node × Node)) :
    named name (front ++ behind) = named name front ++ named name behind := List.filter_append ..

/-- Among keys that differ, and do not differ by their tags, there is one of a name at most. -/
theorem named_eq_singleton (hdiffer : ¬ (Node.mapping entries).RepeatsKey)
    (hsublist : merged.Sublist entries)
    (hsame : ∀ first ∈ merged, ∀ later ∈ merged, first.1.name? = some name →
      later.1.name? = some name → (first.1 == later.1) = true)
    (hmem : entry ∈ merged) (hname : entry.1.name? = some name) : named name merged = [entry] := by
  have hthere : entry ∈ named name merged := mem_named_iff.mpr ⟨hmem, hname⟩
  have hwithin : (named name merged).Sublist merged := List.filter_sublist
  cases hnamed : named name merged with
  | nil =>
    rw [hnamed] at hthere
    cases hthere
  | cons first others =>
    cases others with
    | nil =>
      rw [hnamed] at hthere
      rw [List.mem_singleton.mp hthere]
    | cons later others =>
      exfalso
      have hfirst : first ∈ named name merged := by rw [hnamed]; exact List.mem_cons_self
      have hlater : later ∈ named name merged := by
        rw [hnamed]
        exact List.mem_cons_of_mem _ List.mem_cons_self
      have htwo : [first, later].Sublist entries := by
        refine List.Sublist.trans ?_ (hwithin.trans hsublist)
        rw [hnamed]
        exact ((List.nil_sublist others).cons_cons later).cons_cons first
      rw [mem_named_iff] at hfirst hlater
      exact hdiffer (.here (htwo.map Prod.fst)
        (hsame first hfirst.1 later hlater.1 hfirst.2 hlater.2))

/-- An entry is added if there is none of its name yet. -/
theorem named_insertNew {key value : Node}
    (hsame : key.name? = some name → ∀ other ∈ entries, other.1.name? = some name →
      (other.1 == key) = true) :
    named name (OrderedMap.insertNew entries key value) =
      if named name entries = [] then named name [(key, value)] else named name entries := by
  have hkey : OrderedMap.hasKey entries key = true → key.name? = some name →
      named name entries ≠ [] := by
    intro hthere hname hnone
    obtain ⟨found, hfound, hfoundKey⟩ := OrderedMap.hasKey_eq_true_iff.mp hthere
    obtain ⟨entry, hentry, rfl⟩ := List.mem_map.mp hfound
    exact named_eq_nil_iff.mp hnone entry hentry (name?_of_beq hfoundKey hname)
  unfold OrderedMap.insertNew
  split
  · rename_i hthere
    split
    · rename_i hnone
      rw [hnone, eq_comm, named_eq_nil_iff]
      intro entry hentry hname
      cases List.mem_singleton.mp hentry
      exact hkey hthere hname hnone
    · rfl
  · rename_i hmissing
    rw [named_append]
    split
    · rename_i hnone
      rw [hnone, List.nil_append]
    · rename_i hsome
      rw [List.append_right_eq_self, named_eq_nil_iff]
      intro entry hentry hname
      cases List.mem_singleton.mp hentry
      obtain ⟨other, hother⟩ := List.exists_mem_of_ne_nil _ hsome
      rw [mem_named_iff] at hother
      exact hmissing (OrderedMap.hasKey_eq_true_iff.mpr
        ⟨other.1, List.mem_map_of_mem hother.1, hsame hname other hother.1 hother.2⟩)

theorem named_cons (entry : Node × Node) (entries : List (Node × Node)) :
    named name (entry :: entries) = named name [entry] ++ named name entries :=
  named_append [entry] entries

theorem mem_insertNew {key value : Node} (h : entry ∈ OrderedMap.insertNew entries key value) :
    entry ∈ entries ∨ entry = (key, value) := by
  unfold OrderedMap.insertNew at h
  split at h
  · exact Or.inl h
  · rw [List.mem_append, List.mem_singleton] at h
    exact h

/-- Of the entries of a name that are added only the first one comes, and only if there is none. -/
theorem named_addMissing (others : List (Node × Node))
    (hsame : ∀ first ∈ entries ++ others, ∀ later ∈ entries ++ others,
      first.1.name? = some name → later.1.name? = some name → (first.1 == later.1) = true) :
    named name (OrderedMap.addMissing entries others) =
      if named name entries = [] then (named name others).take 1 else named name entries := by
  induction others generalizing entries with
  | nil =>
    rw [OrderedMap.addMissing, List.foldl_nil]
    split
    · rename_i hnone
      rw [hnone]
      rfl
    · rfl
  | cons other others ih =>
    have hother : other ∈ entries ++ other :: others := by simp
    have hinsert : named name (OrderedMap.insertNew entries other.1 other.2) =
        if named name entries = [] then named name [other] else named name entries :=
      named_insertNew fun hname found hfound hfoundName =>
        hsame found (List.mem_append_left _ hfound) other hother hfoundName hname
    have hwithin : ∀ entry ∈ OrderedMap.insertNew entries other.1 other.2 ++ others,
        entry ∈ entries ++ other :: others := by
      intro entry hentry
      rw [List.mem_append] at hentry
      rcases hentry with hentry | hentry
      · rcases mem_insertNew hentry with hentry | rfl
        · exact List.mem_append_left _ hentry
        · exact hother
      · exact List.mem_append_right _ (List.mem_cons_of_mem _ hentry)
    rw [OrderedMap.addMissing, List.foldl_cons, ← OrderedMap.addMissing,
      ih fun first hfirst later hlater =>
        hsame first (hwithin first hfirst) later (hwithin later hlater),
      hinsert, named_cons other others]
    by_cases hnone : named name entries = []
    · rw [if_pos hnone, if_pos hnone]
      by_cases hname : other.1.name? = some name
      · have hone : named name [other] = [other] := by simp [named, hname]
        simp [hone]
      · have hempty : named name [other] = [] := by simp [named, hname]
        rw [if_pos hempty, hempty, List.nil_append]
    · rw [if_neg hnone, if_neg hnone, if_neg hnone]

/-! ## Mappings -/

variable {fields : List (String × Value)} {value : Value}

/-- What a mapping is made of once it is merged: its own entries, the last one behind the merge
key in another place, and the mappings that it is merged with. -/
structure IsMadeOf (entries own : List (Node × Node)) (lenders : List (List (Node × Node))) :
    Prop where
  mem_own : ∀ entry, entry ∈ own ↔ IsOwn entries entry
  perm : ∃ written, own.Perm written ∧ written.Sublist entries
  only : ∀ others, MergesWith entries others → others = lenders
  lent : ∀ lender ∈ lenders, MergesWith entries lenders

theorem exists_isMadeOf (hdiffer : ¬ (Node.mapping entries).RepeatsKey)
    (h : mergeEntries entries = .ok merged) :
    ∃ own lenders, merged = OrderedMap.addMissing own lenders.flatten ∧
      IsMadeOf entries own lenders := by
  rcases mergeEntries_cases h with
    ⟨hnone, rfl⟩ | ⟨front, source, behind, lenders, hentries, hfront, hsources, rfl⟩
  · refine ⟨merged, [], rfl, ?_, ⟨merged, .refl _, .refl _⟩, ?_, by simp⟩
    · intro entry
      refine ⟨fun hmem => ⟨hmem, fun hkey => hnone ?_⟩, fun hown => hown.1⟩
      exact List.mem_map.mpr ⟨entry, hmem, hkey⟩
    · rintro others ⟨source, hsource, -⟩
      exact absurd (List.mem_map_of_mem hsource) hnone
  · subst hentries
    have hbehind := mergeKey_notMem_behind hdiffer
    refine ⟨_, lenders, rfl, ?_, ⟨front ++ behind, ?_, ?_⟩, ?_, ?_⟩
    · intro entry
      rw [IsOwn, List.mem_append, List.mem_append, List.mem_cons, OrderedMap.mem_rotateRight]
      constructor
      · rintro (hmem | hmem)
        · exact ⟨Or.inl hmem, fun hkey => hfront (List.mem_map.mpr ⟨entry, hmem, hkey⟩)⟩
        · exact ⟨Or.inr (Or.inr hmem), fun hkey => hbehind (List.mem_map.mpr ⟨entry, hmem, hkey⟩)⟩
      · rintro ⟨hmem | rfl | hmem, hkey⟩
        · exact Or.inl hmem
        · exact absurd rfl hkey
        · exact Or.inr hmem
    · exact (OrderedMap.perm_rotateRight behind).append_left front
    · exact (List.Sublist.refl front).append (List.sublist_cons_self _ _)
    · rintro others ⟨other, hother, hothers⟩
      rw [List.mem_append, List.mem_cons] at hother
      rcases hother with hother | hother | hother
      · exact absurd (List.mem_map_of_mem hother) hfront
      · cases hother
        exact hothers.unique (mergeSources_eq_ok_iff.mp hsources)
      · exact absurd (List.mem_map_of_mem hother) hbehind
    · intro lender hlender
      exact ⟨source, by simp, mergeSources_eq_ok_iff.mp hsources⟩

theorem MergesWith.not_repeatsKey {lenders : List (List (Node × Node))}
    (h : MergesWith entries lenders) (hlender : lender ∈ lenders)
    (hdiffer : ¬ (Node.mapping entries).RepeatsKey) : ¬ (Node.mapping lender).RepeatsKey := by
  obtain ⟨source, hsource, hlenders⟩ := h
  intro hrepeats
  refine hdiffer (.inValue hsource ?_)
  cases hlenders with
  | one only =>
    cases List.mem_singleton.mp hlender
    exact hrepeats
  | many lenders => exact .inItem (List.mem_map_of_mem hlender) hrepeats

section Made

variable {own : List (Node × Node)} {lenders : List (List (Node × Node))} {key : Node}

theorem IsMadeOf.meets (h : IsMadeOf entries own lenders) (hmem : entry ∈ own ++ lenders.flatten) :
    Meets entries entry.1 := by
  rcases List.mem_append.mp hmem with hmem | hmem
  · exact .own ((h.mem_own entry).mp hmem)
  · obtain ⟨lender, hlender, hmem⟩ := List.mem_flatten.mp hmem
    exact .lent (h.lent lender hlender) hlender hmem

/-- Each key that meets in a mapping is there, or one that is the same. -/
theorem IsMadeOf.covers (h : IsMadeOf entries own lenders) (hkey : Meets entries key) :
    key ∈ OrderedMap.keys (OrderedMap.addMissing own lenders.flatten) ∨
      ∃ found ∈ OrderedMap.keys (OrderedMap.addMissing own lenders.flatten),
        (found == key) = true := by
  cases hkey with
  | @own entry hentry =>
    obtain ⟨added, hadded, -⟩ := OrderedMap.exists_addMissing_eq own lenders.flatten
    rw [hadded, OrderedMap.keys, List.map_append]
    exact Or.inl (List.mem_append_left _ (List.mem_map_of_mem ((h.mem_own entry).mpr hentry)))
  | lent hmerges hlender hmem =>
    cases h.only _ hmerges
    exact OrderedMap.mem_or_exists_key_addMissing own
      (List.mem_map_of_mem (List.mem_flatten_of_mem hlender hmem))

theorem IsMadeOf.mem_names_iff (h : IsMadeOf entries own lenders) :
    name ∈ names (OrderedMap.addMissing own lenders.flatten) ↔
      ∃ key, Meets entries key ∧ key.name? = some name := by
  rw [Yaml.mem_names_iff]
  constructor
  · rintro ⟨key, hkey, hname⟩
    obtain ⟨entry, hentry, rfl⟩ := List.mem_map.mp hkey
    obtain ⟨added, hadded, hsublist⟩ := OrderedMap.exists_addMissing_eq own lenders.flatten
    rw [hadded] at hentry
    exact ⟨entry.1, h.meets (((List.Sublist.refl own).append hsublist).subset hentry), hname⟩
  · rintro ⟨key, hkey, hname⟩
    rcases h.covers hkey with hthere | ⟨found, hfound, hsame⟩
    · exact ⟨key, hthere, hname⟩
    · exact ⟨found, hfound, name?_of_beq hsame hname⟩

theorem IsMadeOf.named_own (h : IsMadeOf entries own lenders)
    (hdiffer : ¬ (Node.mapping entries).RepeatsKey) (hclear : Clear entries name)
    (hentry : IsOwn entries entry) (hname : entry.1.name? = some name) :
    named name own = [entry] := by
  obtain ⟨written, hperm, hsublist⟩ := h.perm
  have hmem : entry ∈ written := hperm.mem_iff.mp ((h.mem_own entry).mpr hentry)
  have hmeets : ∀ other ∈ written, Meets entries other.1 := fun other hother =>
    .own ((h.mem_own other).mp (hperm.mem_iff.mpr hother))
  have hone : named name written = [entry] :=
    named_eq_singleton hdiffer hsublist (fun first hfirst later hlater =>
      hclear _ _ (hmeets first hfirst) (hmeets later hlater)) hmem hname
  have hboth : (named name own).Perm (named name written) := hperm.filter _
  rw [hone] at hboth
  exact List.perm_singleton.mp hboth

theorem IsMadeOf.named_merged (h : IsMadeOf entries own lenders) (hclear : Clear entries name) :
    named name (OrderedMap.addMissing own lenders.flatten) =
      if named name own = [] then (named name lenders.flatten).take 1 else named name own :=
  named_addMissing _ fun _ hfirst _ hlater => hclear _ _ (h.meets hfirst) (h.meets hlater)

/-- Of the lenders the first one that has a name gives its entry. -/
theorem IsMadeOf.named_lent {before after : List (List (Node × Node))}
    (h : IsMadeOf entries own (before ++ lender :: after))
    (hdiffer : ¬ (Node.mapping entries).RepeatsKey) (hclear : Clear entries name)
    (hmem : entry ∈ lender) (hname : entry.1.name? = some name)
    (hearlier : ∀ earlier ∈ before, name ∉ names earlier) :
    (named name (before ++ lender :: after).flatten).take 1 = [entry] := by
  have hlender : lender ∈ before ++ lender :: after := by simp
  have hmerges := h.lent lender hlender
  have hbefore : named name before.flatten = [] := by
    rw [named_eq_nil_iff]
    intro other hother hother'
    obtain ⟨earlier, hmem, hother⟩ := List.mem_flatten.mp hother
    exact hearlier earlier hmem
      (Yaml.mem_names_iff.mpr ⟨other.1, List.mem_map_of_mem hother, hother'⟩)
  have hone : named name lender = [entry] :=
    named_eq_singleton (hmerges.not_repeatsKey hlender hdiffer) (List.Sublist.refl lender)
      (fun first hfirst later hlater => hclear _ _ (.lent hmerges hlender hfirst)
        (.lent hmerges hlender hlater)) hmem hname
  rw [List.flatten_append, List.flatten_cons, named_append, named_append, hbefore, hone]
  rfl

end Made

/-- The only entry of a name gives its field. -/
theorem get?_of_named {written : List (String × Value)}
    (hreads : List.Forall₂ ReadsField merged written) (hname : entry.1.name? = some name)
    (hone : named name merged = [entry]) :
    ∃ value, OrderedMap.get? (OrderedMap.ofEntries written) name = some value ∧
      entry.2.read = .ok value := by
  obtain ⟨front, behind, rfl, -, -, hbehind⟩ := List.filter_eq_cons_iff.mp hone
  have hlast : IsLast (front ++ entry :: behind) entry := by
    refine ⟨front, behind, rfl, ?_⟩
    rw [hname]
    exact named_eq_nil_iff.mp hbehind
  obtain ⟨field, hfield, hfieldName, hread⟩ := exists_mem_of_isLast hreads hlast
  cases hname.symm.trans hfieldName
  exact ⟨field.2, OrderedMap.get?_eq_some_of_mem (OrderedMap.nodup_ofEntries written) hfield,
    reads_iff.mp hread⟩

/-- What a mapping has itself is read. -/
theorem Reads.exists_own (h : Reads (.mapping entries) value)
    (hdiffer : ¬ (Node.mapping entries).RepeatsKey) (hentry : IsOwn entries entry) :
    ∃ found, Reads entry.2 found := by
  obtain ⟨merged, written, hmerged, hreads, -⟩ := h.mapping
  obtain ⟨own, lenders, rfl, hmade⟩ := exists_isMadeOf hdiffer hmerged
  obtain ⟨added, hadded, -⟩ := OrderedMap.exists_addMissing_eq own lenders.flatten
  rw [hadded] at hreads
  obtain ⟨field, -, hfield⟩ := exists_of_mem_of_forall₂ hreads.flip
    (List.mem_append_left added ((hmade.mem_own entry).mpr hentry))
  exact ⟨field.2, hfield.2⟩

/-- A mapping that is read is merged. -/
theorem Reads.exists_merged (h : Reads (.mapping entries) value)
    (hdiffer : ¬ (Node.mapping entries).RepeatsKey) :
    ∃ fields, value = .mapping fields ∧ Merged entries fields := by
  obtain ⟨merged, written, hmerged, hreads, rfl⟩ := h.mapping
  obtain ⟨own, lenders, rfl, hmade⟩ := exists_isMadeOf hdiffer hmerged
  have hnamed : ∀ key ∈ OrderedMap.keys (OrderedMap.addMissing own lenders.flatten),
      ∃ name, key.name? = some name := by
    intro key hkey
    obtain ⟨entry, hentry, rfl⟩ := List.mem_map.mp hkey
    obtain ⟨field, -, hfield⟩ := exists_of_mem_of_forall₂ hreads.flip hentry
    exact ⟨field.1, hfield.1⟩
  refine ⟨_, rfl, ?_, ?_, ?_, ?_⟩
  · intro key hkey
    rcases hmade.covers hkey with hthere | ⟨found, hfound, hsame⟩
    · exact hnamed key hthere
    · obtain ⟨name, hname⟩ := hnamed found hfound
      exact ⟨name, name?_of_beq_right hsame hname⟩
  · intro name
    rw [OrderedMap.keys_ofEntries, ← names_of_readsField hreads, List.mem_eraseDups,
      hmade.mem_names_iff]
  · intro entry name hentry hname hclear
    have hown := hmade.named_own hdiffer hclear hentry hname
    refine get?_of_named hreads hname ?_
    rw [hmade.named_merged hclear, hown, if_neg (List.cons_ne_nil _ _)]
  · intro before lender after entry name hmerges hmem hname hclear hnone hearlier
    cases hmade.only _ hmerges
    have hown : named name own = [] := by
      rw [named_eq_nil_iff]
      exact fun other hother => hnone other ((hmade.mem_own other).mp hother)
    refine get?_of_named hreads hname ?_
    rw [hmade.named_merged hclear, if_pos hown]
    exact hmade.named_lent hdiffer hclear hmem hname hearlier

end PageManifest.Yaml

namespace PageManifest.Yaml

/-! ## Places -/

/-- A node is at a place of a tree. The ways to it lead through the entries that a mapping has
itself, whose names are clear. -/
inductive IsAt : List Step → Node → Node → Prop
  | here {node : Node} : IsAt [] node node
  | item {place : List Step} {items : List Node} {item node : Node} {index : Nat}
      (hitem : items[index]? = some item) (h : IsAt place item node) :
      IsAt (.item index :: place) (.sequence items) node
  | entry {place : List Step} {entries : List (Node × Node)} {entry : Node × Node} {node : Node}
      {name : String} (hentry : IsOwn entries entry) (hname : entry.1.name? = some name)
      (hclear : Clear entries name) (h : IsAt place entry.2 node) :
      IsAt (.key name :: place) (.mapping entries) node

variable {root node : Node} {place : List Step} {value : Value}

/-- What a node is read as is at the place of the node. -/
theorem IsAt.exists_at? (h : IsAt place root node) (hroot : Reads root value)
    (hdiffer : ¬ root.RepeatsKey) :
    ∃ found, value.at? place = some found ∧ Reads node found ∧ ¬ node.RepeatsKey := by
  induction h generalizing value with
  | here => exact ⟨value, rfl, hroot, hdiffer⟩
  | @item place items item node index hitem _ ih =>
    obtain ⟨values, rfl, hreads⟩ := hroot.sequence
    obtain ⟨hindex, rfl⟩ := List.getElem?_eq_some_iff.mp hitem
    have hindex' : index < values.length := by rw [← hreads.length_eq]; exact hindex
    obtain ⟨found, hfound, hnode⟩ := ih (hreads.get hindex hindex')
      fun hrepeats => hdiffer (.inItem (List.getElem_mem hindex) hrepeats)
    refine ⟨found, ?_, hnode⟩
    rw [Value.at?, List.getElem?_eq_getElem hindex', Option.bind_some]
    exact hfound
  | @entry place entries entry node name hentry hname hclear _ ih =>
    obtain ⟨fields, rfl, hmerged⟩ := hroot.exists_merged hdiffer
    obtain ⟨inner, hget, hread⟩ := hmerged.own entry name hentry hname hclear
    obtain ⟨found, hfound, hnode⟩ := ih (reads_iff.mpr hread)
      fun hrepeats => hdiffer (.inValue hentry.1 hrepeats)
    refine ⟨found, ?_, hnode⟩
    rw [Value.at?, hget, Option.bind_some]
    exact hfound

/-! ## Merge keys that cannot be resolved -/

/-- A node of a tree that is not under a merge key, be it in a key or below a tag. -/
inductive Outside (root : Node) : Node → Prop
  | root : Outside root root
  | item {items : List Node} {node : Node} (h : Outside root (.sequence items))
      (hmem : node ∈ items) : Outside root node
  | key {entries : List (Node × Node)} {entry : Node × Node} (h : Outside root (.mapping entries))
      (hmem : entry ∈ entries) : Outside root entry.1
  | value {entries : List (Node × Node)} {entry : Node × Node} (h : Outside root (.mapping entries))
      (hentry : IsOwn entries entry) : Outside root entry.2
  | tagged {tag : String} {node : Node} (h : Outside root (.tagged tag node)) : Outside root node

theorem not_reads_tagged {tag : String} {inner : Node} : ¬ Reads (.tagged tag inner) value := by
  rintro ⟨depth, resolved, hdepth, hresolved, hvalue⟩
  rw [depth_tagged] at hdepth
  obtain ⟨depth, rfl⟩ := Nat.exists_eq_add_of_lt hdepth
  rw [resolveMergesTo] at hresolved
  obtain ⟨_, -, hresolved⟩ := bind_eq_ok.mp hresolved
  cases hresolved
  cases hvalue

/-- If all is read, each part of a tree outside of merge keys is, or it is a key with a name. -/
theorem Outside.reads_or_named (h : Outside root node) (hroot : Reads root value)
    (hdiffer : ¬ root.RepeatsKey) :
    ((∃ found, Reads node found) ∨ ∃ name, node.name? = some name) ∧ ¬ node.RepeatsKey := by
  induction h with
  | root => exact ⟨Or.inl ⟨value, hroot⟩, hdiffer⟩
  | item _ hmem ih =>
    obtain ⟨⟨found, hreads⟩ | ⟨name, hname⟩, hdiffer⟩ := ih
    · obtain ⟨values, -, hvalues⟩ := hreads.sequence
      obtain ⟨inner, -, hinner⟩ := exists_of_mem_of_forall₂ hvalues.flip hmem
      exact ⟨Or.inl ⟨inner, hinner⟩, fun hrepeats => hdiffer (.inItem hmem hrepeats)⟩
    · cases hname
  | @key entries entry _ hmem ih =>
    obtain ⟨⟨found, hreads⟩ | ⟨name, hname⟩, hdiffer⟩ := ih
    · refine ⟨Or.inr ?_, fun hrepeats => hdiffer (.inKey hmem hrepeats)⟩
      obtain ⟨fields, -, hmerged⟩ := hreads.exists_merged hdiffer
      by_cases hkey : entry.1 = mergeKey
      · exact ⟨"<<", by rw [hkey]; rfl⟩
      · exact hmerged.named entry.1 (.own ⟨hmem, hkey⟩)
    · cases hname
  | @value entries entry _ hentry ih =>
    obtain ⟨⟨found, hreads⟩ | ⟨name, hname⟩, hdiffer⟩ := ih
    · exact ⟨Or.inl (hreads.exists_own hdiffer hentry),
        fun hrepeats => hdiffer (.inValue hentry.1 hrepeats)⟩
    · cases hname
  | tagged _ ih =>
    obtain ⟨⟨found, hreads⟩ | ⟨name, hname⟩, hdiffer⟩ := ih
    · exact absurd hreads not_reads_tagged
    · exact ⟨Or.inr ⟨name, hname⟩, fun hrepeats => hdiffer (.inTagged hrepeats)⟩

/-- If all is read, what is under a merge key is a mapping or a sequence of mappings. -/
theorem Outside.exists_lenders {entries : List (Node × Node)} {source : Node}
    (h : Outside root (.mapping entries)) (hsource : (mergeKey, source) ∈ entries)
    (hroot : Reads root value) (hdiffer : ¬ root.RepeatsKey) :
    ∃ lenders, Lenders source lenders := by
  obtain ⟨⟨found, hreads⟩ | ⟨name, hname⟩, hdiffer⟩ := h.reads_or_named hroot hdiffer
  · obtain ⟨merged, written, hmerged, -, -⟩ := hreads.mapping
    rcases mergeEntries_cases hmerged with
      ⟨hnone, rfl⟩ | ⟨front, other, behind, lenders, rfl, hfront, hlenders, -⟩
    · exact absurd (List.mem_map_of_mem hsource) hnone
    · rw [List.mem_append, List.mem_cons] at hsource
      rcases hsource with hsource | hsource | hsource
      · exact absurd (List.mem_map_of_mem hsource) hfront
      · cases hsource
        exact ⟨lenders, mergeSources_eq_ok_iff.mp hlenders⟩
      · exact absurd (List.mem_map_of_mem hsource) (mergeKey_notMem_behind hdiffer)
  · cases hname

end PageManifest.Yaml
