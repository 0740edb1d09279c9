import PageManifest.Proofs.General
import PageManifest.Proofs.OrderedMap
import PageManifest.Proofs.Value.Places
import PageManifest.Proofs.Yaml.Spelling

/-!
# Resolved merges

The entries of a mapping are those that are written, with the last one in the place of the merge
key, and then the ones that are lent (`MergedAs`). A merge is resolved once, so a mapping that is
lent with a merge key of its own leaves it behind (`mergeKey_mem_names_iff`).

What is kept of a tree (`Kept`) and what is found in the value that is read from it
(`Value.Within`) are the two sides of one relation, `Becomes`. Along it keys keep their places, but
for the last one behind a merge key (`Arranged`).
-/

namespace PageManifest.Yaml

/-! ## Names of keys -/

/-- The name that a key has in a value; tags around it do not count. -/
def Node.name? (key : Node) : Option String :=
  match key.untagged with
  | .string text => some text
  | _ => none

/-- The names of the keys of some entries, in order. -/
def names (entries : List (Node × Node)) : List String :=
  entries.filterMap fun entry => entry.1.name?

theorem keyText_eq_ok_iff {wanted : Wanted} {key : Node} {text : String} :
    keyText wanted key = .ok text ↔ key.name? = some text := by
  unfold keyText Node.name?
  cases key.untagged with
  | string name => simp
  | _ => simp

theorem beq_mergeKey_iff {key : Node} : (key == mergeKey) = true ↔ key = mergeKey := by
  change key.same (.string "<<") = true ↔ key = .string "<<"
  cases key with
  | string text => simp [Node.same]
  | _ => simp [Node.same]

/-- A key that has a name is the same as itself. -/
theorem beq_self_of_name {key : Node} {text : String} (h : key.name? = some text) :
    (key == key) = true := by
  change key.same key = true
  match key with
  | .string _ => simp [Node.same]
  | .tagged tag inner =>
    have hinner : inner.name? = some text := h
    have hsame : inner.same inner = true := beq_self_of_name hinner
    simp [Node.same, hsame]
  | .null | .bool _ | .int _ | .float _ | .sequence _ | .mapping _ => cases h

/-- Keys that are the same have one name. -/
theorem name?_of_beq {key other : Node} {text : String} (hsame : (other == key) = true)
    (h : key.name? = some text) : other.name? = some text := by
  change other.same key = true at hsame
  match key with
  | .string _ =>
    cases other with
    | string name =>
      rw [Node.same, beq_iff_eq] at hsame
      exact hsame ▸ h
    | _ => simp [Node.same] at hsame
  | .tagged tag inner =>
    cases other with
    | tagged tag' inner' =>
      rw [Node.same, Bool.and_eq_true] at hsame
      have hinner : inner.name? = some text := h
      have hother : inner'.name? = some text := name?_of_beq hsame.2 hinner
      exact hother
    | _ => simp [Node.same] at hsame
  | .null | .bool _ | .int _ | .float _ | .sequence _ | .mapping _ => cases h

theorem name?_of_beq_right {key other : Node} {text : String} (hsame : (other == key) = true)
    (h : other.name? = some text) : key.name? = some text := by
  change other.same key = true at hsame
  match other with
  | .string _ =>
    cases key with
    | string name =>
      rw [Node.same, beq_iff_eq] at hsame
      exact hsame ▸ h
    | _ => simp [Node.same] at hsame
  | .tagged tag inner =>
    cases key with
    | tagged tag' inner' =>
      rw [Node.same, Bool.and_eq_true] at hsame
      have hinner : inner.name? = some text := h
      have hkey : inner'.name? = some text := name?_of_beq_right hsame.2 hinner
      exact hkey
    | _ => simp [Node.same] at hsame
  | .null | .bool _ | .int _ | .float _ | .sequence _ | .mapping _ => cases h

theorem mem_names_iff {entries : List (Node × Node)} {text : String} :
    text ∈ names entries ↔ ∃ key ∈ OrderedMap.keys entries, key.name? = some text := by
  simp [names, OrderedMap.keys]

/-! ## The entries of a mapping -/

variable {entries merged lender : List (Node × Node)} {entry : Node × Node} {key node source : Node}

/-- A mapping that a merge key lends, being there itself or as an item. -/
inductive Lends : Node → List (Node × Node) → Prop
  | itself {lender : List (Node × Node)} : Lends (.mapping lender) lender
  | item {items : List Node} {lender : List (Node × Node)} (hmem : .mapping lender ∈ items) :
      Lends (.sequence items) lender

theorem lends_of_mem_mergeSources {sources : List (List (Node × Node))}
    (h : mergeSources source = .ok sources) (hmem : lender ∈ sources) : Lends source lender := by
  unfold mergeSources at h
  split at h
  · cases h
    cases List.mem_singleton.mp hmem
    exact .itself
  · rename_i items
    obtain ⟨item, hitem, hlender⟩ := exists_of_mem_of_forall₂ (forall₂_of_mapM h) hmem
    split at hlender
    · cases hlender
      exact .item hitem
    · cases hlender
    · cases hlender
    · cases hlender
  · cases h
  · cases h

theorem mem_mergeSources_of_lends {sources : List (List (Node × Node))}
    (h : mergeSources source = .ok sources) (hlender : Lends source lender) : lender ∈ sources := by
  cases hlender with
  | itself =>
    cases h
    exact List.mem_singleton_self _
  | item hmem =>
    obtain ⟨entries, hentries, hlender⟩ :=
      exists_of_mem_of_forall₂ (forall₂_of_mapM h).flip hmem
    cases hlender
    exact hentries

/-- The entries of a mapping, and those that it has once its own merge key is resolved. -/
inductive MergedAs (entries : List (Node × Node)) : List (Node × Node) → Prop
  | written (hnone : mergeKey ∉ OrderedMap.keys entries) : MergedAs entries entries
  | lent {front behind lent : List (Node × Node)} {source : Node}
      {sources : List (List (Node × Node))} (hentries : entries = front ++ (mergeKey, source) :: behind)
      (hfront : mergeKey ∉ OrderedMap.keys front) (hsources : mergeSources source = .ok sources)
      (hlent : lent.Sublist sources.flatten)
      (hall : ∀ lender ∈ sources, ∀ key ∈ OrderedMap.keys lender, (key == key) = true →
        ∃ found ∈ OrderedMap.keys (front ++ behind.rotateRight ++ lent), (found == key) = true) :
      MergedAs entries (front ++ behind.rotateRight ++ lent)

theorem mergeKey_notMem_iff :
    mergeKey ∉ OrderedMap.keys entries ↔ ∀ entry ∈ entries, (entry.1 == mergeKey) = false := by
  simp only [OrderedMap.keys, List.mem_map, not_exists, not_and, Bool.eq_false_iff, ne_eq,
    beq_mergeKey_iff]

/-- What there is once the own merge key is resolved: all that is written, or what is around the
merge key with all that is missing of its sources behind it. -/
theorem mergeEntries_cases (h : mergeEntries entries = .ok merged) :
    mergeKey ∉ OrderedMap.keys entries ∧ merged = entries ∨
      ∃ front source behind sources, entries = front ++ (mergeKey, source) :: behind ∧
        mergeKey ∉ OrderedMap.keys front ∧ mergeSources source = .ok sources ∧
        merged = OrderedMap.addMissing (front ++ behind.rotateRight) sources.flatten := by
  unfold mergeEntries at h
  split at h
  · rename_i hnone
    cases h
    refine Or.inl ⟨mergeKey_notMem_iff.mpr fun entry hentry => ?_, rfl⟩
    refine Bool.eq_false_iff.mpr fun hkey => ?_
    have hthere : OrderedMap.hasKey entries mergeKey = true :=
      OrderedMap.hasKey_eq_true_iff.mpr ⟨entry.1, List.mem_map_of_mem hentry, hkey⟩
    rw [OrderedMap.hasKey, hnone] at hthere
    cases hthere
  · rename_i source hsource
    obtain ⟨sources, hsources, h⟩ := bind_eq_ok.mp h
    cases h
    obtain ⟨front, found, behind, rfl, hfound, hfront⟩ := OrderedMap.exists_append_of_get? hsource
    refine Or.inr ⟨front, source, behind, sources, by rw [beq_mergeKey_iff.mp hfound],
      mergeKey_notMem_iff.mpr hfront, hsources, ?_⟩
    rw [OrderedMap.foldl_addMissing, OrderedMap.swapRemove_append source hfront hfound]

theorem mergedAs_of_mergeEntries (h : mergeEntries entries = .ok merged) :
    MergedAs entries merged := by
  rcases mergeEntries_cases h with
    ⟨hnone, rfl⟩ | ⟨front, source, behind, sources, hentries, hfront, hsources, rfl⟩
  · exact .written hnone
  · obtain ⟨lent, hlent, hsublist⟩ :=
      OrderedMap.exists_addMissing_eq (front ++ behind.rotateRight) sources.flatten
    rw [hlent]
    refine .lent hentries hfront hsources hsublist ?_
    intro lender hlender key hkey hself
    rw [← hlent, ← OrderedMap.foldl_addMissing]
    exact OrderedMap.exists_key_foldl_addMissing _ hself hlender hkey

/-- Each entry is one that is written or one that is lent. -/
theorem MergedAs.mem_cases (h : MergedAs entries merged) (hmem : entry ∈ merged) :
    entry ∈ entries ∨
      ∃ source lender, (mergeKey, source) ∈ entries ∧ Lends source lender ∧ entry ∈ lender := by
  cases h with
  | written hnone => exact Or.inl hmem
  | lent hentries hfront hsources hlent hall =>
    subst hentries
    rcases List.mem_append.mp hmem with hmem | hmem
    · left
      rcases List.mem_append.mp hmem with hmem | hmem
      · exact List.mem_append_left _ hmem
      · rw [OrderedMap.mem_rotateRight] at hmem
        exact List.mem_append_right _ (List.mem_cons_of_mem _ hmem)
    · right
      obtain ⟨lender, hlender, hmem⟩ := List.mem_flatten.mp (hlent.subset hmem)
      exact ⟨_, lender, by simp, lends_of_mem_mergeSources hsources hlender, hmem⟩

/-! ## Merge keys that stay -/

/-- What leaves a key `<<` in a mapping: a mapping that is lent has one, be it a merge key or not,
or it has a tag, so that it asks for no merge. -/
inductive LeavesMergeKey (entries : List (Node × Node)) : Prop
  | lent {source : Node} {lender : List (Node × Node)}
      (hsource : OrderedMap.get? entries mergeKey = some source) (hlender : Lends source lender)
      (hname : "<<" ∈ names lender)
  | tagged {key : Node} (hkey : key ∈ OrderedMap.keys entries) (hname : key.name? = some "<<")
      (hother : key ≠ mergeKey)

theorem mem_names_of_keys {entries other : List (Node × Node)} {text : String}
    (h : ∀ key ∈ OrderedMap.keys entries, (key == key) = true →
      ∃ found ∈ OrderedMap.keys other, (found == key) = true)
    (hmem : text ∈ names entries) : text ∈ names other := by
  obtain ⟨key, hkey, hname⟩ := mem_names_iff.mp hmem
  obtain ⟨found, hfound, hsame⟩ := h key hkey (beq_self_of_name hname)
  exact mem_names_iff.mpr ⟨found, hfound, name?_of_beq hsame hname⟩

theorem mergeKey_notMem_behind {front behind : List (Node × Node)}
    (hdiffer : ¬ (Node.mapping (front ++ (mergeKey, source) :: behind)).RepeatsKey) :
    mergeKey ∉ OrderedMap.keys behind := by
  intro hmem
  have htwice : [mergeKey, mergeKey].Sublist
      (OrderedMap.keys (front ++ (mergeKey, source) :: behind)) := by
    rw [OrderedMap.keys, List.map_append, List.map_cons]
    have hlater : [mergeKey].Sublist (OrderedMap.keys behind) := List.singleton_sublist.mpr hmem
    exact List.sublist_append_of_sublist_right (hlater.cons_cons mergeKey)
  exact hdiffer (.here htwice (beq_mergeKey_iff.mpr rfl))

theorem get?_mergeKey {front behind : List (Node × Node)}
    (hfront : mergeKey ∉ OrderedMap.keys front) :
    OrderedMap.get? (front ++ (mergeKey, source) :: behind) mergeKey = some source := by
  rw [OrderedMap.get?_append_of_notMem (mergeKey_notMem_iff.mp hfront), OrderedMap.get?_cons,
    if_pos (beq_mergeKey_iff.mpr rfl)]

/-- A key `<<` is there once merges are resolved just if something leaves it. -/
theorem mergeKey_mem_names_iff (h : MergedAs entries merged)
    (hdiffer : ¬ (Node.mapping entries).RepeatsKey) :
    "<<" ∈ names merged ↔ LeavesMergeKey entries := by
  cases h with
  | written hnone =>
    rw [mem_names_iff]
    constructor
    · rintro ⟨key, hkey, hname⟩
      exact .tagged hkey hname fun heq => hnone (heq ▸ hkey)
    · rintro (⟨hsource, hlender, hname⟩ | ⟨hkey, hname, hother⟩)
      · obtain ⟨front, found, behind, rfl, hfound, -⟩ := OrderedMap.exists_append_of_get? hsource
        cases beq_mergeKey_iff.mp hfound
        exact absurd (by simp [OrderedMap.keys]) hnone
      · exact ⟨_, hkey, hname⟩
  | @lent front behind lent source sources hentries hfront hsources hlent hall =>
    subst hentries
    have hbehind := mergeKey_notMem_behind hdiffer
    constructor
    · intro hmem
      obtain ⟨key, hkey, hname⟩ := mem_names_iff.mp hmem
      obtain ⟨entry, hentry, rfl⟩ := List.mem_map.mp hkey
      rcases List.mem_append.mp hentry with hentry | hentry
      · rw [List.mem_append, OrderedMap.mem_rotateRight] at hentry
        have hother : entry.1 ≠ mergeKey := by
          intro heq
          rcases hentry with hentry | hentry
          · exact hfront (heq ▸ List.mem_map_of_mem hentry)
          · exact hbehind (heq ▸ List.mem_map_of_mem hentry)
        have hthere : entry ∈ front ++ (mergeKey, source) :: behind :=
          List.mem_append.mpr (hentry.imp_right (List.mem_cons_of_mem _))
        exact .tagged (List.mem_map_of_mem hthere) hname hother
      · obtain ⟨lender, hlender, hentry⟩ := List.mem_flatten.mp (hlent.subset hentry)
        exact .lent (get?_mergeKey hfront) (lends_of_mem_mergeSources hsources hlender)
          (mem_names_iff.mpr ⟨entry.1, List.mem_map_of_mem hentry, hname⟩)
    · rintro (⟨hsource, hlender, hname⟩ | ⟨hkey, hname, hother⟩)
      · rw [get?_mergeKey hfront] at hsource
        cases hsource
        exact mem_names_of_keys (hall _ (mem_mergeSources_of_lends hsources hlender)) hname
      · refine mem_names_iff.mpr ⟨_, ?_, hname⟩
        obtain ⟨entry, hentry, rfl⟩ := List.mem_map.mp hkey
        refine List.mem_map_of_mem (List.mem_append_left _ ?_)
        rw [List.mem_append, OrderedMap.mem_rotateRight]
        rcases List.mem_append.mp hentry with hentry | hentry
        · exact Or.inl hentry
        · rcases List.mem_cons.mp hentry with rfl | hentry
          · exact absurd rfl hother
          · exact Or.inr hentry

/-! ## Nodes that are read -/

variable {value : Value}

theorem depth_sequence (items : List Node) :
    (Node.sequence items).depth = Node.depthItems items + 1 := rfl

theorem depth_mapping (entries : List (Node × Node)) :
    (Node.mapping entries).depth = Node.depthEntries entries + 1 := rfl

theorem depth_tagged (tag : String) (node : Node) :
    (Node.tagged tag node).depth = node.depth + 1 := rfl

theorem depth_le_of_mem_items {items : List Node} (h : node ∈ items) :
    node.depth ≤ Node.depthItems items := by
  induction items with
  | nil => cases h
  | cons item items ih =>
    rw [Node.depthItems]
    rcases List.mem_cons.mp h with rfl | h
    · exact Nat.le_max_left _ _
    · exact Nat.le_trans (ih h) (Nat.le_max_right _ _)

theorem depth_le_of_mem_entries (h : entry ∈ entries) :
    entry.2.depth ≤ Node.depthEntries entries := by
  induction entries with
  | nil => cases h
  | cons first entries ih =>
    obtain ⟨key, item⟩ := first
    rw [Node.depthEntries]
    rcases List.mem_cons.mp h with rfl | h
    · exact Nat.le_trans (Nat.le_max_right _ _) (Nat.le_max_left _ _)
    · exact Nat.le_trans (ih h) (Nat.le_max_right _ _)

theorem depth_le_of_lends (h : Lends source lender) :
    Node.depthEntries lender ≤ source.depth := by
  cases h with
  | itself => exact Nat.le_succ _
  | item hmem =>
    have hitem := depth_le_of_mem_items hmem
    rw [depth_mapping] at hitem
    rw [depth_sequence]
    omega

theorem MergedAs.depth_le (h : MergedAs entries merged) (hmem : entry ∈ merged) :
    entry.2.depth ≤ Node.depthEntries entries := by
  rcases h.mem_cases hmem with hmem | ⟨source, lender, hsource, hlender, hmem⟩
  · exact depth_le_of_mem_entries hmem
  · calc entry.2.depth ≤ Node.depthEntries lender := depth_le_of_mem_entries hmem
      _ ≤ source.depth := depth_le_of_lends hlender
      _ ≤ Node.depthEntries entries := depth_le_of_mem_entries hsource

theorem MergedAs.not_repeatsKey (h : MergedAs entries merged) (hmem : entry ∈ merged)
    (hdiffer : ¬ (Node.mapping entries).RepeatsKey) : ¬ entry.2.RepeatsKey := by
  intro hrepeats
  rcases h.mem_cases hmem with hmem | ⟨source, lender, hsource, hlender, hmem⟩
  · exact hdiffer (.inValue hmem hrepeats)
  · refine hdiffer (.inValue hsource ?_)
    cases hlender with
    | itself => exact .inValue hmem hrepeats
    | item hitem => exact .inItem hitem (.inValue hmem hrepeats)

/-- A node is read as a value: its merge keys are resolved all the way down, and what it is then
has the value. -/
def Reads (node : Node) (value : Value) : Prop :=
  ∃ depth resolved, node.depth ≤ depth ∧ resolveMergesTo depth node = .ok resolved ∧
    resolved.toValue = .ok value

/-- An entry is read as a field. -/
def ReadsField (entry : Node × Node) (field : String × Value) : Prop :=
  entry.1.name? = some field.1 ∧ Reads entry.2 field.2

theorem forall₂_of_mapLastFirst {α β ε : Type} {f : α → Except ε β} {xs : List α} {ys : List β}
    (h : mapLastFirst f xs = .ok ys) : List.Forall₂ (fun x y => f x = .ok y) xs ys := by
  induction xs generalizing ys with
  | nil =>
    cases h
    exact .nil
  | cons x xs ih =>
    obtain ⟨others, hothers, h⟩ := bind_eq_ok.mp h
    obtain ⟨y, hy, h⟩ := bind_eq_ok.mp h
    cases h
    exact .cons hy (ih hothers)

theorem forall₂_of_toItems {items : List Node} {values : List Value}
    (h : Node.toItems items = .ok values) :
    List.Forall₂ (fun item value => item.toValue = .ok value) items values := by
  induction items generalizing values with
  | nil =>
    cases h
    exact .nil
  | cons item items ih =>
    obtain ⟨value, hvalue, h⟩ := bind_eq_ok.mp h
    obtain ⟨others, hothers, h⟩ := bind_eq_ok.mp h
    cases h
    exact .cons hvalue (ih hothers)

theorem forall₂_of_toEntries {wanted : Wanted} {fields : List (String × Value)}
    (h : Node.toEntries wanted entries = .ok fields) :
    List.Forall₂ (fun entry field => entry.1.name? = some field.1 ∧
      entry.2.toValue = .ok field.2) entries fields := by
  induction entries generalizing wanted fields with
  | nil =>
    cases h
    exact .nil
  | cons entry entries ih =>
    obtain ⟨text, htext, h⟩ := bind_eq_ok.mp h
    obtain ⟨value, hvalue, h⟩ := bind_eq_ok.mp h
    obtain ⟨others, hothers, h⟩ := bind_eq_ok.mp h
    cases h
    exact .cons ⟨keyText_eq_ok_iff.mp htext, hvalue⟩ (ih hothers)

theorem exists_reads_of_read {text : String} (h : read text = .ok value) :
    ∃ root, Spelled text root ∧ ¬ root.RepeatsKey ∧ Reads root value := by
  obtain ⟨root, hroot, h⟩ := bind_eq_ok.mp h
  obtain ⟨-, -, hspells, hdiffer⟩ := spells_of_build hroot
  refine ⟨root, hspells, hdiffer, ?_⟩
  split at h
  · rename_i resolved hresolved
    exact ⟨root.depth, resolved, Nat.le_refl _, hresolved, h⟩
  · cases h

theorem Reads.sequence {items : List Node} (h : Reads (.sequence items) value) :
    ∃ values, value = .sequence values ∧ List.Forall₂ Reads items values := by
  obtain ⟨depth, resolved, hdepth, hresolved, hvalue⟩ := h
  rw [depth_sequence] at hdepth
  obtain ⟨depth, rfl⟩ := Nat.exists_eq_add_of_lt hdepth
  rw [resolveMergesTo] at hresolved
  obtain ⟨nodes, hnodes, hresolved⟩ := bind_eq_ok.mp hresolved
  cases hresolved
  obtain ⟨values, hvalues, hvalue⟩ := bind_eq_ok.mp hvalue
  cases hvalue
  refine ⟨values, rfl, forall₂_comp (forall₂_of_mapLastFirst hnodes) (forall₂_of_toItems hvalues) ?_⟩
  intro item hitem node value hnode hvalue
  have hle := depth_le_of_mem_items hitem
  exact ⟨_, node, by omega, hnode, hvalue⟩

theorem Reads.mapping (h : Reads (.mapping entries) value) :
    ∃ merged fields, mergeEntries entries = .ok merged ∧ List.Forall₂ ReadsField merged fields ∧
      value = .mapping (OrderedMap.ofEntries fields) := by
  obtain ⟨depth, resolved, hdepth, hresolved, hvalue⟩ := h
  rw [depth_mapping] at hdepth
  obtain ⟨depth, rfl⟩ := Nat.exists_eq_add_of_lt hdepth
  rw [resolveMergesTo] at hresolved
  obtain ⟨merged, hmerged, hresolved⟩ := bind_eq_ok.mp hresolved
  obtain ⟨nodes, hnodes, hresolved⟩ := bind_eq_ok.mp hresolved
  cases hresolved
  obtain ⟨fields, hfields, hvalue⟩ := bind_eq_ok.mp hvalue
  cases hvalue
  refine ⟨merged, fields, hmerged,
    forall₂_comp (forall₂_of_mapLastFirst hnodes) (forall₂_of_toEntries hfields) ?_, rfl⟩
  intro entry hentry node field hnode hfield
  have hle := (mergedAs_of_mergeEntries hmerged).depth_le hentry
  cases hinner : resolveMergesTo (Node.depthEntries entries + depth) entry.2 with
  | ok inner =>
    rw [hinner] at hnode
    cases hnode
    exact ⟨hfield.1, _, inner, by omega, hinner, hfield.2⟩
  | error fault =>
    rw [hinner] at hnode
    cases hnode

theorem Reads.scalar (h : Reads node value) (hitems : ∀ items, node ≠ .sequence items)
    (hentries : ∀ entries, node ≠ .mapping entries) : value.IsScalar := by
  obtain ⟨depth, resolved, hdepth, hresolved, hvalue⟩ := h
  cases node with
  | sequence items => exact absurd rfl (hitems items)
  | mapping entries => exact absurd rfl (hentries entries)
  | tagged tag inner =>
    rw [depth_tagged] at hdepth
    obtain ⟨depth, rfl⟩ := Nat.exists_eq_add_of_lt hdepth
    rw [resolveMergesTo] at hresolved
    obtain ⟨_, -, hresolved⟩ := bind_eq_ok.mp hresolved
    cases hresolved
    cases hvalue
  | float x =>
    have hsame : resolved = .float x := by
      cases depth with
      | zero => exact (Except.ok.inj hresolved).symm
      | succ depth => exact (Except.ok.inj hresolved).symm
    subst hsame
    cases hvalue
    split
    · trivial
    · trivial
  | _ =>
    cases depth with
    | zero =>
      cases hresolved
      cases hvalue
      trivial
    | succ depth =>
      cases hresolved
      cases hvalue
      trivial

/-- Only a sequence is read as one. -/
theorem Reads.of_sequence {values : List Value} (h : Reads node (.sequence values)) :
    ∃ items, node = .sequence items ∧ List.Forall₂ Reads items values := by
  by_cases hitems : ∃ items, node = .sequence items
  · obtain ⟨items, rfl⟩ := hitems
    obtain ⟨_, heq, hvalues⟩ := h.sequence
    cases heq
    exact ⟨items, rfl, hvalues⟩
  · by_cases hentries : ∃ entries, node = .mapping entries
    · obtain ⟨entries, rfl⟩ := hentries
      obtain ⟨_, _, -, -, heq⟩ := h.mapping
      cases heq
    · exact (h.scalar (not_exists.mp hitems) (not_exists.mp hentries)).elim

/-- Only a mapping is read as one. -/
theorem Reads.of_mapping {fields : List (String × Value)} (h : Reads node (.mapping fields)) :
    ∃ entries, node = .mapping entries := by
  by_cases hentries : ∃ entries, node = .mapping entries
  · exact hentries
  · by_cases hitems : ∃ items, node = .sequence items
    · obtain ⟨items, rfl⟩ := hitems
      obtain ⟨_, heq, -⟩ := h.sequence
      cases heq
    · exact (h.scalar (not_exists.mp hitems) (not_exists.mp hentries)).elim

/-! ## What is kept and what becomes of it -/

/-- An entry of a mapping is the last one of its name. -/
def IsLast (entries : List (Node × Node)) (entry : Node × Node) : Prop :=
  ∃ front behind, entries = front ++ entry :: behind ∧
    ∀ other ∈ behind, other.1.name? ≠ entry.1.name?

/-- The nodes of a tree that are not left out: those under a merge key are, and those under a key
that comes again with another tag. What a mapping is lent counts as its own. -/
inductive Kept (root : Node) : Node → Prop
  | root : Kept root root
  | item {items : List Node} {node : Node} (h : Kept root (.sequence items)) (hmem : node ∈ items) :
      Kept root node
  | entry {entries merged : List (Node × Node)} {entry : Node × Node}
      (h : Kept root (.mapping entries)) (hmerged : mergeEntries entries = .ok merged)
      (hlast : IsLast merged entry) : Kept root entry.2

end PageManifest.Yaml

namespace PageManifest

/-- A value within another one, which counts as within itself. -/
inductive Value.Within (whole : Value) : Value → Prop
  | self : Within whole whole
  | item {items : List Value} {item : Value} (h : Within whole (.sequence items))
      (hmem : item ∈ items) : Within whole item
  | field {fields : List (String × Value)} {field : String × Value}
      (h : Within whole (.mapping fields)) (hmem : field ∈ fields) : Within whole field.2

namespace Yaml

variable {entries merged lender : List (Node × Node)} {root node : Node} {whole value : Value}

/-- A node of a tree becomes a value within the value of the tree: they are in the same place. -/
inductive Becomes (root : Node) (whole : Value) : Node → Value → Prop
  | root : Becomes root whole root whole
  | item {items : List Node} {values : List Value} {index : Nat} {node : Node} {value : Value}
      (h : Becomes root whole (.sequence items) (.sequence values))
      (hnode : items[index]? = some node) (hvalue : values[index]? = some value) :
      Becomes root whole node value
  | entry {entries merged : List (Node × Node)} {fields : List (String × Value)}
      {entry : Node × Node} {field : String × Value}
      (h : Becomes root whole (.mapping entries) (.mapping fields))
      (hmerged : mergeEntries entries = .ok merged) (hlast : IsLast merged entry)
      (hname : entry.1.name? = some field.1) (hmem : field ∈ fields) :
      Becomes root whole entry.2 field.2

variable {written : List (String × Value)}

theorem names_of_readsField (h : List.Forall₂ ReadsField merged written) :
    names merged = OrderedMap.keys written := by
  induction h with
  | nil => rfl
  | cons hread _ ih =>
    rw [names, List.filterMap_cons, hread.1, ← names, ih]
    rfl

/-- A field that stays comes from the last entry of its name. -/
theorem exists_isLast_of_mem {field : String × Value}
    (hfields : List.Forall₂ ReadsField merged written)
    (hmem : field ∈ OrderedMap.ofEntries written) :
    ∃ entry, IsLast merged entry ∧ ReadsField entry field := by
  obtain ⟨front, behind, rfl, hbehind⟩ := OrderedMap.mem_ofEntries_iff.mp hmem
  obtain ⟨front', entry, behind', rfl, hread, hreads⟩ := forall₂_append_cons_right hfields
  refine ⟨entry, ⟨front', behind', rfl, ?_⟩, hread⟩
  intro other hother heq
  refine hbehind ?_
  rw [← names_of_readsField hreads]
  exact mem_names_iff.mpr ⟨other.1, List.mem_map_of_mem hother, heq.trans hread.1⟩

/-- The last entry of a name gives the field that stays. -/
theorem exists_mem_of_isLast {entry : Node × Node}
    (hfields : List.Forall₂ ReadsField merged written) (hlast : IsLast merged entry) :
    ∃ field ∈ OrderedMap.ofEntries written, ReadsField entry field := by
  obtain ⟨front, behind, rfl, hbehind⟩ := hlast
  obtain ⟨front', field, behind', rfl, hread, hreads⟩ := forall₂_append_cons_right hfields.flip
  refine ⟨field, OrderedMap.mem_ofEntries_iff.mpr ⟨front', behind', rfl, ?_⟩, hread⟩
  intro hmem
  rw [← names_of_readsField hreads.flip] at hmem
  obtain ⟨key, hkey, hname⟩ := mem_names_iff.mp hmem
  obtain ⟨other, hother, rfl⟩ := List.mem_map.mp hkey
  exact hbehind other hother (hname.trans hread.1.symm)

/-- What a node becomes is what it is read as. -/
theorem Becomes.reads (h : Becomes root whole node value) (hroot : Reads root whole) :
    Reads node value := by
  induction h with
  | root => exact hroot
  | item _ hnode hvalue ih =>
    obtain ⟨values, heq, hreads⟩ := ih.sequence
    cases heq
    obtain ⟨hindex, rfl⟩ := List.getElem?_eq_some_iff.mp hnode
    obtain ⟨hindex', rfl⟩ := List.getElem?_eq_some_iff.mp hvalue
    exact hreads.get hindex hindex'
  | @entry entries merged fields entry field _ hmerged hlast hname hmem ih =>
    obtain ⟨_, written, hmerged', hreads, heq⟩ := ih.mapping
    rw [hmerged] at hmerged'
    cases hmerged'
    cases heq
    obtain ⟨other, hother, hread⟩ := exists_mem_of_isLast hreads hlast
    have hsame : other.1 = field.1 := Option.some.inj (hread.1.symm.trans hname)
    have hnodup := OrderedMap.nodup_ofEntries written
    have hget := OrderedMap.get?_eq_some_of_mem hnodup hmem
    rw [← hsame, OrderedMap.get?_eq_some_of_mem hnodup hother] at hget
    rw [← Option.some.inj hget]
    exact hread.2

theorem Becomes.kept (h : Becomes root whole node value) : Kept root node := by
  induction h with
  | root => exact .root
  | item _ hnode _ ih => exact .item ih (List.mem_of_getElem? hnode)
  | entry _ hmerged hlast _ _ ih => exact .entry ih hmerged hlast

/-- Every value that is found comes from a node that is kept. -/
theorem exists_becomes_of_within (hroot : Reads root whole) (h : whole.Within value) :
    ∃ node, Becomes root whole node value := by
  induction h with
  | self => exact ⟨root, .root⟩
  | item _ hmem ih =>
    obtain ⟨node, hnode⟩ := ih
    obtain ⟨items, rfl, hreads⟩ := (hnode.reads hroot).of_sequence
    obtain ⟨index, hindex, rfl⟩ := List.mem_iff_getElem.mp hmem
    have hindex' : index < items.length := by rw [hreads.length_eq]; exact hindex
    exact ⟨items[index], .item hnode (List.getElem?_eq_getElem hindex')
      (List.getElem?_eq_getElem hindex)⟩
  | field _ hmem ih =>
    obtain ⟨node, hnode⟩ := ih
    obtain ⟨entries, rfl⟩ := (hnode.reads hroot).of_mapping
    obtain ⟨merged, written, hmerged, hreads, heq⟩ := (hnode.reads hroot).mapping
    cases heq
    obtain ⟨entry, hlast, hread⟩ := exists_isLast_of_mem hreads hmem
    exact ⟨entry.2, .entry hnode hmerged hlast hread.1 hmem⟩

/-- Every node that is kept becomes a value. -/
theorem exists_becomes_of_kept (hroot : Reads root whole) (h : Kept root node) :
    ∃ value, Becomes root whole node value := by
  induction h with
  | root => exact ⟨whole, .root⟩
  | item _ hmem ih =>
    obtain ⟨value, hvalue⟩ := ih
    obtain ⟨values, rfl, hreads⟩ := (hvalue.reads hroot).sequence
    obtain ⟨index, hindex, rfl⟩ := List.mem_iff_getElem.mp hmem
    have hindex' : index < values.length := by rw [← hreads.length_eq]; exact hindex
    exact ⟨values[index], .item hvalue (List.getElem?_eq_getElem hindex)
      (List.getElem?_eq_getElem hindex')⟩
  | entry _ hmerged hlast ih =>
    obtain ⟨value, hvalue⟩ := ih
    obtain ⟨_, written, hmerged', hreads, rfl⟩ := (hvalue.reads hroot).mapping
    rw [hmerged] at hmerged'
    cases hmerged'
    obtain ⟨field, hmem, hread⟩ := exists_mem_of_isLast hreads hlast
    exact ⟨field.2, .entry hvalue hmerged hlast hread.1 hmem⟩

theorem Kept.not_repeatsKey (h : Kept root node) (hdiffer : ¬ root.RepeatsKey) :
    ¬ node.RepeatsKey := by
  induction h with
  | root => exact hdiffer
  | item _ hmem ih => exact fun hrepeats => ih (.inItem hmem hrepeats)
  | entry _ hmerged hlast ih =>
    obtain ⟨front, behind, rfl, -⟩ := hlast
    exact (mergedAs_of_mergeEntries hmerged).not_repeatsKey (by simp) ih

theorem Becomes.within (h : Becomes root whole node value) : whole.Within value := by
  induction h with
  | root => exact .self
  | item _ _ hvalue ih => exact .item ih (List.mem_of_getElem? hvalue)
  | entry _ _ _ _ hmem ih => exact .field ih hmem

theorem Kept.exists_mapping (hroot : Reads root whole) (h : Kept root (.mapping entries)) :
    ∃ fields, Becomes root whole (.mapping entries) (.mapping fields) := by
  obtain ⟨value, hvalue⟩ := exists_becomes_of_kept hroot h
  obtain ⟨_, written, -, -, rfl⟩ := (hvalue.reads hroot).mapping
  exact ⟨_, hvalue⟩

theorem exists_mapping_of_within {fields : List (String × Value)} (hroot : Reads root whole)
    (h : whole.Within (.mapping fields)) :
    ∃ entries, Becomes root whole (.mapping entries) (.mapping fields) := by
  obtain ⟨node, hbecomes⟩ := exists_becomes_of_within hroot h
  obtain ⟨entries, rfl⟩ := (hbecomes.reads hroot).of_mapping
  exact ⟨entries, hbecomes⟩

/-- A mapping has the names of its merged entries, each where it comes first. -/
theorem Becomes.exists_merged {fields : List (String × Value)} (hroot : Reads root whole)
    (h : Becomes root whole (.mapping entries) (.mapping fields)) :
    ∃ merged, MergedAs entries merged ∧ (∀ entry ∈ merged, ∃ text, entry.1.name? = some text) ∧
      OrderedMap.keys fields = (names merged).eraseDups := by
  obtain ⟨merged, written, hmerged, hreads, heq⟩ := (h.reads hroot).mapping
  cases heq
  refine ⟨merged, mergedAs_of_mergeEntries hmerged, ?_, ?_⟩
  · intro entry hentry
    obtain ⟨field, -, hread⟩ := exists_of_mem_of_forall₂ hreads.flip hentry
    exact ⟨field.1, hread.1⟩
  · rw [OrderedMap.keys_ofEntries, names_of_readsField hreads]

/-- A mapping has a key `<<` in the end just if something leaves it there. -/
theorem Becomes.mergeKey_iff {fields : List (String × Value)} (hroot : Reads root whole)
    (hdiffer : ¬ root.RepeatsKey) (h : Becomes root whole (.mapping entries) (.mapping fields)) :
    "<<" ∈ OrderedMap.keys fields ↔ LeavesMergeKey entries := by
  obtain ⟨merged, hmerged, -, hkeys⟩ := h.exists_merged hroot
  rw [hkeys, List.mem_eraseDups]
  exact mergeKey_mem_names_iff hmerged (h.kept.not_repeatsKey hdiffer)

/-! ## The order of keys -/

theorem names_append (front behind : List (Node × Node)) :
    names (front ++ behind) = names front ++ names behind := List.filterMap_append

theorem names_cons {entry : Node × Node} {text : String} (h : entry.1.name? = some text)
    (entries : List (Node × Node)) : names (entry :: entries) = text :: names entries := by
  rw [names, List.filterMap_cons, h]
  rfl

/-- The last entry that is written behind a merge key changes its place, so the written order is
kept just if there is no more than one. -/
theorem names_sublist_iff {front behind lent : List (Node × Node)}
    (hnamed : ∀ entry ∈ front ++ behind.rotateRight ++ lent, ∃ text, entry.1.name? = some text)
    (hnodup : (names (front ++ behind)).Nodup) :
    (names (front ++ behind)).Sublist (names (front ++ behind.rotateRight ++ lent)).eraseDups ↔
      behind.length ≤ 1 := by
  have hkeys : (names (front ++ behind.rotateRight ++ lent)).eraseDups =
      names (front ++ behind.rotateRight) ++
        ((names lent).removeAll (names (front ++ behind.rotateRight))).eraseDups := by
    have hperm : (names (front ++ behind.rotateRight)).Perm (names (front ++ behind)) :=
      ((OrderedMap.perm_rotateRight behind).append_left front).filterMap _
    rw [names_append, List.eraseDups_append,
      OrderedMap.eraseDups_of_nodup (hperm.nodup_iff.mpr hnodup)]
  constructor
  · intro hsublist
    rcases List.eq_nil_or_concat behind with rfl | ⟨init, last, rfl⟩
    · exact Nat.zero_le _
    rw [List.concat_eq_append, OrderedMap.rotateRight_concat] at *
    cases init with
    | nil => exact Nat.le_refl _
    | cons first init =>
      exfalso
      obtain ⟨text, htext⟩ := hnamed first (by simp)
      obtain ⟨final, hfinal⟩ := hnamed last (by simp)
      have hrotated :
          [final, text].Sublist (names (front ++ last :: first :: init ++ lent)).eraseDups := by
        rw [hkeys, names_append, names_cons hfinal, names_cons htext, List.append_assoc]
        refine List.sublist_append_of_sublist_right ?_
        simp
      have hwritten : [text, final].Sublist (names (front ++ (first :: init ++ [last]))) := by
        rw [names_append, List.cons_append, names_cons htext, names_append, names_cons hfinal]
        refine List.sublist_append_of_sublist_right ?_
        simp
      exact not_sublist_swap (OrderedMap.nodup_eraseDups _) hrotated (hwritten.trans hsublist)
  · intro hlength
    rw [hkeys, List.rotateRight, if_pos hlength]
    exact List.sublist_append_left _ _

/-- Where the keys of a mapping are in the value that it becomes. -/
inductive Arranged (entries : List (Node × Node)) : List String → Prop
  | written (hnone : mergeKey ∉ OrderedMap.keys entries) :
      Arranged entries (names entries).eraseDups
  | lent {front behind lent : List (Node × Node)} {source : Node}
      (hentries : entries = front ++ (mergeKey, source) :: behind)
      (hlent : ∀ entry ∈ lent, ∃ lender, Lends source lender ∧ entry ∈ lender)
      (horder : (names (front ++ behind)).Nodup →
        ((names (front ++ behind)).Sublist (names (front ++ behind.rotateRight ++ lent)).eraseDups ↔
          behind.length ≤ 1)) :
      Arranged entries (names (front ++ behind.rotateRight ++ lent)).eraseDups

theorem Becomes.arranged {fields : List (String × Value)} (hroot : Reads root whole)
    (h : Becomes root whole (.mapping entries) (.mapping fields)) :
    Arranged entries (OrderedMap.keys fields) := by
  obtain ⟨merged, hmerged, hnamed, hkeys⟩ := h.exists_merged hroot
  rw [hkeys]
  cases hmerged with
  | written hnone => exact .written hnone
  | lent hentries _ hsources hlent _ =>
    refine .lent hentries ?_ (names_sublist_iff hnamed)
    intro entry hentry
    obtain ⟨lender, hlender, hentry⟩ := List.mem_flatten.mp (hlent.subset hentry)
    exact ⟨lender, lends_of_mem_mergeSources hsources hlender, hentry⟩

end Yaml

end PageManifest
