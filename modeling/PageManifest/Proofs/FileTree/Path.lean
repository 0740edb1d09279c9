import PageManifest.FileTree.Basic

/-!
# Parts of paths

What the parts of a path are after it has been joined with another one or cut at its last
part. Parts are compared up to single points, which lead nowhere (`Undotted`).

* `bareSteps_join`: joining puts the parts one behind the other.
* `bareSteps_parent?`: the path above another one has its parts except for the last one.
* `toList_parent?_sublist`: the path above another one is not longer.
-/

namespace PageManifest

namespace Path

/-! ## Splitting at slashes -/

theorem splitSlashes_ne_nil (cs : List Char) : splitSlashes cs ≠ [] := by
  cases cs with
  | nil => simp [splitSlashes]
  | cons c cs =>
    simp only [splitSlashes]
    split
    · simp
    · split <;> simp

theorem splitSlashes_cons_of_ne {c : Char} (hc : c ≠ '/') {cs part : List Char}
    {parts : List (List Char)} (h : splitSlashes cs = part :: parts) :
    splitSlashes (c :: cs) = (c :: part) :: parts := by
  simp only [splitSlashes, if_neg hc, h]

/-- Every slash separates two parts. -/
theorem splitSlashes_append_slash (before behind : List Char) :
    splitSlashes (before ++ '/' :: behind) = splitSlashes before ++ splitSlashes behind := by
  induction before with
  | nil => simp [splitSlashes]
  | cons c before ih =>
    by_cases hc : c = '/'
    · subst hc
      simp only [List.cons_append, splitSlashes, if_true, ih]
    · cases hparts : splitSlashes before with
      | nil => exact absurd hparts (splitSlashes_ne_nil before)
      | cons part parts =>
        rw [hparts] at ih
        rw [List.cons_append, splitSlashes_cons_of_ne hc ih, splitSlashes_cons_of_ne hc hparts]
        rfl

theorem splitSlashes_of_not_mem {cs : List Char} (h : '/' ∉ cs) : splitSlashes cs = [cs] := by
  induction cs with
  | nil => rfl
  | cons c cs ih =>
    simp only [List.mem_cons, not_or] at h
    exact splitSlashes_cons_of_ne (Ne.symm h.1) (ih h.2)

theorem slash_notMem_of_mem_splitSlashes {cs part : List Char} (h : part ∈ splitSlashes cs) :
    '/' ∉ part := by
  induction cs generalizing part with
  | nil => simp_all [splitSlashes]
  | cons c cs ih =>
    by_cases hc : c = '/'
    · subst hc
      simp only [splitSlashes, if_true, List.mem_cons] at h
      rcases h with rfl | h
      · simp
      · exact ih h
    · cases hparts : splitSlashes cs with
      | nil => exact absurd hparts (splitSlashes_ne_nil cs)
      | cons first others =>
        rw [splitSlashes_cons_of_ne hc hparts] at h
        rw [hparts] at ih
        rcases List.mem_cons.mp h with rfl | h
        · have hfirst := ih (List.mem_cons_self ..)
          simp [Ne.symm hc, hfirst]
        · exact ih (List.mem_cons_of_mem _ h)

theorem intercalate_splitSlashes (cs : List Char) : ['/'].intercalate (splitSlashes cs) = cs := by
  induction cs with
  | nil => simp [splitSlashes]
  | cons c cs ih =>
    by_cases hc : c = '/'
    · subst hc
      simp only [splitSlashes, if_true]
      rw [List.intercalate_cons_of_ne_nil (splitSlashes_ne_nil cs), ih]
      rfl
    · cases hparts : splitSlashes cs with
      | nil => exact absurd hparts (splitSlashes_ne_nil cs)
      | cons part parts =>
        rw [splitSlashes_cons_of_ne hc hparts, List.intercalate_cons_cons_left, ← hparts, ih]

theorem splitSlashes_intercalate {parts : List (List Char)} (hne : parts ≠ [])
    (h : ∀ part ∈ parts, '/' ∉ part) : splitSlashes (['/'].intercalate parts) = parts := by
  induction parts with
  | nil => exact absurd rfl hne
  | cons part parts ih =>
    have hpart := splitSlashes_of_not_mem (h part (List.mem_cons_self ..))
    by_cases hnil : parts = []
    · subst hnil
      simpa using hpart
    · rw [List.intercalate_cons_of_ne_nil hnil, List.append_assoc, List.singleton_append,
        splitSlashes_append_slash, hpart,
        ih hnil (fun other ho => h other (List.mem_cons_of_mem _ ho))]
      rfl

/-- Leaving out parts leaves out characters only. -/
theorem intercalate_sublist {few many : List (List Char)} (h : few.Sublist many) :
    (['/'].intercalate few).Sublist (['/'].intercalate many) := by
  induction h with
  | slnil => simp
  | @cons few many part h ih =>
    by_cases hnil : many = []
    · subst hnil
      simp [List.sublist_nil.mp h]
    · rw [List.intercalate_cons_of_ne_nil hnil]
      exact ih.trans (List.sublist_append_right ..)
  | @cons_cons few many part h ih =>
    by_cases hfew : few = []
    · subst hfew
      by_cases hmany : many = []
      · subst hmany
        exact List.Sublist.refl _
      · rw [List.intercalate_cons_of_ne_nil hmany, List.intercalate_singleton, List.append_assoc]
        exact List.sublist_append_left ..
    · have hmany : many ≠ [] := fun hnil => hfew (List.sublist_nil.mp (hnil ▸ h))
      rw [List.intercalate_cons_of_ne_nil hfew, List.intercalate_cons_of_ne_nil hmany]
      exact (List.Sublist.refl _).append ih

/-! ## Joined paths -/

theorem pieces_append_slash (before behind : String) :
    pieces (before ++ "/" ++ behind) = pieces before ++ pieces behind := by
  have hlist : (before ++ "/" ++ behind).toList = before.toList ++ '/' :: behind.toList := by
    simp
  rw [pieces, hlist, splitSlashes_append_slash, List.map_append]
  rfl

theorem notMem_slash_of_mem_pieces {path piece : String} (h : piece ∈ pieces path) :
    '/' ∉ piece.toList := by
  obtain ⟨part, hpart, rfl⟩ := List.mem_map.mp h
  rw [String.toList_ofList]
  exact slash_notMem_of_mem_splitSlashes hpart

theorem isAbsolute_empty : isAbsolute "" = false := rfl

theorem isAbsolute_append {path : String} (hne : path ≠ "") (below : String) :
    isAbsolute (path ++ below) = isAbsolute path := by
  have hlist : path.toList ≠ [] := fun h => hne (String.toList_eq_nil_iff.mp h)
  obtain ⟨c, cs, hcs⟩ := List.exists_cons_of_ne_nil hlist
  simp [isAbsolute, String.toList_append, hcs]

theorem join_of_ne_empty {path below : String} (hne : path ≠ "") (h : isAbsolute below = false) :
    join path below = path ++ below ∧ path.toList.getLast? = some '/' ∨
      join path below = path ++ "/" ++ below := by
  have hpath : path.isEmpty = false := by simpa using hne
  unfold join
  rw [h, hpath]
  by_cases hlast : path.toList.getLast? = some '/'
  · exact Or.inl ⟨by simp [hlast], hlast⟩
  · exact Or.inr (by simp [hlast])

theorem join_empty (below : String) : join "" below = below := by simp [join]

/-- Where a joined path starts is decided by its front. -/
theorem isAbsolute_join {path below : String} (h : isAbsolute below = false) :
    isAbsolute (join path below) = isAbsolute path := by
  by_cases hne : path = ""
  · subst hne
    rw [join_empty, h, isAbsolute_empty]
  · rcases join_of_ne_empty hne h with ⟨hjoin, _⟩ | hjoin
    · rw [hjoin, isAbsolute_append hne]
    · rw [hjoin, String.append_assoc, isAbsolute_append hne]

end Path

namespace FileTree

open PageManifest.Path

theorem bareSteps_append_slash (before behind : String) :
    bareSteps (before ++ "/" ++ behind) = bareSteps before ++ bareSteps behind := by
  simp only [bareSteps, pieces_append_slash, List.filter_append]

theorem bareSteps_empty : bareSteps "" = [] := rfl

theorem ne_empty_of_mem_bareSteps {path name : String} (h : name ∈ bareSteps path) : name ≠ "" := by
  intro hname
  subst hname
  simp [bareSteps] at h

/-- Joining puts the parts of two paths one behind the other. -/
theorem bareSteps_join {path below : String} (h : isAbsolute below = false) :
    bareSteps (join path below) = bareSteps path ++ bareSteps below := by
  by_cases hne : path = ""
  · subst hne
    rw [join_empty, bareSteps_empty, List.nil_append]
  · rcases join_of_ne_empty hne h with ⟨hjoin, hlast⟩ | hjoin
    · obtain ⟨front, hfront⟩ := List.getLast?_eq_some_iff.mp hlast
      have hpath : path = String.ofList front ++ "/" := by
        rw [← String.toList_inj, hfront]
        simp
      have hslash : bareSteps (String.ofList front ++ "/") = bareSteps (String.ofList front) := by
        have := bareSteps_append_slash (String.ofList front) ""
        rwa [bareSteps_empty, List.append_nil, String.append_empty] at this
      rw [hjoin, hpath, bareSteps_append_slash, hslash]
    · rw [hjoin, bareSteps_append_slash]

/-- A path and the same path with a slash at its end have the same parts up to a point. -/
theorem steps_cases (path : String) :
    steps path = bareSteps path ∨ steps path = bareSteps path ++ ["."] := by
  simp only [steps]
  split
  · exact Or.inr rfl
  · exact Or.inl rfl

/-! ## Parts up to single points -/

/-- The second list is the first one without some of its single points. -/
inductive Undotted : List String → List String → Prop
  | nil : Undotted [] []
  | drop {many few : List String} : Undotted many few → Undotted ("." :: many) few
  | keep {many few : List String} (part : String) :
      Undotted many few → Undotted (part :: many) (part :: few)

namespace Undotted

theorem refl (parts : List String) : Undotted parts parts := by
  induction parts with
  | nil => exact .nil
  | cons part parts ih => exact .keep part ih

theorem append {many few many' few' : List String} (h : Undotted many few)
    (h' : Undotted many' few') : Undotted (many ++ many') (few ++ few') := by
  induction h with
  | nil => exact h'
  | drop _ ih => exact .drop ih
  | keep part _ ih => exact .keep part ih

theorem filter (parts : List String) : Undotted parts (parts.filter (· ≠ ".")) := by
  induction parts with
  | nil => exact .nil
  | cons part parts ih =>
    by_cases hpart : part = "."
    · subst hpart
      simpa using ih.drop
    · simpa [List.filter_cons, hpart] using ih.keep part

/-- A cut of the shorter list is one of the longer list. -/
theorem split {many front behind : List String} (h : Undotted many (front ++ behind)) :
    ∃ many₁ many₂, many = many₁ ++ many₂ ∧ Undotted many₁ front ∧ Undotted many₂ behind := by
  generalize hfew : front ++ behind = few at h
  induction h generalizing front with
  | nil =>
    obtain ⟨rfl, rfl⟩ := List.append_eq_nil_iff.mp hfew
    exact ⟨[], [], rfl, .nil, .nil⟩
  | drop _ ih =>
    obtain ⟨many₁, many₂, rfl, h₁, h₂⟩ := ih hfew
    exact ⟨"." :: many₁, many₂, rfl, h₁.drop, h₂⟩
  | keep part h ih =>
    cases front with
    | nil =>
      rw [List.nil_append] at hfew
      exact ⟨[], _, rfl, .nil, hfew ▸ h.keep part⟩
    | cons first front =>
      simp only [List.cons_append, List.cons.injEq] at hfew
      obtain ⟨rfl, hfew⟩ := hfew
      obtain ⟨many₁, many₂, rfl, h₁, h₂⟩ := ih hfew
      exact ⟨first :: many₁, many₂, rfl, h₁.keep first, h₂⟩

/-- A cut of the longer list is one of the shorter list. -/
theorem split_many {front behind few : List String} (h : Undotted (front ++ behind) few) :
    ∃ few₁ few₂, few = few₁ ++ few₂ ∧ Undotted front few₁ ∧ Undotted behind few₂ := by
  generalize hmany : front ++ behind = many at h
  induction h generalizing front with
  | nil =>
    obtain ⟨rfl, rfl⟩ := List.append_eq_nil_iff.mp hmany
    exact ⟨[], [], rfl, .nil, .nil⟩
  | @drop many few h ih =>
    cases front with
    | nil =>
      rw [List.nil_append] at hmany
      exact ⟨[], few, rfl, .nil, hmany ▸ h.drop⟩
    | cons first front =>
      simp only [List.cons_append, List.cons.injEq] at hmany
      obtain ⟨rfl, hmany⟩ := hmany
      obtain ⟨few₁, few₂, rfl, h₁, h₂⟩ := ih hmany
      exact ⟨few₁, few₂, rfl, h₁.drop, h₂⟩
  | @keep many few part h ih =>
    cases front with
    | nil =>
      rw [List.nil_append] at hmany
      exact ⟨[], part :: few, rfl, .nil, hmany ▸ h.keep part⟩
    | cons first front =>
      simp only [List.cons_append, List.cons.injEq] at hmany
      obtain ⟨rfl, hmany⟩ := hmany
      obtain ⟨few₁, few₂, rfl, h₁, h₂⟩ := ih hmany
      exact ⟨first :: few₁, few₂, rfl, h₁.keep first, h₂⟩

theorem trans {many middle few : List String} (h : Undotted many middle)
    (h' : Undotted middle few) : Undotted many few := by
  induction h generalizing few with
  | nil => exact h'
  | drop _ ih => exact (ih h').drop
  | keep part _ ih =>
    cases h' with
    | drop h' => exact (ih h').drop
    | keep _ h' => exact (ih h').keep part

theorem sublist {many few : List String} (h : Undotted many few) : few.Sublist many := by
  induction h with
  | nil => exact .slnil
  | drop _ ih => exact ih.cons _
  | keep part _ ih => exact ih.cons_cons part

end Undotted

theorem undotted_parts (path : String) : Undotted (bareSteps path) (Path.parts path) := by
  have hnamed : (pieces path).filter (!·.isEmpty) = bareSteps path := rfl
  simp only [Path.parts, hnamed]
  split
  · rename_i rest hrest
    rw [hrest]
    split
    · exact (Undotted.filter rest).drop
    · exact (Undotted.filter rest).keep "."
  · exact Undotted.filter _

/-! ## The path above -/

/-- What the path above another one is made of. -/
theorem exists_of_parent? {path above : String} (h : parent? path = some above) :
    (∃ last, parts path = (parts path).dropLast ++ [last]) ∧
      above = (if isAbsolute path then "/" else "") ++ "/".intercalate (parts path).dropLast := by
  simp only [parent?] at h
  split at h
  · cases h
  · rename_i hparts
    have hne : parts path ≠ [] := by simpa using hparts
    exact ⟨⟨(parts path).getLast hne, (List.dropLast_concat_getLast hne).symm⟩,
      (Option.some.inj h).symm⟩

theorem mem_bareSteps_of_mem_dropLast {path part : String} (h : part ∈ (parts path).dropLast) :
    part ∈ bareSteps path :=
  (undotted_parts path).sublist.subset ((List.dropLast_sublist _).subset h)

theorem notMem_slash_of_mem_bareSteps {path name : String} (h : name ∈ bareSteps path) :
    '/' ∉ name.toList :=
  notMem_slash_of_mem_pieces (List.mem_filter.mp h).1

theorem pieces_intercalate {names : List String} (hne : names ≠ [])
    (h : ∀ name ∈ names, '/' ∉ name.toList) : pieces ("/".intercalate names) = names := by
  have hsplit : splitSlashes (['/'].intercalate (names.map String.toList)) =
      names.map String.toList :=
    splitSlashes_intercalate (by simpa using hne) (by simpa using h)
  rw [pieces, String.toList_intercalate]
  exact (congrArg (List.map String.ofList) hsplit).trans (by simp [Function.comp_def])

/-- Names between slashes are the parts of what they make. -/
theorem bareSteps_intercalate {names : List String}
    (h : ∀ name ∈ names, name ≠ "" ∧ '/' ∉ name.toList) :
    bareSteps ("/".intercalate names) = names := by
  by_cases hne : names = []
  · subst hne
    rfl
  · rw [bareSteps, pieces_intercalate hne (fun name hname => (h name hname).2),
      List.filter_eq_self]
    intro name hname
    simpa using (h name hname).1

theorem exists_of_isAbsolute {path : String} (h : isAbsolute path = true) :
    ∃ cs, path.toList = '/' :: cs ∧ pieces path = "" :: pieces (String.ofList cs) := by
  cases hcs : path.toList with
  | nil => simp [isAbsolute, hcs] at h
  | cons c cs =>
    have hc : c = '/' := by simpa [isAbsolute, hcs] using h
    subst hc
    exact ⟨cs, rfl, by simp [pieces, hcs, splitSlashes]⟩

/-- The path above another one has its parts but the last one. -/
theorem bareSteps_parent? {path above : String} (h : parent? path = some above) :
    bareSteps above = (parts path).dropLast := by
  obtain ⟨_, rfl⟩ := exists_of_parent? h
  have hnames : ∀ name ∈ (parts path).dropLast, name ≠ "" ∧ '/' ∉ name.toList := by
    intro name hname
    have hmem := mem_bareSteps_of_mem_dropLast hname
    exact ⟨ne_empty_of_mem_bareSteps hmem, notMem_slash_of_mem_bareSteps hmem⟩
  split
  · have hslash := bareSteps_append_slash "" ("/".intercalate (parts path).dropLast)
    rw [String.empty_append] at hslash
    rw [hslash, bareSteps_empty, List.nil_append, bareSteps_intercalate hnames]
  · rw [String.empty_append, bareSteps_intercalate hnames]

/-- The path above another one starts where that one does. -/
theorem isAbsolute_parent? {path above : String} (h : parent? path = some above)
    (hne : above ≠ "") : isAbsolute above = isAbsolute path := by
  have hsteps := bareSteps_parent? h
  obtain ⟨_, habove⟩ := exists_of_parent? h
  cases habs : isAbsolute path with
  | true =>
    rw [habove, habs, if_pos rfl, isAbsolute_append (by simp)]
    rfl
  | false =>
    rw [habs, if_neg Bool.false_ne_true, String.empty_append] at habove
    have hnames : ∀ name ∈ (parts path).dropLast, '/' ∉ name.toList := fun name hname =>
      notMem_slash_of_mem_bareSteps (mem_bareSteps_of_mem_dropLast hname)
    have hsome : (parts path).dropLast ≠ [] := by
      intro hnil
      rw [hnil] at habove
      exact hne (by simpa using habove)
    -- A slash in front would make the first part empty.
    rw [Bool.eq_false_iff]
    intro hslash
    obtain ⟨cs, _, hpieces⟩ := exists_of_isAbsolute hslash
    rw [habove, pieces_intercalate hsome hnames] at hpieces
    exact ne_empty_of_mem_bareSteps
      (mem_bareSteps_of_mem_dropLast (hpieces ▸ List.mem_cons_self ..)) rfl

theorem toList_eq_intercalate (path : String) :
    path.toList = ['/'].intercalate ((pieces path).map String.toList) := by
  simp only [pieces, List.map_map, Function.comp_def, String.toList_ofList, List.map_id']
  exact (intercalate_splitSlashes path.toList).symm

theorem toList_intercalate_sublist {names : List String} {path : String}
    (h : names.Sublist (pieces path)) : ("/".intercalate names).toList.Sublist path.toList := by
  rw [String.toList_intercalate, toList_eq_intercalate path]
  exact intercalate_sublist (h.map _)

/-- The path above another one has no further characters. -/
theorem toList_parent?_sublist {path above : String} (h : parent? path = some above) :
    above.toList.Sublist path.toList := by
  obtain ⟨_, rfl⟩ := exists_of_parent? h
  have hnames : (parts path).dropLast.Sublist (bareSteps path) :=
    (List.dropLast_sublist _).trans (undotted_parts path).sublist
  have hpieces : (parts path).dropLast.Sublist (pieces path) := hnames.trans List.filter_sublist
  split
  · rename_i habs
    obtain ⟨cs, hcs, hpath⟩ := exists_of_isAbsolute habs
    have hcut : (parts path).dropLast.Sublist (pieces (String.ofList cs)) := by
      have hfilter : bareSteps path = bareSteps (String.ofList cs) := by
        simp [bareSteps, hpath]
      exact (hfilter ▸ hnames).trans List.filter_sublist
    have hsub := toList_intercalate_sublist hcut
    rw [String.toList_ofList] at hsub
    rw [String.toList_append, hcs]
    exact hsub.cons_cons '/'
  · rw [String.empty_append]
    exact toList_intercalate_sublist hpieces

end FileTree

end PageManifest
