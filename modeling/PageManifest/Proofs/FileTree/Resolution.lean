import PageManifest.FileTree.Operations
import PageManifest.Proofs.FileTree.Path

/-!
# Following paths

A path leads through directories and links only, so what it leads to stays the same in every
tree that has these (`Extends`). Where a path arrives is a relation (`Arrives`), with one step
for each link. Its laws are about a path that ends at a directory:

* `Arrives.of_extends`: a larger tree has the directory at the same place.
* `Arrives.of_undotted`: single points in the path do not matter.
* `Arrives.exists_of_append`: each path in front of it ends at a directory, too.
* `Arrives.append`: a further part is followed from there.

Each is proved for `follow` first, which stops at a link, and then by induction on the links
that are followed.
-/

namespace PageManifest.FileTree

open PageManifest.Path

/-! ## Entries -/

theorem entry?_nil (tree : FileTree) : tree.entry? [] = some .directory := rfl

/-- Putting an entry at a place changes nothing elsewhere. -/
theorem entry?_put (tree : FileTree) {place : Place} (hne : place ≠ []) (entry : Entry)
    (other : Place) :
    entry? (tree.put place entry) other =
      if place = other then some entry else tree.entry? other := by
  unfold entry? put
  by_cases hother : other = []
  · subst hother
    simp [hne]
  · simp [hother, OrderedMap.get?_insert]

theorem entry?_put_self (tree : FileTree) {place : Place} (hne : place ≠ []) (entry : Entry) :
    entry? (tree.put place entry) place = some entry := by
  rw [entry?_put tree hne, if_pos rfl]

theorem entry?_put_of_ne (tree : FileTree) {place other : Place} (hne : place ≠ [])
    (entry : Entry) (h : place ≠ other) :
    entry? (tree.put place entry) other = tree.entry? other := by
  rw [entry?_put tree hne, if_neg h]

/-- The later tree has every directory and every link of the first one. -/
structure Extends (tree later : FileTree) : Prop where
  workingDirectory_eq : later.workingDirectory = tree.workingDirectory
  directory : ∀ place, tree.entry? place = some .directory → later.entry? place = some .directory
  link : ∀ place target,
    tree.entry? place = some (.link target) → later.entry? place = some (.link target)

namespace Extends

theorem refl (tree : FileTree) : Extends tree tree := ⟨rfl, fun _ h => h, fun _ _ h => h⟩

theorem trans {first second third : FileTree} (h : Extends first second)
    (h' : Extends second third) : Extends first third where
  workingDirectory_eq := h'.workingDirectory_eq.trans h.workingDirectory_eq
  directory place hplace := h'.directory place (h.directory place hplace)
  link place target hplace := h'.link place target (h.link place target hplace)

/-- Where there is neither a directory nor a link, anything can be put. -/
theorem put {tree : FileTree} {place : Place} (hdirectory : tree.entry? place ≠ some .directory)
    (hlink : ∀ target, tree.entry? place ≠ some (.link target)) (entry : Entry) :
    Extends tree (tree.put place entry) := by
  have hne : place ≠ [] := fun hnil => hdirectory (hnil ▸ entry?_nil tree)
  refine ⟨rfl, ?_, ?_⟩
  · intro other hother
    rw [entry?_put_of_ne tree hne entry (fun h => hdirectory (h ▸ hother)), hother]
  · intro other target hother
    rw [entry?_put_of_ne tree hne entry (fun h => hlink target (h ▸ hother)), hother]

end Extends

/-- The later tree has all that the first one has. -/
def Keeps (tree later : FileTree) : Prop :=
  ∀ place entry, tree.entry? place = some entry → later.entry? place = some entry

/-! ## One part -/

/-- A part that can be the name of an entry. -/
structure IsName (part : String) : Prop where
  ne_point : part ≠ "."
  ne_empty : part ≠ ""
  ne_up : part ≠ ".."
  isShort : part.utf8ByteSize ≤ nameLimit

variable {tree later : FileTree} {last : Bool} {place : Place} {part : String}
  {behind : List String}

theorem follow_stay (hplace : tree.entry? place = some .directory) (h : part = "." ∨ part = "") :
    tree.follow last place (part :: behind) = tree.follow last place behind := by
  simp [follow, hplace, h]

theorem follow_up (hplace : tree.entry? place = some .directory) :
    tree.follow last place (".." :: behind) = tree.follow last place.dropLast behind := by
  simp [follow, hplace]

theorem IsName.not_long (h : IsName part) : ¬ nameLimit < part.utf8ByteSize :=
  Nat.not_lt.mpr h.isShort

theorem follow_enter (hplace : tree.entry? place = some .directory) (h : IsName part)
    {entry : Entry} (hentry : tree.entry? (place ++ [part]) = some entry)
    (hlink : ∀ target, entry ≠ .link target) :
    tree.follow last place (part :: behind) = tree.follow last (place ++ [part]) behind := by
  cases entry with
  | link target => exact absurd rfl (hlink target)
  | file _ => simp [follow, hplace, h.ne_point, h.ne_empty, h.ne_up, h.not_long, hentry]
  | directory => simp [follow, hplace, h.ne_point, h.ne_empty, h.ne_up, h.not_long, hentry]

theorem follow_link (hplace : tree.entry? place = some .directory) (h : IsName part)
    {target : String} (hentry : tree.entry? (place ++ [part]) = some (.link target)) :
    tree.follow last place (part :: behind) =
      if behind = [] ∧ last = false then .at (place ++ [part]) else .link place target behind := by
  simp [follow, hplace, h.ne_point, h.ne_empty, h.ne_up, h.not_long, hentry]

theorem follow_missing (hplace : tree.entry? place = some .directory) (h : IsName part)
    (hentry : tree.entry? (place ++ [part]) = none) :
    tree.follow last place (part :: behind) =
      if behind = [] then .missing place part else .fault .notFound := by
  simp [follow, hplace, h.ne_point, h.ne_empty, h.ne_up, h.not_long, hentry]

/-- Everything that following one part can amount to. A fault stays in a larger tree, unless
it is that something is missing. -/
inductive PartCases (tree : FileTree) (last : Bool) (place : Place) (part : String)
    (behind : List String) : Prop
  | fault (fault : FileFault)
      (h : ∀ last, tree.follow last place (part :: behind) = .fault fault)
      (hkeeps : fault ≠ .notFound → ∀ later, Keeps tree later → ∀ last,
        later.follow last place (part :: behind) = .fault fault)
  | stay (hplace : tree.entry? place = some .directory) (hpart : part = "." ∨ part = "")
      (h : tree.follow last place (part :: behind) = tree.follow last place behind)
  | up (hplace : tree.entry? place = some .directory) (hpart : part = "..")
      (h : tree.follow last place (part :: behind) = tree.follow last place.dropLast behind)
  | missing (hplace : tree.entry? place = some .directory) (hname : IsName part)
      (hentry : tree.entry? (place ++ [part]) = none) (hbehind : behind = [])
      (h : tree.follow last place (part :: behind) = .missing place part)
  | lastLink (hplace : tree.entry? place = some .directory) (hname : IsName part)
      (target : String) (hentry : tree.entry? (place ++ [part]) = some (.link target))
      (hbehind : behind = [] ∧ last = false)
      (h : tree.follow last place (part :: behind) = .at (place ++ [part]))
  | link (hplace : tree.entry? place = some .directory) (hname : IsName part)
      (target : String) (hentry : tree.entry? (place ++ [part]) = some (.link target))
      (hbehind : ¬ (behind = [] ∧ last = false))
      (h : tree.follow last place (part :: behind) = .link place target behind)
  | enter (hplace : tree.entry? place = some .directory) (hname : IsName part) (entry : Entry)
      (hentry : tree.entry? (place ++ [part]) = some entry)
      (hlink : ∀ target, entry ≠ .link target)
      (h : tree.follow last place (part :: behind) = tree.follow last (place ++ [part]) behind)

theorem partCases (tree : FileTree) (last : Bool) (place : Place) (part : String)
    (behind : List String) : PartCases tree last place part behind := by
  by_cases hplace : tree.entry? place = some .directory
  · by_cases hstay : part = "." ∨ part = ""
    · exact .stay hplace hstay (follow_stay hplace hstay)
    by_cases hup : part = ".."
    · exact .up hplace hup (hup ▸ follow_up hplace)
    rw [not_or] at hstay
    by_cases hshort : part.utf8ByteSize ≤ nameLimit
    · have hname : IsName part := ⟨hstay.1, hstay.2, hup, hshort⟩
      cases hentry : tree.entry? (place ++ [part]) with
      | none =>
        by_cases hbehind : behind = []
        · exact .missing hplace hname hentry hbehind
            ((follow_missing hplace hname hentry).trans (if_pos hbehind))
        · exact .fault .notFound
            (fun _ => (follow_missing hplace hname hentry).trans (if_neg hbehind))
            (fun h => absurd rfl h)
      | some entry =>
        by_cases hlink : ∃ target, entry = .link target
        · obtain ⟨target, rfl⟩ := hlink
          by_cases hbehind : behind = [] ∧ last = false
          · exact .lastLink hplace hname target hentry hbehind
              ((follow_link hplace hname hentry).trans (if_pos hbehind))
          · exact .link hplace hname target hentry hbehind
              ((follow_link hplace hname hentry).trans (if_neg hbehind))
        · have hother : ∀ target, entry ≠ .link target := fun target h => hlink ⟨target, h⟩
          exact .enter hplace hname entry hentry hother (follow_enter hplace hname hentry hother)
    · have hlong := Nat.lt_of_not_le hshort
      have hfault : ∀ other : FileTree, other.entry? place = some .directory → ∀ last,
          other.follow last place (part :: behind) = .fault .nameTooLong := by
        intro other hother last
        simp [follow, hother, hstay, hup, hlong]
      exact .fault .nameTooLong (hfault tree hplace)
        (fun _ later hkeeps => hfault later (hkeeps _ _ hplace))
  · cases hentry : tree.entry? place with
    | none => exact .fault .notFound (fun _ => by simp [follow, hentry]) (fun h => absurd rfl h)
    | some entry =>
      have hfault : ∀ other : FileTree, other.entry? place = some entry → ∀ last,
          other.follow last place (part :: behind) = .fault .notDirectory := by
        intro other hother last
        cases entry with
        | directory => exact absurd hentry hplace
        | file bytes => simp [follow, hother]
        | link target => simp [follow, hother]
      exact .fault .notDirectory (hfault tree hentry)
        (fun _ later hkeeps => hfault later (hkeeps _ _ hentry))

/-! ## Up to the first link -/

/-- A path could lead on from where it arrives: at a directory, or at a link to follow. -/
def Arrival.Passes (tree : FileTree) : Arrival → Prop
  | .at place => tree.entry? place = some .directory
  | .link _ _ _ => True
  | _ => False

variable {parts front : List String} {middle : Place}

/-- A part can be followed from directories only. -/
theorem directory_of_follow_cons {arrival : Arrival}
    (h : tree.follow last place (part :: behind) = arrival)
    (hfault : ∀ fault, arrival ≠ .fault fault) : tree.entry? place = some .directory := by
  cases partCases tree last place part behind with
  | fault fault hfollow => exact absurd (h.symm.trans (hfollow last)) (hfault fault)
  | stay hplace => exact hplace
  | up hplace => exact hplace
  | missing hplace => exact hplace
  | lastLink hplace => exact hplace
  | link hplace => exact hplace
  | enter hplace => exact hplace

/-- A path that could lead on starts at a directory. -/
theorem directory_of_passes (h : (tree.follow last place parts).Passes tree) :
    tree.entry? place = some .directory := by
  cases parts with
  | nil => exact h
  | cons part behind =>
    cases hfollow : tree.follow last place (part :: behind) with
    | fault fault => exact (hfollow ▸ h).elim
    | _ => exact directory_of_follow_cons hfollow (by simp)

theorem follow_of_extends (hext : Extends tree later)
    (h : (tree.follow last place parts).Passes tree) :
    later.follow last place parts = tree.follow last place parts := by
  induction parts generalizing place with
  | nil => rfl
  | cons part behind ih =>
    cases partCases tree last place part behind with
    | fault fault hfollow => exact (hfollow last ▸ h).elim
    | stay hplace hpart hfollow =>
      rw [hfollow] at h ⊢
      rw [follow_stay (hext.directory _ hplace) hpart, ih h]
    | up hplace hpart hfollow =>
      rw [hfollow] at h ⊢
      rw [hpart, follow_up (hext.directory _ hplace), ih h]
    | missing hplace hname hentry hbehind hfollow => exact (hfollow ▸ h).elim
    | lastLink hplace hname target hentry hbehind hfollow =>
      rw [hfollow, follow_link (hext.directory _ hplace) hname (hext.link _ _ hentry),
        if_pos hbehind]
    | link hplace hname target hentry hbehind hfollow =>
      rw [hfollow, follow_link (hext.directory _ hplace) hname (hext.link _ _ hentry),
        if_neg hbehind]
    | enter hplace hname entry hentry hlink hfollow =>
      rw [hfollow] at h ⊢
      have hnext := hext.directory _ (directory_of_passes h)
      rw [follow_enter (hext.directory _ hplace) hname hnext (by simp), ih h]

/-- A fault stays in a larger tree, unless it is that something is missing. -/
theorem follow_fault_of_keeps (hkeeps : Keeps tree later) {fault : FileFault}
    (h : tree.follow last place parts = .fault fault) (hfault : fault ≠ .notFound) :
    later.follow last place parts = .fault fault := by
  induction parts generalizing place with
  | nil => simp [follow] at h
  | cons part behind ih =>
    cases partCases tree last place part behind with
    | fault other hfollow hlater =>
      cases h.symm.trans (hfollow last)
      exact hlater hfault later hkeeps last
    | stay hplace hpart hfollow =>
      rw [follow_stay (hkeeps _ _ hplace) hpart]
      exact ih (hfollow ▸ h)
    | up hplace hpart hfollow =>
      rw [hpart, follow_up (hkeeps _ _ hplace)]
      exact ih (hfollow ▸ h)
    | missing _ _ _ _ hfollow => simp [hfollow] at h
    | lastLink _ _ _ _ _ hfollow => simp [hfollow] at h
    | link _ _ _ _ _ hfollow => simp [hfollow] at h
    | enter hplace hname entry hentry hlink hfollow =>
      rw [follow_enter (hkeeps _ _ hplace) hname (hkeeps _ _ hentry) hlink]
      exact ih (hfollow ▸ h)

theorem follow_append_of_at (h : tree.follow true place front = .at middle) :
    tree.follow last place (front ++ behind) = tree.follow last middle behind := by
  induction front generalizing place with
  | nil =>
    cases h
    rfl
  | cons part front ih =>
    cases partCases tree true place part front with
    | fault fault hfollow => simp [hfollow] at h
    | stay hplace hpart hfollow =>
      rw [List.cons_append, follow_stay hplace hpart, ih (hfollow ▸ h)]
    | up hplace hpart hfollow =>
      rw [List.cons_append, hpart, follow_up hplace, ih (hfollow ▸ h)]
    | missing hplace hname hentry hbehind hfollow => simp [hfollow] at h
    | lastLink hplace hname target hentry hbehind hfollow => simp at hbehind
    | link hplace hname target hentry hbehind hfollow => simp [hfollow] at h
    | enter hplace hname entry hentry hlink hfollow =>
      rw [List.cons_append, follow_enter hplace hname hentry hlink, ih (hfollow ▸ h)]

theorem follow_append_of_link {directory : Place} {target : String} {rest : List String}
    (h : tree.follow true place front = .link directory target rest)
    (hbehind : ¬ (behind = [] ∧ last = false)) :
    tree.follow last place (front ++ behind) = .link directory target (rest ++ behind) := by
  induction front generalizing place with
  | nil => simp [follow] at h
  | cons part front ih =>
    cases partCases tree true place part front with
    | fault fault hfollow => simp [hfollow] at h
    | stay hplace hpart hfollow =>
      rw [List.cons_append, follow_stay hplace hpart, ih (hfollow ▸ h)]
    | up hplace hpart hfollow =>
      rw [List.cons_append, hpart, follow_up hplace, ih (hfollow ▸ h)]
    | missing hplace hname hentry hempty hfollow => simp [hfollow] at h
    | lastLink hplace hname target' hentry hempty hfollow => simp at hempty
    | link hplace hname target' hentry hempty hfollow =>
      rw [hfollow] at h
      cases h
      rw [List.cons_append, follow_link hplace hname hentry, if_neg]
      simp only [List.append_eq_nil_iff]
      exact fun hnil => hbehind ⟨hnil.1.2, hnil.2⟩
    | enter hplace hname entry hentry hlink hfollow =>
      rw [List.cons_append, follow_enter hplace hname hentry hlink, ih (hfollow ▸ h)]

/-- The front of a path that can be followed ends at a directory or at a link. -/
theorem front_of_follow_append (hbehind : behind ≠ [])
    (h : ∀ fault, tree.follow last place (front ++ behind) ≠ .fault fault) :
    (∃ middle, tree.follow true place front = .at middle ∧
        tree.entry? middle = some .directory) ∨
      ∃ directory target rest, tree.follow true place front = .link directory target rest := by
  induction front generalizing place with
  | nil =>
    obtain ⟨part, behind, rfl⟩ := List.exists_cons_of_ne_nil hbehind
    exact Or.inl ⟨place, rfl, directory_of_follow_cons rfl h⟩
  | cons part front ih =>
    have hplace := directory_of_follow_cons rfl h
    rw [List.cons_append] at h
    cases partCases tree last place part (front ++ behind) with
    | fault fault hfollow => exact absurd (hfollow last) (h fault)
    | stay _ hpart hfollow =>
      rw [follow_stay hplace hpart]
      exact ih (hfollow ▸ h)
    | up _ hpart hfollow =>
      rw [hpart, follow_up hplace]
      exact ih (hfollow ▸ h)
    | missing _ hname hentry hempty hfollow =>
      exact absurd (List.append_eq_nil_iff.mp hempty).2 hbehind
    | lastLink _ hname target hentry hempty hfollow =>
      exact absurd (List.append_eq_nil_iff.mp hempty.1).2 hbehind
    | link _ hname target hentry hempty hfollow =>
      rw [follow_link hplace hname hentry, if_neg (by simp)]
      exact Or.inr ⟨place, target, front, rfl⟩
    | enter _ hname entry hentry hlink hfollow =>
      rw [follow_enter hplace hname hentry hlink]
      exact ih (hfollow ▸ h)

/-- A link at the end is the only one that may be left unfollowed. -/
theorem follow_false_cases (tree : FileTree) (place : Place) (parts : List String) :
    tree.follow false place parts = tree.follow true place parts ∨
      ∃ other, tree.follow false place parts = .at other := by
  induction parts generalizing place with
  | nil => exact Or.inl rfl
  | cons part behind ih =>
    cases partCases tree true place part behind with
    | fault fault hfollow =>
      rw [hfollow, hfollow]
      exact Or.inl rfl
    | stay hplace hpart hfollow =>
      rw [hfollow, follow_stay hplace hpart]
      exact ih place
    | up hplace hpart hfollow =>
      rw [hfollow, hpart, follow_up hplace]
      exact ih _
    | missing hplace hname hentry hbehind hfollow =>
      rw [hfollow, follow_missing hplace hname hentry, if_pos hbehind]
      exact Or.inl rfl
    | lastLink hplace hname target hentry hbehind hfollow => simp at hbehind
    | link hplace hname target hentry hbehind hfollow =>
      rw [hfollow, follow_link hplace hname hentry]
      by_cases hempty : behind = []
      · exact Or.inr ⟨_, if_pos ⟨hempty, rfl⟩⟩
      · exact Or.inl (if_neg fun h => hempty h.1)
    | enter hplace hname entry hentry hlink hfollow =>
      rw [hfollow, follow_enter hplace hname hentry hlink]
      exact ih _

theorem entry?_of_follow_missing {directory : Place} {name : String}
    (h : tree.follow last place parts = .missing directory name) :
    tree.entry? (directory ++ [name]) = none := by
  induction parts generalizing place with
  | nil => simp [follow] at h
  | cons part behind ih =>
    cases partCases tree last place part behind with
    | fault fault hfollow => simp [hfollow] at h
    | stay hplace hpart hfollow => exact ih (hfollow ▸ h)
    | up hplace hpart hfollow => exact ih (hfollow ▸ h)
    | missing hplace hname hentry hbehind hfollow =>
      rw [hfollow] at h
      cases h
      exact hentry
    | lastLink hplace hname target hentry hbehind hfollow => simp [hfollow] at h
    | link hplace hname target hentry hbehind hfollow => simp [hfollow] at h
    | enter hplace hname entry hentry hlink hfollow => exact ih (hfollow ▸ h)

/-- A path that ends at a missing name ends there once there is a directory. -/
theorem follow_of_missing {directory : Place} {name : String} (hext : Extends tree later)
    (h : tree.follow last place parts = .missing directory name)
    (hnew : later.entry? (directory ++ [name]) = some .directory) :
    later.follow true place parts = .at (directory ++ [name]) := by
  induction parts generalizing place with
  | nil => simp [follow] at h
  | cons part behind ih =>
    cases partCases tree last place part behind with
    | fault fault hfollow => simp [hfollow] at h
    | stay hplace hpart hfollow =>
      rw [follow_stay (hext.directory _ hplace) hpart]
      exact ih (hfollow ▸ h)
    | up hplace hpart hfollow =>
      rw [hpart, follow_up (hext.directory _ hplace)]
      exact ih (hfollow ▸ h)
    | missing hplace hname hentry hbehind hfollow =>
      rw [hfollow] at h
      cases h
      rw [follow_enter (hext.directory _ hplace) hname hnew (by simp), hbehind]
      rfl
    | lastLink hplace hname target hentry hbehind hfollow => simp [hfollow] at h
    | link hplace hname target hentry hbehind hfollow => simp [hfollow] at h
    | enter hplace hname entry hentry hlink hfollow =>
      rw [hfollow] at h
      cases behind with
      | nil => simp [follow] at h
      | cons next behind =>
        have hdirectory := directory_of_follow_cons h (by simp)
        rw [follow_enter (hext.directory _ hplace) hname (hext.directory _ hdirectory) (by simp)]
        exact ih h

/-- Without its single points a path leads to the same place. -/
theorem follow_of_undotted {many few : List String} (hdots : Undotted many few)
    (h : (tree.follow true place many).Passes tree) :
    tree.follow true place few = tree.follow true place many ∨
      ∃ directory target many' few', Undotted many' few' ∧
        tree.follow true place many = .link directory target many' ∧
        tree.follow true place few = .link directory target few' := by
  induction hdots generalizing place with
  | nil => exact Or.inl rfl
  | drop _ ih =>
    have hplace := directory_of_passes h
    rw [follow_stay hplace (Or.inl rfl)] at h ⊢
    exact ih h
  | @keep many few part hdots ih =>
    have hplace := directory_of_passes h
    cases partCases tree true place part many with
    | fault fault hfollow => exact (hfollow true ▸ h).elim
    | stay _ hpart hfollow =>
      rw [hfollow] at h ⊢
      rw [follow_stay hplace hpart]
      exact ih h
    | up _ hpart hfollow =>
      rw [hfollow] at h ⊢
      rw [hpart, follow_up hplace]
      exact ih h
    | missing _ hname hentry hbehind hfollow => exact (hfollow ▸ h).elim
    | lastLink _ hname target hentry hbehind hfollow => simp at hbehind
    | link _ hname target hentry hbehind hfollow =>
      refine Or.inr ⟨place, target, many, few, hdots, hfollow, ?_⟩
      rw [follow_link hplace hname hentry, if_neg (by simp)]
    | enter _ hname entry hentry hlink hfollow =>
      rw [hfollow] at h ⊢
      rw [follow_enter hplace hname hentry hlink]
      exact ih h

/-! ## Through links -/

/-- Following a path and the links on it arrives somewhere; a number of links may be
followed. -/
inductive Arrives (tree : FileTree) (last : Bool) : Nat → Place → List String → Arrival → Prop
  | done {budget : Nat} {place : Place} {parts : List String} {arrival : Arrival}
      (h : tree.follow last place parts = arrival)
      (hlink : ∀ directory target behind, arrival ≠ .link directory target behind) :
      Arrives tree last budget place parts arrival
  | linked {budget : Nat} {place directory : Place} {parts behind : List String}
      {target : String} {arrival : Arrival}
      (h : tree.follow last place parts = .link directory target behind)
      (harrives : Arrives tree last budget (origin directory target) (steps target ++ behind)
        arrival) :
      Arrives tree last (budget + 1) place parts arrival

variable {budget : Nat} {found : Place} {arrival : Arrival}

theorem Arrives.arrive_eq (h : Arrives tree last budget place parts arrival) :
    tree.arrive last budget place parts = arrival := by
  induction h with
  | done h hlink =>
    rw [arrive.eq_def]
    dsimp only
    split
    · rename_i heq
      exact absurd (h.symm.trans heq) (hlink _ _ _)
    · exact h
  | linked h _ ih =>
    rw [arrive.eq_def]
    simp only [h]
    exact ih

theorem arrives_of_arrive_eq (h : tree.arrive last budget place parts = arrival)
    (hfault : arrival ≠ .fault .tooManyLinks) : Arrives tree last budget place parts arrival := by
  induction budget generalizing place parts with
  | zero =>
    rw [arrive.eq_def] at h
    dsimp only at h
    split at h
    · exact absurd h.symm hfault
    · rename_i hlink
      exact .done h (fun directory target behind heq => hlink _ _ _ (h.trans heq))
  | succ budget ih =>
    rw [arrive.eq_def] at h
    dsimp only at h
    split at h
    · rename_i hfollow
      exact .linked hfollow (ih h)
    · rename_i hlink
      exact .done h (fun directory target behind heq => hlink _ _ _ (h.trans heq))

theorem arrive_fault_of_keeps (hext : Extends tree later) (hkeeps : Keeps tree later)
    {fault : FileFault} (h : tree.arrive last budget place parts = .fault fault)
    (hfault : fault ≠ .notFound) : later.arrive last budget place parts = .fault fault := by
  induction budget generalizing place parts with
  | zero =>
    rw [arrive.eq_def] at h ⊢
    dsimp only at h ⊢
    split at h
    · rename_i directory target behind hfollow
      have hpasses : (Arrival.link directory target behind).Passes tree := trivial
      rw [(follow_of_extends hext (hfollow ▸ hpasses)).trans hfollow]
      exact h
    · rw [follow_fault_of_keeps hkeeps h hfault]
  | succ budget ih =>
    rw [arrive.eq_def] at h ⊢
    dsimp only at h ⊢
    split at h
    · rename_i directory target behind hfollow
      have hpasses : (Arrival.link directory target behind).Passes tree := trivial
      rw [(follow_of_extends hext (hfollow ▸ hpasses)).trans hfollow]
      exact ih h
    · rw [follow_fault_of_keeps hkeeps h hfault]

namespace Arrives

/-- Where a path ends at a directory, it does so in every larger tree. -/
theorem of_extends (hext : Extends tree later)
    (h : Arrives tree last budget place parts (.at found))
    (hfound : tree.entry? found = some .directory) :
    Arrives later last budget place parts (.at found) := by
  generalize harrival : Arrival.at found = arrival at h
  induction h with
  | done hfollow hlink =>
    subst harrival
    have hpasses : (Arrival.at found).Passes tree := hfound
    exact .done ((follow_of_extends hext (hfollow ▸ hpasses)).trans hfollow) hlink
  | @linked _ _ directory _ behind target _ hfollow _ ih =>
    have hpasses : (Arrival.link directory target behind).Passes tree := trivial
    exact .linked ((follow_of_extends hext (hfollow ▸ hpasses)).trans hfollow) (ih harrival)

/-- Without its single points a path ends at the same directory. -/
theorem of_undotted {many few : List String} (h : Arrives tree true budget place many (.at found))
    (hfound : tree.entry? found = some .directory) (hdots : Undotted many few) :
    Arrives tree true budget place few (.at found) := by
  generalize harrival : Arrival.at found = arrival at h
  induction h generalizing few with
  | done hfollow hlink =>
    subst harrival
    have hpasses : (Arrival.at found).Passes tree := hfound
    rcases follow_of_undotted hdots (hfollow ▸ hpasses) with hsame | ⟨_, _, _, _, _, hother, _⟩
    · exact .done (hsame.trans hfollow) hlink
    · exact absurd (hfollow.symm.trans hother) (hlink _ _ _)
  | @linked _ _ directory _ behind target _ hfollow _ ih =>
    have hpasses : (Arrival.link directory target behind).Passes tree := trivial
    rcases follow_of_undotted hdots (hfollow ▸ hpasses) with
      hsame | ⟨directory', target', many', few', hdots', hmany, hfew⟩
    · exact .linked (hsame.trans hfollow) (ih (.refl _) harrival)
    · cases hfollow.symm.trans hmany
      exact .linked hfew (ih ((Undotted.refl _).append hdots') harrival)

/-- What comes in front of a path's end leads to a directory. -/
theorem exists_of_append (h : Arrives tree last budget place (front ++ behind) arrival)
    (hfault : ∀ fault, arrival ≠ .fault fault) (hbehind : behind ≠ []) :
    ∃ middle, Arrives tree true budget place front (.at middle) ∧
      tree.entry? middle = some .directory := by
  generalize hparts : front ++ behind = parts at h
  induction h generalizing front with
  | done hfollow hlink =>
    subst hparts
    rcases front_of_follow_append hbehind (hfollow ▸ hfault) with
      ⟨middle, hfront, hmiddle⟩ | ⟨directory, target, rest, hfront⟩
    · exact ⟨middle, .done hfront (by simp), hmiddle⟩
    · rw [follow_append_of_link hfront (fun hnil => hbehind hnil.1)] at hfollow
      exact absurd hfollow.symm (hlink _ _ _)
  | @linked _ _ directory _ rest target _ hfollow _ ih =>
    subst hparts
    have hlink : ∀ fault, Arrival.link directory target rest ≠ .fault fault := by simp
    rcases front_of_follow_append hbehind (hfollow ▸ hlink) with
      ⟨middle, hfront, hmiddle⟩ | ⟨directory', target', rest', hfront⟩
    · exact ⟨middle, .done hfront (by simp), hmiddle⟩
    · rw [follow_append_of_link hfront (fun hnil => hbehind hnil.1)] at hfollow
      cases hfollow
      obtain ⟨middle, harrives, hmiddle⟩ := ih hfault
        (List.append_assoc (steps target) rest' behind)
      exact ⟨middle, .linked hfront harrives, hmiddle⟩

/-- A path leads on from where its front ends, if there is no link in between. -/
theorem append (h : Arrives tree true budget place front (.at middle))
    (hfollow : tree.follow true middle behind = arrival)
    (hlink : ∀ directory target rest, arrival ≠ .link directory target rest) :
    Arrives tree true budget place (front ++ behind) arrival := by
  generalize harrival : Arrival.at middle = reached at h
  induction h with
  | done hfront _ =>
    subst harrival
    exact .done ((follow_append_of_at hfront).trans hfollow) hlink
  | linked hfront _ ih =>
    refine .linked (follow_append_of_link hfront (by simp)) ?_
    rw [← List.append_assoc]
    exact ih harrival

theorem entry?_of_missing {directory : Place} {name : String}
    (h : Arrives tree last budget place parts (.missing directory name)) :
    tree.entry? (directory ++ [name]) = none := by
  generalize harrival : Arrival.missing directory name = arrival at h
  induction h with
  | done hfollow _ =>
    subst harrival
    exact entry?_of_follow_missing hfollow
  | linked _ _ ih => exact ih harrival

/-- A path that ends at a missing name ends there once there is a directory. -/
theorem of_missing {directory : Place} {name : String} (hext : Extends tree later)
    (h : Arrives tree last budget place parts (.missing directory name))
    (hnew : later.entry? (directory ++ [name]) = some .directory) :
    Arrives later true budget place parts (.at (directory ++ [name])) := by
  generalize harrival : Arrival.missing directory name = arrival at h
  induction h with
  | done hfollow _ =>
    subst harrival
    exact .done (follow_of_missing hext hfollow hnew) (by simp)
  | @linked _ place link parts behind target _ hfollow _ ih =>
    have hpasses : (Arrival.link link target behind).Passes tree := trivial
    have hlater := (follow_of_extends hext (hfollow ▸ hpasses)).trans hfollow
    refine .linked ?_ (ih harrival)
    cases last with
    | true => exact hlater
    | false =>
      rcases follow_false_cases later place parts with hsame | ⟨other, hother⟩
      · exact hsame.symm.trans hlater
      · cases hother.symm.trans hlater

/-- A path that ends somewhere does so if a link at its end is not followed. -/
theorem exists_unfollowed (h : Arrives tree true budget place parts (.at found)) :
    ∃ other, Arrives tree false budget place parts (.at other) := by
  generalize harrival : Arrival.at found = arrival at h
  induction h with
  | @done _ place parts _ hfollow _ =>
    subst harrival
    rcases follow_false_cases tree place parts with hsame | ⟨other, hother⟩
    · exact ⟨found, .done (hsame.trans hfollow) (by simp)⟩
    · exact ⟨other, .done hother (by simp)⟩
  | @linked _ place _ parts _ _ _ hfollow harrives ih =>
    rcases follow_false_cases tree place parts with hsame | ⟨other, hother⟩
    · obtain ⟨other, hother⟩ := ih harrival
      exact ⟨other, .linked (hsame.trans hfollow) hother⟩
    · exact ⟨other, .done hother (by simp)⟩

end Arrives

end PageManifest.FileTree
