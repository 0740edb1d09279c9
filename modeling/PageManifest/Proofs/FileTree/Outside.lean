import PageManifest.Proofs.FileTree.Ways

/-!
# Operations outside a directory

What trees that agree outside a directory have in it makes no difference to an operation on a path
that stays outside (`StaysOutside`). Reading gives the same in both trees. Writing and creating
directories fail alike in both, or in neither, and leave trees that agree again, with the same files
in the directory as before (`KeepsInside`).
-/

namespace PageManifest.FileTree

open PageManifest.Path

variable {start tree other later : FileTree} {home place : Place} {path : String} {last : Bool}

/-! ## Where paths lead -/

/-- Following parts has come to a place outside a directory. No link is at its end, unless one
may be left unfollowed. -/
def Arrival.Outside (home : Place) (tree : FileTree) (last : Bool) : Arrival → Prop
  | .at place => ¬ home <+: place ∧
    (last = true → ∀ target, tree.entry? place ≠ some (.link target))
  | .missing directory name => ¬ home <+: directory ++ [name] ∧
    tree.entry? (directory ++ [name]) = none
  | _ => True

/-- A way outside has the same end in both trees. -/
theorem Way.arrive_eq {budget : Nat} {place : Place} {parts : List String} {stop : Option Place}
    (hway : Way start home budget place parts stop) (h : AgreeOutside home start tree other)
    (last : Bool) :
    other.arrive last budget place parts = tree.arrive last budget place parts ∧
      (tree.arrive last budget place parts).Outside home tree last := by
  have hfollowed := hway.followed h last []
  cases hfollowed with
  | fault fault h h_other =>
    rw [List.append_nil] at h h_other
    rw [h, h_other]
    exact ⟨rfl, trivial⟩
  | missing _ hout hnone h h_other =>
    rw [List.append_nil] at h h_other
    rw [h, h_other]
    exact ⟨rfl, hout, hnone⟩
  | unfollowed _ hlast hout h h_other =>
    rw [List.append_nil] at h h_other
    rw [h, h_other]
    exact ⟨rfl, hout, fun htrue => absurd (hlast.symm.trans htrue) Bool.false_ne_true⟩
  | through hstop _ hend hend_other =>
    subst hstop
    rw [List.append_nil, arrive_nil] at hend hend_other
    have hplain := h.plain hway.plain_stop
    rw [hend, hend_other]
    exact ⟨rfl, hplain.outside, fun _ => hplain.ne_link⟩

namespace AgreeOutside

/-- Both trees lead to the same end, which is outside. -/
theorem resolveParts_eq (h : AgreeOutside home start tree other) {parts : List String}
    (hway : ∃ stop, Way start home linkLimit (origin start.workingDirectory path) parts stop)
    (last : Bool) :
    other.resolveParts last path parts = tree.resolveParts last path parts ∧
      (tree.resolveParts last path parts).Outside home tree last := by
  obtain ⟨stop, hway⟩ := hway
  obtain ⟨hsame, hout⟩ := hway.arrive_eq h last
  simp only [resolveParts, h.workingDirectory_eq, h.workingDirectory_other]
  rw [hsame]
  refine ⟨rfl, ?_⟩
  split
  · trivial
  split
  · trivial
  split
  · trivial
  · exact hout

/-! ## Reading -/

theorem stat_eq (h : AgreeOutside home start tree other) (hpath : StaysOutside home start path) :
    other.stat path = tree.stat path := by
  obtain ⟨hsame, hout⟩ := h.resolveParts_eq hpath.steps true
  unfold stat resolve
  rw [hsame]
  cases hresolve : tree.resolveParts true path (FileTree.steps path) with
  | «at» place =>
    rw [hresolve] at hout
    dsimp only
    rw [h.entry?_eq place hout.1]
  | missing directory name => rfl
  | link directory target behind => rfl
  | fault fault => rfl

theorem isPresent_eq (h : AgreeOutside home start tree other)
    (hpath : StaysOutside home start path) : other.isPresent path = tree.isPresent path := by
  rw [isPresent, isPresent, h.stat_eq hpath]

theorem isDirectory_eq (h : AgreeOutside home start tree other)
    (hpath : StaysOutside home start path) : other.isDirectory path = tree.isDirectory path := by
  rw [isDirectory, isDirectory, h.stat_eq hpath]

theorem readText_eq (h : AgreeOutside home start tree other)
    (hpath : StaysOutside home start path) : other.readText path = tree.readText path := by
  rw [readText, readText, readBytes, readBytes, h.stat_eq hpath]

/-! ## Writing -/

/-- Both trees open a path at the same place, where no link is. -/
theorem target_eq (h : AgreeOutside home start tree other) (hpath : StaysOutside home start path) :
    other.target path = tree.target path ∧ ∀ place, tree.target path = .ok place →
      ∀ target, tree.entry? place ≠ some (.link target) := by
  obtain ⟨hsame, hout⟩ := h.resolveParts_eq hpath true
  unfold target
  rw [hsame]
  cases hresolve : tree.resolveParts true path (bareSteps path) with
  | «at» found =>
    rw [hresolve] at hout
    dsimp only
    rw [h.entry?_eq found hout.1]
    refine ⟨rfl, fun place hplace => ?_⟩
    split at hplace
    · cases hplace
    · cases hplace
      exact hout.2 rfl
  | missing directory name =>
    rw [hresolve] at hout
    dsimp only
    rw [h.entry?_eq _ hout.1]
    refine ⟨rfl, fun place hplace target => ?_⟩
    split at hplace
    · cases hplace
    · cases hplace
      rw [hout.2]
      simp
  | link directory target behind => exact ⟨rfl, fun place hplace => by cases hplace⟩
  | fault fault => exact ⟨rfl, fun place hplace => by cases hplace⟩

/-- What is opened by a path that stays outside is outside. -/
theorem outside_of_target (h : AgreeOutside home start tree other)
    (hpath : StaysOutside home start path) (htarget : tree.target path = .ok place) :
    ¬ home <+: place := by
  have hopens := target_eq_ok_iff.mp htarget
  obtain ⟨arrival, harrives, harrival⟩ := hopens.arrives
  have hfault : ∀ fault, arrival ≠ .fault fault := by
    rintro fault rfl
    simp at harrival
  have hout := (h.resolveParts_eq hpath true).2
  rw [(resolveParts_eq_iff hfault).mpr ⟨hopens.isResolvable, harrives⟩] at hout
  rcases harrival with rfl | ⟨above, name, rfl, rfl⟩
  · exact hout.1
  · exact hout.1

theorem writeText (h : AgreeOutside home start tree other) (hpath : StaysOutside home start path)
    (text : String) :
    Paired (AgreeOutside home start) (tree.writeText path text) (other.writeText path text) := by
  obtain ⟨hsame, hlink⟩ := h.target_eq hpath
  simp only [FileTree.writeText, writeBytes, hsame]
  cases htarget : tree.target path with
  | error fault => exact .fails fault
  | ok place =>
    exact .done (h.put (target_eq_ok_iff.mp htarget).ne_nil (hlink place htarget) (by simp))

/-! ## Creating directories -/

theorem createDirectory (h : AgreeOutside home start tree other)
    (hpath : StaysOutside home start path) :
    Paired (AgreeOutside home start) (tree.createDirectory path) (other.createDirectory path) := by
  obtain ⟨hsame, hout⟩ := h.resolveParts_eq hpath false
  unfold FileTree.createDirectory
  rw [hsame]
  cases hresolve : tree.resolveParts false path (bareSteps path) with
  | «at» place => exact .fails .exists
  | missing directory name =>
    rw [hresolve] at hout
    dsimp only
    split
    · exact .fails .notFound
    · exact .done (h.put (by simp) (by simp [hout.2]) (by simp))
  | link directory target behind => exact .fails .exists
  | fault fault => exact .fails fault

theorem createDirectories (h : AgreeOutside home start tree other)
    (hpath : StaysOutside home start path) (fuel : Nat) :
    (FileTree.createDirectories fuel other path).1 =
        (FileTree.createDirectories fuel tree path).1 ∧
      AgreeOutside home start (FileTree.createDirectories fuel tree path).2
        (FileTree.createDirectories fuel other path).2 :=
  createDirectories_paired (P := StaysOutside home start) (fun hpath => hpath.parent)
    (fun h hpath => h.createDirectory hpath) (fun h hpath => h.isDirectory_eq hpath) h hpath fuel

theorem ensureDirectory (h : AgreeOutside home start tree other)
    (hpath : StaysOutside home start path) :
    (other.ensureDirectory path).1 = (tree.ensureDirectory path).1 ∧
      AgreeOutside home start (tree.ensureDirectory path).2 (other.ensureDirectory path).2 :=
  h.createDirectories hpath _

end AgreeOutside

/-! ## What is inside -/

/-- The files inside a directory are still there, and no others. -/
def KeepsInside (home : Place) (tree later : FileTree) : Prop :=
  ∀ place bytes, home <+: place →
    (later.entry? place = some (.file bytes) ↔ tree.entry? place = some (.file bytes))

theorem AgreeOutside.keepsInside_of_writeText {text : String}
    (h : AgreeOutside home start tree other) (hpath : StaysOutside home start path)
    (hwrite : tree.writeText path text = .ok later) : KeepsInside home tree later := by
  obtain ⟨place, hopens, rfl⟩ := writeText_eq_ok_iff.mp hwrite
  have hout := h.outside_of_target hpath (target_eq_ok_iff.mpr hopens)
  intro found bytes hfound
  rw [entry?_put_of_ne tree hopens.ne_nil]
  rintro rfl
  exact hout hfound

theorem keepsInside_of_ensureDirectory (home : Place) (tree : FileTree) (path : String) :
    KeepsInside home tree (tree.ensureDirectory path).2 :=
  fun place bytes _ => (ensureDirectory_created tree path).file_iff place bytes

end PageManifest.FileTree
