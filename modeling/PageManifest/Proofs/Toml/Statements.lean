import PageManifest.Proofs.Json.Lengths
import PageManifest.Toml.Reader

/-!
# Statements of settings files

A settings file consists of headers and assignments. What its lines say does not depend on the
tables that there are so far: a text is read just if its lines are statements and these can be
followed one after the other (`read_eq_ok_iff`).
-/

namespace PageManifest.Toml

/-- What a line says, unless it is blank or a comment. -/
inductive Statement where
  /-- A table starts. -/
  | header (path : List Key) (isRepeatable : Bool) (stretch : Stretch)
  /-- A key of the current table gets an item. -/
  | assignment (path : List Key) (key : Key) (item : Item)
deriving DecidableEq

/-- Changes the tables as a statement says. -/
def Draft.follow (draft : Draft) : Statement → Except Cause Draft
  | .header path isRepeatable stretch => draft.start path isRepeatable stretch
  | .assignment path key item => draft.add path key item

/-- The entries of a document with given statements. -/
def build (statements : List Statement) : Except Cause Entries := do
  (← statements.foldlM Draft.follow {}).closed

/-! ## The statements of a text -/

/-- Reads a header up to the end of its line. -/
def headerStatement (cs : List Char) : Except Failure (Statement × List Char) :=
  match cs with
  | [_] => stop cs
  | _ => do
    let isRepeatable := (word ['[', '['] cs).toOption.isSome
    let (path, stretch, rest) ← headerLine cs (if isRepeatable then 2 else 1)
    return (.header path isRepeatable stretch, rest)

/-- Reads a line behind its blanks: what it says, if anything. -/
def statementLine (cs : List Char) : Except Failure (List Statement × List Char) :=
  match cs with
  | '#' :: rest => do return ([], ← lineEnd (skipComment ('#' :: rest)))
  | '[' :: rest => do
    let (statement, rest) ← headerStatement ('[' :: rest)
    return ([statement], rest)
  | '\n' :: rest => .ok ([], rest)
  | '\r' :: rest => do return ([], ← lineEnd ('\r' :: rest))
  | cs => do
    let ((path, key, item), rest) ← assignmentLine cs
    return ([.assignment path key item], rest)

/-- Reads the lines that are left. -/
def statementsWithin : Nat → List Char → Except Failure (List Statement)
  | 0, _ => .ok []
  | fuel + 1, cs =>
    if (skipBlanks cs).isEmpty then .ok []
    else do
      let (said, rest) ← statementLine (skipBlanks cs)
      return said ++ (← statementsWithin fuel rest)

/-- The statements of a settings file, if its lines are well-formed. -/
def statements (text : String) : Except Failure (List Statement) :=
  let cs := skipByteOrderMark text.toList
  statementsWithin (cs.length + 1) cs

/-! ## Reading and following -/

variable {α : Type} {draft later : Draft} {cs rest : List Char}

theorem mapError_eq_ok {ε δ : Type} {f : ε → δ} {attempt : Except ε α} {a : α} :
    attempt.mapError f = .ok a ↔ attempt = .ok a := by
  cases attempt with
  | ok b =>
    show Except.ok b = Except.ok a ↔ _
    rw [Except.ok.injEq, Except.ok.injEq]
  | error e => exact ⟨nofun, nofun⟩

theorem header_eq_ok_iff :
    header draft cs = .ok (later, rest) ↔
      ∃ statement, headerStatement cs = .ok (statement, rest) ∧
        draft.follow statement = .ok later := by
  unfold header headerStatement
  rw [naming, mapError_eq_ok]
  split
  · simp [stop]
  · simp only [bind_eq_ok]
    constructor
    · rintro ⟨⟨path, stretch, behind⟩, hline, h⟩
      dsimp only at h
      split at h
      · rename_i started hstart
        cases h
        exact ⟨_, ⟨_, hline, rfl⟩, hstart⟩
      · cases h
    · rintro ⟨statement, ⟨⟨path, stretch, behind⟩, hline, h⟩, hfollow⟩
      cases h
      refine ⟨_, hline, ?_⟩
      rw [Draft.follow] at hfollow
      dsimp only
      rw [hfollow]
      rfl

theorem foldlM_follow_header {path : List Key} {isRepeatable : Bool} {stretch : Stretch}
    (h : draft.start path isRepeatable stretch = .ok later) (said : List Statement) :
    (.header path isRepeatable stretch :: said).foldlM Draft.follow draft =
      said.foldlM Draft.follow later := by
  rw [List.foldlM_cons, Draft.follow, h]
  rfl

theorem foldlM_follow_assignment {path : List Key} {key : Key} {item : Item}
    (h : draft.add path key item = .ok later) (said : List Statement) :
    (.assignment path key item :: said).foldlM Draft.follow draft =
      said.foldlM Draft.follow later := by
  rw [List.foldlM_cons, Draft.follow, h]
  rfl

theorem foldlM_follow_singleton {statement : Statement} :
    [statement].foldlM Draft.follow draft = .ok later ↔ draft.follow statement = .ok later := by
  rw [List.foldlM_cons, bind_eq_ok]
  simp [pure, Except.pure]

/-- A line that says nothing changes no table. -/
theorem exists_nothing_said_iff {fuel : Nat} {attempt : Except Failure (List Char)} :
    (∃ said rest middle, (do return ([], ← attempt)) = Except.ok (said, rest) ∧
        said.foldlM Draft.follow draft = .ok middle ∧ lines fuel middle rest = .ok later) ↔
      ∃ rest, attempt = .ok rest ∧ lines fuel draft rest = .ok later := by
  constructor
  · rintro ⟨said, rest, middle, hline, hfollow, hlines⟩
    obtain ⟨rest, hattempt, heq⟩ := bind_eq_ok.mp hline
    cases heq
    cases hfollow
    exact ⟨rest, hattempt, hlines⟩
  · rintro ⟨rest, rfl, hlines⟩
    exact ⟨[], rest, draft, rfl, rfl, hlines⟩

/-- A line with a statement changes the tables as the statement says. -/
theorem exists_one_said_iff {fuel : Nat} {attempt : Except Failure (α × List Char)}
    {statement : α → Statement} :
    (∃ said rest middle,
        (do let found ← attempt; return ([statement found.1], found.2)) = Except.ok (said, rest) ∧
        said.foldlM Draft.follow draft = .ok middle ∧ lines fuel middle rest = .ok later) ↔
      ∃ found middle, attempt = .ok found ∧ draft.follow (statement found.1) = .ok middle ∧
        lines fuel middle found.2 = .ok later := by
  constructor
  · rintro ⟨said, rest, middle, hline, hfollow, hlines⟩
    obtain ⟨found, hattempt, heq⟩ := bind_eq_ok.mp hline
    cases heq
    exact ⟨found, middle, hattempt, foldlM_follow_singleton.mp hfollow, hlines⟩
  · rintro ⟨found, middle, rfl, hfollow, hlines⟩
    exact ⟨_, found.2, middle, rfl, foldlM_follow_singleton.mpr hfollow, hlines⟩

theorem lines_succ_eq_ok_iff {fuel : Nat} (h : skipBlanks cs ≠ []) :
    lines (fuel + 1) draft cs = .ok later ↔
      ∃ said rest middle, statementLine (skipBlanks cs) = .ok (said, rest) ∧
        said.foldlM Draft.follow draft = .ok middle ∧ lines fuel middle rest = .ok later := by
  rw [lines]
  split
  · rename_i hskip
    exact absurd hskip h
  · rename_i inside hskip
    rw [hskip, bind_eq_ok]
    refine Iff.trans (exists_congr fun rest => ?_) exists_nothing_said_iff.symm
    exact and_congr_left' mapError_eq_ok
  · rename_i inside hskip
    have hone := @exists_one_said_iff Statement draft later fuel (headerStatement ('[' :: inside)) id
    rw [hskip, bind_eq_ok]
    refine Iff.trans ?_ hone.symm
    constructor
    · rintro ⟨⟨middle, rest⟩, hheader, hlines⟩
      obtain ⟨statement, hline, hfollow⟩ := header_eq_ok_iff.mp (mapError_eq_ok.mp hheader)
      exact ⟨(statement, rest), middle, hline, hfollow, hlines⟩
    · rintro ⟨⟨statement, rest⟩, middle, hline, hfollow, hlines⟩
      exact ⟨(middle, rest),
        mapError_eq_ok.mpr (header_eq_ok_iff.mpr ⟨statement, hline, hfollow⟩), hlines⟩
  · rename_i rest hskip
    rw [hskip]
    constructor
    · intro hlines
      exact ⟨[], rest, draft, rfl, rfl, hlines⟩
    · rintro ⟨said, rest, middle, ⟨⟩, ⟨⟩, hlines⟩
      exact hlines
  · rename_i inside hskip
    rw [hskip, bind_eq_ok]
    exact exists_nothing_said_iff.symm
  · rename_i hempty hcomment hheader hfeed hreturn
    have hone := @exists_one_said_iff _ draft later fuel (assignmentLine (skipBlanks cs))
      fun found => .assignment found.1 found.2.1 found.2.2
    rw [statementLine.eq_5 _ hcomment hheader hfeed hreturn, bind_eq_ok]
    refine Iff.trans ?_ hone.symm
    constructor
    · rintro ⟨⟨⟨path, key, item⟩, rest⟩, hline, hlines⟩
      dsimp only at hlines
      split at hlines
      · rename_i middle hadd
        exact ⟨_, middle, mapError_eq_ok.mp hline, hadd, hlines⟩
      · cases hlines
    · rintro ⟨⟨⟨path, key, item⟩, rest⟩, middle, hline, hadd, hlines⟩
      refine ⟨_, mapError_eq_ok.mpr hline, ?_⟩
      rw [Draft.follow] at hadd
      dsimp only at hadd ⊢
      rw [hadd]
      exact hlines

theorem lines_eq_ok_iff {fuel : Nat} :
    lines fuel draft cs = .ok later ↔
      ∃ said, statementsWithin fuel cs = .ok said ∧ said.foldlM Draft.follow draft = .ok later := by
  induction fuel generalizing draft cs with
  | zero =>
    rw [lines, statementsWithin]
    simp [pure, Except.pure]
  | succ fuel ih =>
    rw [statementsWithin]
    by_cases hskip : skipBlanks cs = []
    · rw [lines, hskip]
      simp [pure, Except.pure]
    · rw [lines_succ_eq_ok_iff hskip, if_neg (by simpa using hskip)]
      constructor
      · rintro ⟨said, rest, middle, hline, hfollow, hlines⟩
        obtain ⟨more, hmore, hlater⟩ := ih.mp hlines
        refine ⟨said ++ more, ?_, ?_⟩
        · rw [hline]
          dsimp only [bind, Except.bind]
          rw [hmore]
          rfl
        · rw [List.foldlM_append, hfollow]
          exact hlater
      · rintro ⟨all, hall, hfollow⟩
        obtain ⟨⟨said, rest⟩, hline, hrest⟩ := bind_eq_ok.mp hall
        obtain ⟨more, hmore, h⟩ := bind_eq_ok.mp hrest
        cases h
        rw [List.foldlM_append] at hfollow
        obtain ⟨middle, hsaid, hlater⟩ := bind_eq_ok.mp hfollow
        exact ⟨said, rest, middle, hline, hsaid, ih.mpr ⟨more, hmore, hlater⟩⟩

/-- A text is read just if its statements can be followed. -/
theorem read_eq_ok_iff {text : String} {entries : Entries} :
    read text = .ok entries ↔ ∃ said, statements text = .ok said ∧ build said = .ok entries := by
  have hbuild : ∀ said, build said = .ok entries ↔
      ∃ draft, said.foldlM Draft.follow {} = .ok draft ∧ draft.closed = .ok entries := by
    intro said
    rw [build, bind_eq_ok]
  simp only [hbuild, statements]
  constructor
  · intro h
    unfold read at h
    dsimp only at h
    split at h
    · rename_i found hread
      cases h
      obtain ⟨draft, hlines, hclosed⟩ := bind_eq_ok.mp hread
      obtain ⟨said, hsaid, hfollow⟩ := lines_eq_ok_iff.mp hlines
      refine ⟨said, hsaid, draft, hfollow, ?_⟩
      split at hclosed
      · rename_i closed h
        cases hclosed
        exact h
      · cases hclosed
    · cases h
  · rintro ⟨said, hsaid, draft, hfollow, hclosed⟩
    have hlines := lines_eq_ok_iff.mpr ⟨said, hsaid, hfollow⟩
    rw [read, hlines]
    dsimp only [bind, Except.bind]
    rw [hclosed]

end PageManifest.Toml
