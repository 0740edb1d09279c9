import PageManifest.Proofs.Yaml.Lexer

/-!
# Comments and blank lines

A text of comments and blank lines (`IdleText`) is nothing to the lexer: it is skipped up to
its end wherever a token could start (`skipGaps_idle`), so that what stands in front of it is
followed by the end of the stream at once (`Lexer.At.run_idle`).
-/

namespace PageManifest.Yaml

/-! ## Idle texts -/

/-- Whether a line holds nothing but spaces and, behind them, a comment of printable ASCII
characters. -/
def isIdleLine (line : List Char) : Bool :=
  match line.dropWhile (· == ' ') with
  | [] => true
  | c :: comment => c == '#' && comment.all fun d => 0x20 ≤ d.toNat && d.toNat ≤ 0x7E

/-- Lines of spaces and comments with line breaks between them. -/
inductive IdleText : List Char → Prop where
  | last {line : List Char} : isIdleLine line = true → IdleText line
  | next {line : List Char} {c : Char} {rest : List Char} : isIdleLine line = true →
      isBreak c = true → IdleText rest → IdleText (line ++ c :: rest)

/-- What an idle line consists of. -/
theorem exists_of_isIdleLine {line : List Char} (h : isIdleLine line = true) :
    ∃ spaces comment, line = spaces ++ comment ∧ (∀ c ∈ spaces, c = ' ') ∧
      (∀ c ∈ comment.head?, c = '#') ∧ ∀ c ∈ comment, 0x20 ≤ c.toNat ∧ c.toNat ≤ 0x7E := by
  have hspaces : ∀ c ∈ line.takeWhile (· == ' '), c = ' ' := fun c hc =>
    beq_iff_eq.mp (List.all_eq_true.mp List.all_takeWhile c hc)
  refine ⟨_, _, List.takeWhile_append_dropWhile.symm, hspaces, ?_⟩
  unfold isIdleLine at h
  split at h
  · rename_i hrest
    simp [hrest]
  · rename_i c body hrest
    rw [Bool.and_eq_true, beq_iff_eq] at h
    obtain ⟨rfl, hbody⟩ := h
    simpa [hrest] using hbody

theorem isAllowed_of_printable {c : Char} (h : 0x20 ≤ c.toNat ∧ c.toNat ≤ 0x7E) :
    isAllowed c = true := by
  simp [isAllowed, h.1, h.2]

theorem isBreak_of_printable {c : Char} (h : 0x20 ≤ c.toNat ∧ c.toNat ≤ 0x7E) :
    isBreak c = false := by
  rw [← Bool.not_eq_true]
  intro hbreak
  simp only [isBreak, Bool.or_eq_true, beq_iff_eq] at hbreak
  obtain (((rfl | rfl) | rfl) | rfl) | rfl := hbreak <;> exact absurd h (by decide)

theorem isAllowed_of_isBreak {c : Char} (h : isBreak c = true) : isAllowed c = true := by
  simp only [isBreak, Bool.or_eq_true, beq_iff_eq] at h
  obtain (((rfl | rfl) | rfl) | rfl) | rfl := h <;> decide

theorem printable_of_isIdleLine {line : List Char} (h : isIdleLine line = true) :
    ∀ c ∈ line, 0x20 ≤ c.toNat ∧ c.toNat ≤ 0x7E := by
  obtain ⟨spaces, comment, rfl, hspaces, -, hcomment⟩ := exists_of_isIdleLine h
  rw [List.forall_mem_append]
  refine ⟨fun c hc => ?_, hcomment⟩
  rw [hspaces c hc]
  decide

namespace IdleText

variable {text rest : List Char}

theorem nil : IdleText [] := .last rfl

theorem printable_or_isBreak (h : IdleText text) :
    ∀ c ∈ text, (0x20 ≤ c.toNat ∧ c.toNat ≤ 0x7E) ∨ isBreak c = true := by
  induction h with
  | last hline => exact fun c hc => .inl (printable_of_isIdleLine hline c hc)
  | next hline hbreak _ ih =>
    rw [List.forall_mem_append, List.forall_mem_cons]
    exact ⟨fun c hc => .inl (printable_of_isIdleLine hline c hc), .inr hbreak, ih⟩

theorem isAllowed (h : IdleText text) : ∀ c ∈ text, isAllowed c = true := fun c hc =>
  (h.printable_or_isBreak c hc).elim isAllowed_of_printable isAllowed_of_isBreak

/-- A line break at the start ends a line without characters. -/
theorem of_cons_break {c : Char} (hc : isBreak c = true) (h : IdleText (c :: rest)) :
    IdleText rest := by
  have hchar : ∀ {line}, isIdleLine (c :: line) = true → False := fun hline => by
    rw [isBreak_of_printable (printable_of_isIdleLine hline c List.mem_cons_self)] at hc
    cases hc
  generalize htext : c :: rest = text at h
  cases h with
  | last hline =>
    subst htext
    exact (hchar hline).elim
  | @next line d behind hline _ hbehind =>
    cases line with
    | nil =>
      cases htext
      exact hbehind
    | cons e line =>
      cases htext
      exact (hchar hline).elim

/-- A line break in front of an idle text ends one more line. -/
theorem cons_break {c : Char} (hc : isBreak c = true) (h : IdleText rest) :
    IdleText (c :: rest) :=
  .next (show isIdleLine [] = true from rfl) hc h

/-- Spaces and a comment come first, and then the text ends or there is a line break. -/
theorem exists_line (h : IdleText text) :
    ∃ spaces comment tail, text = spaces ++ (comment ++ tail) ∧ (∀ c ∈ spaces, c = ' ') ∧
      (∀ c ∈ comment.head?, c = '#') ∧ (∀ c ∈ comment, isBreak c = false) ∧
      (tail = [] ∨ ∃ c rest, tail = c :: rest ∧ isBreak c = true ∧ IdleText rest) := by
  have hsplit : ∃ line tail, text = line ++ tail ∧ isIdleLine line = true ∧
      (tail = [] ∨ ∃ c rest, tail = c :: rest ∧ isBreak c = true ∧ IdleText rest) := by
    cases h with
    | last hline => exact ⟨_, [], (List.append_nil _).symm, hline, .inl rfl⟩
    | next hline hbreak hrest => exact ⟨_, _, rfl, hline, .inr ⟨_, _, rfl, hbreak, hrest⟩⟩
  obtain ⟨line, tail, rfl, hline, htail⟩ := hsplit
  obtain ⟨spaces, comment, rfl, hspaces, hhead, hcomment⟩ := exists_of_isIdleLine hline
  exact ⟨spaces, comment, tail, List.append_assoc .., hspaces, hhead,
    fun c hc => isBreak_of_printable (hcomment c hc), htail⟩

end IdleText

/-! ## Skipping -/

theorem Cursor.skipWhile_rest {p : Char → Bool} {front behind : List Char} {cur : Cursor}
    (hcur : cur.rest = front ++ behind) (hfront : ∀ c ∈ front, p c = true)
    (hbehind : ∀ c ∈ behind.head?, p c = false) : (cur.skipWhile p).rest = behind := by
  have htaken : (front ++ behind).takeWhile p = front := by
    rw [List.takeWhile_append_of_pos hfront]
    cases behind with
    | nil => rw [List.takeWhile_nil, List.append_nil]
    | cons c behind =>
      rw [List.takeWhile_cons_of_neg (by simp [hbehind c rfl]), List.append_nil]
  rw [skipWhile, advance, hcur, htaken]
  exact List.drop_left

theorem Cursor.skipComment_rest {comment behind : List Char} {cur : Cursor}
    (hcur : cur.rest = comment ++ behind) (hhead : ∀ c ∈ comment.head?, c = '#')
    (hcomment : ∀ c ∈ comment, isBreak c = false) (hbehind : ∀ c ∈ behind.head?, isBreak c = true) :
    cur.skipComment.rest = behind := by
  cases comment with
  | nil =>
    rw [skipComment, if_neg, hcur, List.nil_append]
    rw [hcur]
    cases behind with
    | nil => exact Bool.false_ne_true
    | cons c behind =>
      rintro heq
      rw [beq_iff_eq.mp heq] at hbehind
      exact absurd (hbehind '#' rfl) (by decide)
  | cons c comment =>
    rw [skipComment, if_pos (by rw [hcur, hhead c rfl]; rfl), skipLine]
    exact skipWhile_rest hcur (fun d hd => by rw [hcomment d hd]; rfl)
      fun d hd => by rw [hbehind d hd]; rfl

/-- A carriage return takes a line feed behind it along. -/
theorem Cursor.skipBreak_rest {cur : Cursor} {c : Char} {rest : List Char}
    (hcur : cur.rest = c :: rest) (hc : isBreak c = true) :
    cur.skipBreak.rest = rest ∨ ∃ behind, rest = '\n' :: behind ∧ cur.skipBreak.rest = behind := by
  rw [skipBreak, takeBreak]
  dsimp only
  split
  · rename_i behind hbehind
    rw [hcur, List.cons.injEq] at hbehind
    exact .inr ⟨behind, hbehind.2, rfl⟩
  · rename_i d behind _ hbehind
    rw [hcur, List.cons.injEq] at hbehind
    obtain ⟨rfl, rfl⟩ := hbehind
    split
    · exact .inl rfl
    · exact .inl rfl
  · rename_i hbehind
    rw [hcur] at hbehind
    cases hbehind

namespace Lexer

/-- The lexer at the end of its text, where a key may start or not. -/
def atEnd (lx : Lexer) (mark : Mark) (allowed : Bool) : Lexer :=
  { lx with cursor := ⟨[], mark⟩, keyAllowed := allowed }

/-- Comments and blank lines are skipped up to the end of the text. -/
theorem skipGaps_idle (fuel : Nat) (lx : Lexer) (h : IdleText lx.cursor.rest)
    (hfuel : lx.cursor.rest.length < fuel) :
    ∃ mark allowed, skipGaps fuel lx = lx.atEnd mark allowed := by
  induction fuel generalizing lx with
  | zero => exact absurd hfuel (Nat.not_lt_zero _)
  | succ fuel ih =>
    obtain ⟨spaces, comment, tail, htext, hspaces, hhead, hcomment, htail⟩ := h.exists_line
    have htailBreak : ∀ c ∈ tail.head?, isBreak c = true := by
      obtain rfl | ⟨c, rest, rfl, hc, -⟩ := htail
      · simp
      · rintro d ⟨⟩
        exact hc
    have hmark : startsWith (· == '\uFEFF') lx.cursor.rest = false := by
      cases hrest : lx.cursor.rest with
      | nil => rfl
      | cons c rest =>
        have hc := h.printable_or_isBreak c (hrest ▸ List.mem_cons_self)
        rw [startsWith, beq_eq_false_iff_ne]
        rintro rfl
        exact absurd hc (by decide)
    have hpad : ∀ c ∈ (comment ++ tail).head?, c ≠ ' ' ∧ c ≠ '\t' := by
      cases comment with
      | nil =>
        refine fun c hc => ⟨?_, ?_⟩ <;> rintro rfl <;> exact absurd (htailBreak _ hc) (by decide)
      | cons d comment =>
        rintro c ⟨⟩
        rw [hhead d rfl]
        decide
    -- The cursor behind the spaces, and behind the comment.
    obtain ⟨spaced, hspaced⟩ : ∃ spaced, spaced = lx.cursor.skipWhile
        fun c => c == ' ' || (lx.inFlow || !lx.keyAllowed) && c == '\t' := ⟨_, rfl⟩
    have hspacedRest : spaced.rest = comment ++ tail := by
      rw [hspaced]
      refine Cursor.skipWhile_rest htext (fun c hc => by simp [hspaces c hc]) fun c hc => ?_
      simp [hpad c hc]
    have hlineRest : spaced.skipComment.rest = tail :=
      Cursor.skipComment_rest hspacedRest hhead hcomment htailBreak
    rw [skipGaps, hmark, Bool.and_false, if_neg Bool.false_ne_true, ← hspaced, hlineRest]
    obtain rfl | ⟨c, rest, rfl, hc, hidle⟩ := htail
    · refine ⟨spaced.skipComment.mark, lx.keyAllowed, ?_⟩
      rw [startsWith, if_neg Bool.false_ne_true, atEnd, ← hlineRest]
    · rw [startsWith, if_pos hc]
      have hlength : rest.length < fuel := by
        rw [htext, List.length_append, List.length_append, List.length_cons] at hfuel
        omega
      have hnext : IdleText spaced.skipComment.skipBreak.rest ∧
          spaced.skipComment.skipBreak.rest.length < fuel := by
        obtain hrest | ⟨behind, rfl, hrest⟩ := Cursor.skipBreak_rest hlineRest hc
        · rw [hrest]
          exact ⟨hidle, hlength⟩
        · rw [hrest]
          rw [List.length_cons] at hlength
          exact ⟨hidle.of_cons_break rfl, by omega⟩
      exact ih { lx with
        cursor := spaced.skipComment.skipBreak
        keyAllowed := lx.keyAllowed || !lx.inFlow } hnext.1 hnext.2

namespace At

variable {lx : Lexer} {found : List Token} {rest : List Char}

theorem atEnd (h : At lx 0 found rest) (mark : Mark) (allowed : Bool) :
    At (lx.atEnd mark allowed) 0 found [] :=
  ⟨rfl, fun hdepth => absurd hdepth (Nat.lt_irrefl 0), Nat.zero_le _, h.indent, h.outerIndents,
    h.level, h.optional, h.tokens_eq⟩

/-- Outside of brackets the stream ends behind comments and blank lines. -/
theorem run_idle (h : At lx 0 found rest) (hidle : IdleText rest) (fuel : Nat) :
    ∃ last, last.token = .streamEnd ∧
      lx.run none (fuel + 1) = ⟨lx.lexemes.reverse ++ [last], none⟩ := by
  obtain ⟨mark, allowed, hskip⟩ := skipGaps_idle (lx.size + 1) lx (h.rest_eq ▸ hidle)
    (by rw [h.rest_eq]; exact Nat.lt_succ_of_le h.size)
  have hatEnd := h.atEnd mark allowed
  have hstay : skipGaps ((lx.atEnd mark allowed).size + 1) (lx.atEnd mark allowed) =
      lx.atEnd mark allowed := skipGaps_of_startsToken (by simp [StartsToken, Lexer.atEnd]) _
  have hstep : lx.step = (lx.atEnd mark allowed).step := by
    rw [step, step, hskip, hstay]
  have hrun : lx.run none (fuel + 1) = (lx.atEnd mark allowed).run none (fuel + 1) := by
    rw [run, run, hstep]
    rfl
  rw [hrun]
  exact hatEnd.run_end fuel

end At

end Lexer

end PageManifest.Yaml
