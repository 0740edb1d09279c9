import PageManifest.Proofs.General
import PageManifest.Proofs.Yaml.Scalars
import PageManifest.Yaml.Lexer

/-!
# The lexer inside brackets

In brackets on one line there is no indentation and no token must be a key, so the state
between two tokens is described by a few facts (`Lexer.At`), and each token is one lemma
about them. Only a key needs more: it is noted in front of its string, and if it reaches no
more than 1024 bytes it is still fresh at its colon and its token goes in front of the string
(`Lexer.At.key`). A key that reaches further has no token of its own (`Lexer.At.farKey`).

What the lexer does in front of a token does not depend on the text behind that token, so a
run of it (`Lexer.Reaches`) is one whatever text is added at the end (`Lexer.extend`).
-/

namespace PageManifest.Yaml

open Json

namespace Lexer

/-! ## The tokens so far -/

/-- The tokens so far, the first one first. -/
def tokens (lx : Lexer) : List Token := lx.lexemes.reverse.map Lexeme.token

theorem tokens_push (lx : Lexer) (token : Token) (start stop : Mark) :
    (lx.push token start stop).tokens = lx.tokens ++ [token] := by
  simp [tokens, push]

theorem exists_lexemes_eq_cons {lx : Lexer} {found : List Token} {token : Token}
    (h : lx.tokens = found ++ [token]) : ∃ last others,
    lx.lexemes = last :: others ∧ last.token = token ∧
      others.reverse.map Lexeme.token = found := by
  rw [tokens] at h
  cases hlexemes : lx.lexemes with
  | nil =>
    rw [hlexemes] at h
    exact absurd h.symm (List.append_ne_nil_of_right_ne_nil _ (List.cons_ne_nil _ _))
  | cons last others =>
    rw [hlexemes, List.reverse_cons, List.map_append] at h
    obtain ⟨hfound, htoken⟩ := List.append_inj' h rfl
    exact ⟨last, others, rfl, List.singleton_inj.mp htoken, hfound⟩

theorem tokens_insertAt {lx : Lexer} {found : List Token} {last : Token}
    (h : lx.tokens = found ++ [last]) {number : Nat} (hnumber : lx.count = number + 1)
    (token : Token) (mark : Mark) :
    (lx.insertAt number token mark).tokens = found ++ [token, last] := by
  obtain ⟨lexeme, others, hlexemes, rfl, rfl⟩ := exists_lexemes_eq_cons h
  have hback : lx.count - number = 1 := by omega
  simp [tokens, insertAt, hback, hlexemes]

theorem ended_eq {lx : Lexer} {found : List Token} {token : Token}
    (h : lx.tokens = found ++ [token]) : lx.ended = (token == .streamEnd) := by
  obtain ⟨last, others, hlexemes, rfl, -⟩ := exists_lexemes_eq_cons h
  rw [ended, hlexemes]

/-! ## Keys that nothing demands -/

/-- No token must turn out to be a key. -/
def Optional (lx : Lexer) : Prop :=
  ∀ key, some key ∈ lx.pending :: lx.outerPending → key.required = false

/-- The lexer without the keys that are stale. -/
def fresh (lx : Lexer) : Lexer :=
  { lx with
    pending := lx.pending.filter (!isStale lx.mark ·)
    outerPending := lx.outerPending.map (·.filter (!isStale lx.mark ·)) }

theorem giveUp_of_optional {key : Option PendingKey} (h : ∀ k, key = some k → k.required = false)
    (cur : Cursor) : giveUp cur key = .ok none := by
  cases key with
  | none => rfl
  | some k => rw [giveUp, if_neg (by simp [h k rfl])]

theorem refresh_of_optional {key : Option PendingKey}
    (h : ∀ k, key = some k → k.required = false) (cur : Cursor) :
    refresh cur key = .ok (key.filter (!isStale cur.mark ·)) := by
  cases key with
  | none => rfl
  | some k =>
    rw [refresh]
    split
    · rename_i hstale
      rw [giveUp_of_optional h, Option.filter_some, if_neg (by simp [hstale])]
    · rename_i hfresh
      rw [Option.filter_some, if_pos (by simpa using hfresh)]

theorem dropStale_of_optional {lx : Lexer} (h : lx.Optional) : lx.dropStale = .ok lx.fresh := by
  have houter : lx.outerPending.reverse.mapM (refresh lx.cursor) =
      .ok (lx.outerPending.reverse.map (·.filter (!isStale lx.mark ·))) := by
    refine mapM_of_forall fun key hkey => refresh_of_optional ?_ _
    rintro k rfl
    exact h k (List.mem_cons_of_mem _ (List.mem_reverse.mp hkey))
  have hpending : refresh lx.cursor lx.pending = .ok (lx.pending.filter (!isStale lx.mark ·)) :=
    refresh_of_optional (fun k hk => h k (hk ▸ List.mem_cons_self)) _
  rw [dropStale, houter, hpending]
  simp [bind, Except.bind, pure, Except.pure, fresh]

theorem dropKey_of_optional {lx : Lexer} (h : lx.Optional) :
    lx.dropKey = .ok { lx with pending := none } := by
  rw [dropKey, giveUp_of_optional fun k hk => h k (hk ▸ List.mem_cons_self)]
  rfl

/-- The lexer where a key may start, or may not. -/
def permit (lx : Lexer) (allowed : Bool) : Lexer := { lx with keyAllowed := allowed }

/-- The lexer after it has noted that the next token may be a key, if it may. -/
def noted (lx : Lexer) : Lexer :=
  if lx.keyAllowed then { lx with pending := some ⟨lx.count, lx.mark, false⟩ } else lx

/-- The lexer behind a token that is written with some characters. -/
def behind (lx : Lexer) (token : Token) (written rest : List Char) : Lexer :=
  { lx.push token lx.mark (lx.mark.past written) with
    cursor := ⟨rest, lx.mark.past written⟩ }

/-- The lexer with more text at the end. -/
def extend (lx : Lexer) (tail : List Char) : Lexer :=
  { lx with
    cursor := { lx.cursor with rest := lx.cursor.rest ++ tail }
    size := lx.size + tail.length }

theorem noted_extend (lx : Lexer) (tail : List Char) :
    (lx.extend tail).noted = lx.noted.extend tail := by
  rw [noted, noted]
  show (if lx.keyAllowed then _ else _) = _
  split
  · rfl
  · rfl

/-- The lexer inside a bracket. -/
def enter (lx : Lexer) : Lexer :=
  { lx with outerPending := lx.pending :: lx.outerPending, pending := none }

/-! ## Between two tokens -/

/-- The lexer is in a text of one line, so many brackets deep, behind some tokens and in
front of some characters, and no token must turn out to be a key. -/
structure At (lx : Lexer) (depth : Nat) (found : List Token) (rest : List Char) : Prop where
  rest_eq : lx.cursor.rest = rest
  column : 0 < depth → 0 < lx.mark.column
  size : rest.length ≤ lx.size
  indent : lx.indent = -1
  outerIndents : lx.outerIndents = []
  level : lx.outerPending.length = depth
  optional : lx.Optional
  tokens_eq : lx.tokens = found

namespace At

variable {lx : Lexer} {depth : Nat} {found : List Token} {rest : List Char}

theorem fresh (h : At lx depth found rest) : At lx.fresh depth found rest := by
  have hoptional : lx.fresh.Optional := by
    intro key hkey
    rw [List.mem_cons] at hkey
    obtain hkey | hkey := hkey
    · have hmem := Option.eq_some_of_filter_eq_some hkey.symm
      exact h.optional key (hmem ▸ List.mem_cons_self)
    · obtain ⟨other, hother, hfilter⟩ := List.mem_map.mp hkey
      have hmem := Option.eq_some_of_filter_eq_some hfilter
      exact h.optional key (List.mem_cons_of_mem _ (hmem ▸ hother))
  have hlevel : lx.fresh.outerPending.length = depth := by
    rw [Lexer.fresh, List.length_map, h.level]
  exact ⟨h.rest_eq, h.column, h.size, h.indent, h.outerIndents, hlevel, hoptional, h.tokens_eq⟩

theorem extend (h : At lx depth found rest) (tail : List Char) :
    At (lx.extend tail) depth found (rest ++ tail) := by
  have hsize : (rest ++ tail).length ≤ lx.size + tail.length := by
    rw [List.length_append]
    exact Nat.add_le_add_right h.size _
  exact ⟨congrArg (· ++ tail) h.rest_eq, h.column, hsize, h.indent, h.outerIndents, h.level,
    h.optional, h.tokens_eq⟩

theorem permit (h : At lx depth found rest) (allowed : Bool) :
    At (lx.permit allowed) depth found rest :=
  ⟨h.rest_eq, h.column, h.size, h.indent, h.outerIndents, h.level, h.optional, h.tokens_eq⟩

theorem withPending (h : At lx depth found rest) {key : Option PendingKey}
    (hkey : ∀ k, key = some k → k.required = false) :
    At { lx with pending := key } depth found rest := by
  have hoptional : Lexer.Optional { lx with pending := key } := by
    intro k hk
    rw [List.mem_cons] at hk
    obtain hk | hk := hk
    · exact hkey k hk.symm
    · exact h.optional k (List.mem_cons_of_mem _ hk)
  exact ⟨h.rest_eq, h.column, h.size, h.indent, h.outerIndents, h.level, hoptional, h.tokens_eq⟩

theorem enter (h : At lx depth found rest) (hcolumn : 0 < lx.mark.column) :
    At lx.enter (depth + 1) found rest := by
  have hoptional : lx.enter.Optional := by
    intro k hk
    rw [List.mem_cons] at hk
    obtain hk | hk := hk
    · cases hk
    · exact h.optional k hk
  exact ⟨h.rest_eq, fun _ => hcolumn, h.size, h.indent, h.outerIndents, congrArg (· + 1) h.level,
    hoptional, h.tokens_eq⟩

theorem leave {key : Option PendingKey} {outer : List (Option PendingKey)}
    (h : At lx (depth + 1) found rest) (houter : lx.outerPending = key :: outer) :
    At { lx with pending := key, outerPending := outer } depth found rest := by
  have hoptional : Lexer.Optional { lx with pending := key, outerPending := outer } := by
    intro k hk
    exact h.optional k (List.mem_cons_of_mem _ (houter ▸ hk))
  have hlevel : outer.length = depth := by
    have hlevel := h.level
    rw [houter, List.length_cons] at hlevel
    omega
  exact ⟨h.rest_eq, fun _ => h.column (Nat.succ_pos depth), h.size, h.indent, h.outerIndents,
    hlevel, hoptional, h.tokens_eq⟩

theorem inFlow (h : At lx depth found rest) (hdepth : 0 < depth) : lx.inFlow = true := by
  have hlevel := h.level
  rw [Lexer.inFlow]
  cases houter : lx.outerPending with
  | nil =>
    rw [houter, List.length_nil] at hlevel
    omega
  | cons key outer => rfl

theorem advance {written : List Char} (h : At lx depth found (written ++ rest)) :
    lx.cursor.advance written.length = ⟨rest, lx.mark.past written⟩ := by
  have hcursor : lx.cursor = ⟨written ++ rest, lx.mark⟩ := by
    rw [← h.rest_eq]
    rfl
  rw [hcursor, Cursor.advance_append written rest lx.mark rfl]

theorem behind {written : List Char} (h : At lx depth found (written ++ rest))
    (hne : written ≠ []) (token : Token) :
    At (lx.behind token written rest) depth (found ++ [token]) rest := by
  have hcolumn : 0 < (lx.mark.past written).column := by
    have := List.length_pos_iff.mpr hne
    rw [Mark.past_column]
    omega
  have hsize : rest.length ≤ lx.size := by
    have := h.size
    rw [List.length_append] at this
    omega
  have htokens : (lx.behind token written rest).tokens = found ++ [token] := by
    rw [← h.tokens_eq, ← tokens_push lx token lx.mark (lx.mark.past written)]
    rfl
  exact ⟨rfl, fun _ => hcolumn, hsize, h.indent, h.outerIndents, h.level, h.optional, htokens⟩

theorem pushNext_eq {c : Char} (h : At lx depth found (c :: rest)) (token : Token) :
    lx.pushNext token 1 = lx.behind token [c] rest := by
  have hcons : At lx depth found ([c] ++ rest) := h
  have hnext : lx.cursor.advance 1 = ⟨rest, lx.mark.past [c]⟩ := hcons.advance
  rw [Lexer.pushNext, hnext]
  rfl

theorem pushNext_extend {c : Char} (h : At lx depth found (c :: rest)) (token : Token)
    (tail : List Char) : (lx.extend tail).pushNext token 1 = (lx.pushNext token 1).extend tail := by
  have hbehind : At (lx.extend tail) depth found (c :: (rest ++ tail)) := h.extend tail
  rw [h.pushNext_eq, hbehind.pushNext_eq]
  rfl

theorem pushNext {c : Char} (h : At lx depth found (c :: rest)) (token : Token) :
    At (lx.pushNext token 1) depth (found ++ [token]) rest := by
  have hcons : At lx depth found ([c] ++ rest) := h
  rw [h.pushNext_eq]
  exact hcons.behind (List.cons_ne_nil _ _) token

theorem pushNext_column {token : Token} : 0 < (lx.pushNext token 1).mark.column := by
  rw [Lexer.pushNext, mark]
  dsimp only [Cursor.advance]
  omega

end At

/-! ## Turns -/

/-- What is in front starts a token: there is no gap to skip. -/
def StartsToken (rest : List Char) : Prop :=
  ∀ c ∈ rest.head?, isGap c = false ∧ c ≠ '#' ∧ c ≠ '\uFEFF'

theorem startsToken_cons {c : Char} (h : isGap c = false ∧ c ≠ '#' ∧ c ≠ '\uFEFF')
    (rest : List Char) : StartsToken (c :: rest) := by
  rintro d ⟨⟩
  exact h

theorem StartsToken.append {c : Char} {rest : List Char} (h : StartsToken (c :: rest))
    (tail : List Char) : StartsToken (c :: rest ++ tail) :=
  startsToken_cons (h c rfl) (rest ++ tail)

theorem startsToken_word {word : List Char} (hne : word ≠ [])
    (hword : ∀ c ∈ word, isNameChar c = true) (rest : List Char) : StartsToken (word ++ rest) := by
  obtain ⟨c, word, rfl⟩ := List.exists_cons_of_ne_nil hne
  have hc := hword c List.mem_cons_self
  exact startsToken_cons ⟨not_isGap_of_isNameChar hc, ne_of_isNameChar hc (by decide),
    ne_of_isNameChar hc (by decide)⟩ (word ++ rest)

theorem skipGaps_of_startsToken {lx : Lexer} (h : StartsToken lx.cursor.rest) (fuel : Nat) :
    skipGaps (fuel + 1) lx = lx := by
  obtain ⟨⟨rest, mark⟩, size, indent, outerIndents, pending, outerPending, keyAllowed, lexemes,
    count⟩ := lx
  cases rest with
  | nil => simp [skipGaps, startsWith, Cursor.skipWhile, Cursor.skipComment, Cursor.advance,
      byteCount]
  | cons c rest =>
    obtain ⟨hgap, hhash, hmark⟩ := h c rfl
    obtain ⟨hpad, hbreak⟩ := isGap_eq_false_iff.mp hgap
    have hpad : c ≠ ' ' ∧ c ≠ '\t' := by
      simpa [isPad] using hpad
    simp [skipGaps, startsWith, Cursor.skipWhile, Cursor.skipComment, Cursor.advance, byteCount,
      hhash, hmark, hbreak, hpad]

theorem dedentTo_of_outerIndents {lx : Lexer} (h : lx.outerIndents = []) (column : Int) :
    lx.dedentTo column = lx := by
  rw [dedentTo]
  split
  · rfl
  · rw [h, closeBlocks]
    exact h ▸ rfl

theorem At.step_eq {lx : Lexer} {depth : Nat} {found : List Token} {rest : List Char}
    (h : At lx depth found rest) (hrest : StartsToken rest) : lx.step = lx.fresh.readToken := by
  rw [step, skipGaps_of_startsToken (h.rest_eq ▸ hrest), dropStale_of_optional h.optional]
  dsimp only [bind, Except.bind]
  rw [dedentTo_of_outerIndents h.fresh.outerIndents]

/-- The lexer gets to a later state within a number of turns, whatever text is at the end. -/
def Reaches (turns : Nat) (lx later : Lexer) : Prop :=
  ∃ n ≤ turns, ∀ tail fuel, (lx.extend tail).run none (fuel + n) = (later.extend tail).run none fuel

theorem Reaches.refl (lx : Lexer) : Reaches 0 lx lx := ⟨0, Nat.le_refl 0, fun _ _ => rfl⟩

theorem Reaches.trans {m n : Nat} {a b c : Lexer} (hab : Reaches m a b) (hbc : Reaches n b c) :
    Reaches (m + n) a c := by
  obtain ⟨i, hi, hab⟩ := hab
  obtain ⟨j, hj, hbc⟩ := hbc
  refine ⟨j + i, by omega, fun tail fuel => ?_⟩
  rw [← Nat.add_assoc, hab, hbc]

theorem Reaches.mono {m n : Nat} {a b : Lexer} (h : Reaches m a b) (hmn : m ≤ n) :
    Reaches n a b := by
  obtain ⟨i, hi, hab⟩ := h
  exact ⟨i, Nat.le_trans hi hmn, hab⟩

/-- A turn reads a token. -/
theorem At.turn {lx next : Lexer} {depth depth' : Nat} {found found' : List Token}
    {token : Token} {c : Char} {rest rest' : List Char} (h : At lx depth found (c :: rest))
    (hrest : StartsToken (c :: rest))
    (hread : ∀ tail, (lx.extend tail).fresh.readToken = .ok (next.extend tail))
    (hnext : At next depth' (found' ++ [token]) rest') (htoken : token ≠ .streamEnd) :
    Reaches 1 lx next.fresh := by
  refine ⟨1, Nat.le_refl 1, fun tail fuel => ?_⟩
  have hended : (next.extend tail).ended = false := by
    rw [ended_eq (hnext.extend tail).tokens_eq, beq_eq_false_iff_ne]
    exact htoken
  rw [run]
  dsimp only [Cut.fault?]
  rw [(h.extend tail).step_eq (hrest.append tail), hread]
  dsimp only
  rw [hended, dropStale_of_optional (hnext.extend tail).optional]
  rfl

/-! ## Brackets and commas -/

theorem startsIndicator_of_ne {mark c : Char} (h : c ≠ mark) (rest : List Char) :
    startsIndicator mark (c :: rest) = false := by
  unfold startsIndicator
  split
  · rename_i heq
    obtain ⟨rfl, rfl⟩ := List.cons.inj heq
    simp [h]
  · rfl

theorem readToken_opening {lx : Lexer} {rest : List Char} {c : Char} {token : Token}
    (h : lx.cursor.rest = c :: rest)
    (hc : c = '[' ∧ token = .flowSequenceStart ∨ c = '{' ∧ token = .flowMappingStart) :
    lx.readToken = lx.readOpening token := by
  obtain ⟨rfl, rfl⟩ | ⟨rfl, rfl⟩ := hc
  · simp [readToken, h, startsIndicator_of_ne]
  · simp [readToken, h, startsIndicator_of_ne]

theorem readToken_closing {lx : Lexer} {rest : List Char} {c : Char} {token : Token}
    (h : lx.cursor.rest = c :: rest)
    (hc : c = ']' ∧ token = .flowSequenceEnd ∨ c = '}' ∧ token = .flowMappingEnd) :
    lx.readToken = lx.readClosing token := by
  obtain ⟨rfl, rfl⟩ | ⟨rfl, rfl⟩ := hc
  · simp [readToken, h, startsIndicator_of_ne]
  · simp [readToken, h, startsIndicator_of_ne]

theorem readToken_comma {lx : Lexer} {rest : List Char} (h : lx.cursor.rest = ',' :: rest) :
    lx.readToken = lx.readFlowEntry := by
  simp [readToken, h, startsIndicator_of_ne]

theorem readToken_colon {lx : Lexer} {rest : List Char} (h : lx.cursor.rest = ':' :: rest)
    (hflow : lx.inFlow = true) : lx.readToken = lx.readValue := by
  simp [readToken, h, hflow, startsIndicator_of_ne]

theorem readToken_quote {lx : Lexer} {rest : List Char} (h : lx.cursor.rest = '"' :: rest) :
    lx.readToken = lx.readQuotedScalar .doubleQuoted := by
  simp [readToken, h, startsIndicator_of_ne]

namespace At

variable {lx : Lexer} {depth : Nat} {found : List Token} {rest : List Char}

theorem noteKey (h : At lx depth found rest) : lx.noteKey = .ok lx.noted := by
  -- A key is demanded at the column of a block only, and no block has begun.
  have hindent : (lx.indent == (lx.mark.column : Int)) = false := by
    rw [h.indent, beq_eq_false_iff_ne]
    omega
  rw [Lexer.noteKey, noted]
  split
  · rw [dropKey_of_optional h.optional]
    show Except.ok { lx with pending := some ⟨lx.count, lx.mark,
      !lx.inFlow && lx.indent == (lx.mark.column : Int)⟩ } = _
    rw [hindent, Bool.and_false]
  · rfl

theorem noted (h : At lx depth found rest) : At lx.noted depth found rest := by
  rw [Lexer.noted]
  split
  · refine h.withPending ?_
    rintro k ⟨⟩
    rfl
  · exact h

/-- An opening bracket. A key may start behind it. -/
theorem opening {c : Char} {token : Token} (h : At lx depth found (c :: rest))
    (hc : c = '[' ∧ token = .flowSequenceStart ∨ c = '{' ∧ token = .flowMappingStart) :
    ∃ later, Reaches 1 lx later ∧ At later (depth + 1) (found ++ [token]) rest ∧
      later.keyAllowed = true := by
  have hstarts : StartsToken (c :: rest) := startsToken_cons (by
    obtain ⟨rfl, -⟩ | ⟨rfl, -⟩ := hc <;> decide) rest
  have htoken : token ≠ .streamEnd := by
    obtain ⟨-, rfl⟩ | ⟨-, rfl⟩ := hc <;> decide
  have hread : ∀ tail, (lx.extend tail).fresh.readToken =
      .ok ((((lx.fresh.noted.pushNext token 1).enter).permit true).extend tail) := fun tail => by
    have hbehind := (h.extend tail).fresh
    have hpush : ((lx.extend tail).fresh.noted.pushNext token 1) =
        (lx.fresh.noted.pushNext token 1).extend tail := by
      rw [← h.fresh.noted.pushNext_extend, ← noted_extend]
      rfl
    rw [readToken_opening hbehind.rest_eq hc, readOpening, hbehind.noteKey]
    show Except.ok (((lx.extend tail).fresh.noted.pushNext token 1).enter.permit true) = _
    rw [hpush]
    rfl
  -- The first bracket of a text stands in the first column, and what it holds behind that.
  have hnext := ((h.fresh.noted.pushNext token).enter pushNext_column).permit true
  exact ⟨_, h.turn hstarts hread hnext htoken, hnext.fresh, rfl⟩

theorem closing {c : Char} {token : Token} (h : At lx (depth + 1) found (c :: rest))
    (hc : c = ']' ∧ token = .flowSequenceEnd ∨ c = '}' ∧ token = .flowMappingEnd) :
    ∃ later, Reaches 1 lx later ∧ At later depth (found ++ [token]) rest := by
  have hstarts : StartsToken (c :: rest) := startsToken_cons (by
    obtain ⟨rfl, -⟩ | ⟨rfl, -⟩ := hc <;> decide) rest
  have htoken : token ≠ .streamEnd := by
    obtain ⟨-, rfl⟩ | ⟨-, rfl⟩ := hc <;> decide
  obtain ⟨key, outer, houter⟩ := List.exists_cons_of_length_eq_add_one h.fresh.level
  have hleft := (h.fresh.leave houter).permit false
  have hread : ∀ tail, (lx.extend tail).fresh.readToken =
      .ok (((({ lx.fresh with pending := key, outerPending := outer } : Lexer).permit
        false).pushNext token 1).extend tail) := fun tail => by
    have hbehind := (h.extend tail).fresh
    have houterBehind : (lx.extend tail).fresh.outerPending = key :: outer := houter
    rw [readToken_closing hbehind.rest_eq hc, readClosing, dropKey_of_optional hbehind.optional,
      ← hleft.pushNext_extend]
    dsimp only [bind, Except.bind]
    rw [houterBehind]
    rfl
  have hnext := hleft.pushNext token
  exact ⟨_, h.turn hstarts hread hnext htoken, hnext.fresh⟩

/-- A comma between brackets. A key may start behind it. -/
theorem comma (h : At lx depth found (',' :: rest)) :
    ∃ later, Reaches 1 lx later ∧ At later depth (found ++ [.flowEntry]) rest ∧
      later.keyAllowed = true := by
  have hdropped : At (({ lx.fresh with pending := none } : Lexer).permit true) depth found
      (',' :: rest) := (h.fresh.withPending (by simp)).permit true
  have hread : ∀ tail, (lx.extend tail).fresh.readToken =
      .ok (((({ lx.fresh with pending := none } : Lexer).permit true).pushNext .flowEntry 1).extend
        tail) := fun tail => by
    have hbehind := (h.extend tail).fresh
    rw [readToken_comma hbehind.rest_eq, readFlowEntry, dropKey_of_optional hbehind.optional,
      ← hdropped.pushNext_extend]
    rfl
  have hnext := hdropped.pushNext .flowEntry
  exact ⟨_, h.turn (startsToken_cons (by decide) rest) hread hnext (by decide), hnext.fresh, rfl⟩

/-! ## Scalars -/

theorem readQuotedScalar {text : String} (h : At lx depth found (stringText text ++ rest))
    (hshared : IsSharedText text) :
    lx.readQuotedScalar .doubleQuoted =
      .ok ((lx.noted.behind (.scalar text .doubleQuoted) (stringText text) rest).permit false) := by
  have htext : stringText text ++ rest =
      ['"'] ++ (text.toList.flatMap escapeChar ++ '"' :: rest) := by
    simp [stringText]
  have hopen := h.noted
  rw [htext] at hopen
  have hfuel : text.toList.length < lx.noted.size + 1 := by
    have hsize := hopen.size
    have hlength := length_le_length_flatMap_escapeChar text.toList
    simp only [List.length_append, List.length_cons] at hsize
    omega
  have hcolumn : 0 < (lx.noted.mark.past ['"']).column := Nat.succ_pos _
  have hread : readQuoted .doubleQuoted lx.noted.mark (lx.noted.size + 1) []
      ⟨text.toList.flatMap escapeChar ++ '"' :: rest, lx.noted.mark.past ['"']⟩ = _ :=
    readQuoted_escaped hshared hfuel [] rest hcolumn
  have hmark : (lx.noted.mark.past ['"']).past (text.toList.flatMap escapeChar ++ ['"']) =
      lx.noted.mark.past (stringText text) := by
    rw [Mark.past_past]
    rfl
  rw [hmark] at hread
  rw [Lexer.readQuotedScalar, h.noteKey]
  dsimp only [bind, Except.bind]
  rw [show (1 : Nat) = ['"'].length from rfl, hopen.advance, List.length_singleton, hread]
  dsimp only
  rw [List.nil_append, String.ofList_toList]
  rfl

/-- A string, with the state in which the lexer is behind it. -/
theorem quoted {text : String} (h : At lx depth found (stringText text ++ rest))
    (hshared : IsSharedText text) :
    ∃ next, next = (lx.fresh.noted.behind (.scalar text .doubleQuoted) (stringText text)
        rest).permit false ∧
      Reaches 1 lx next.fresh ∧ At next depth (found ++ [.scalar text .doubleQuoted]) rest := by
  have hread : ∀ tail, (lx.extend tail).fresh.readToken =
      .ok (((lx.fresh.noted.behind (.scalar text .doubleQuoted) (stringText text) rest).permit
        false).extend tail) := fun tail => by
    have hbehind := (h.extend tail).fresh
    rw [List.append_assoc] at hbehind
    rw [readToken_quote hbehind.rest_eq, hbehind.readQuotedScalar hshared]
    show Except.ok ((((lx.fresh.extend tail).noted.behind _ _ _).permit false)) = _
    rw [noted_extend]
    rfl
  have hnext := (h.fresh.noted.behind (List.cons_ne_nil _ _) (.scalar text .doubleQuoted)).permit
    false
  exact ⟨_, rfl, h.turn (startsToken_cons (by decide) _) hread hnext Token.noConfusion, hnext⟩

theorem readToken_word {word : List Char} (h : At lx depth found (word ++ rest))
    (hdepth : 0 < depth) (hne : word ≠ []) (hword : ∀ c ∈ word, isNameChar c = true)
    (hrest : EndsPlain rest) : lx.readToken = lx.readPlainScalar := by
  obtain ⟨c, word, rfl⟩ := List.exists_cons_of_ne_nil hne
  have hc := hword c List.mem_cons_self
  have hchar : ∀ d, isNameChar d = false → c ≠ d := fun d => ne_of_isNameChar hc
  have hcolumn : (lx.mark.column == 0) = false :=
    beq_eq_false_iff_ne.mpr (Nat.ne_of_gt (h.column hdepth))
  have hgap : startsGap (word ++ rest) = false := by
    cases word with
    | nil =>
      obtain ⟨d, ds, rfl, hd⟩ := hrest
      exact not_isGap_of_isFlowIndicator hd
    | cons d word =>
      exact not_isGap_of_isNameChar (hword d (List.mem_cons_of_mem _ List.mem_cons_self))
  have hpad : startsWith isPad (word ++ rest) = false := by
    generalize word ++ rest = behind at hgap
    cases behind with
    | nil => rfl
    | cons d behind => exact (isGap_eq_false_iff.mp hgap).1
  have hplain : startsPlain true (c :: (word ++ rest)) = true := by
    simp [startsPlain, not_isGap_of_isNameChar hc, hpad, hchar ':' (by decide),
      hchar '?' (by decide), hchar ',' (by decide), hchar '[' (by decide), hchar ']' (by decide),
      hchar '{' (by decide), hchar '}' (by decide), hchar '#' (by decide), hchar '&' (by decide),
      hchar '*' (by decide), hchar '!' (by decide), hchar '|' (by decide), hchar '>' (by decide),
      hchar '\'' (by decide), hchar '"' (by decide), hchar '%' (by decide), hchar '@' (by decide),
      hchar '\x60' (by decide)]
  rw [readToken, h.rest_eq]
  simp [hcolumn, hgap, h.inFlow hdepth, hplain, hchar '[' (by decide), hchar '{' (by decide),
    hchar ']' (by decide), hchar '}' (by decide), hchar ',' (by decide), hchar '?' (by decide),
    hchar ':' (by decide), hchar '*' (by decide), hchar '&' (by decide), hchar '!' (by decide),
    hchar '\'' (by decide), hchar '"' (by decide)]

theorem readPlainScalar {word : List Char} (h : At lx depth found (word ++ rest))
    (hdepth : 0 < depth) (hne : word ≠ []) (hword : ∀ c ∈ word, isNameChar c = true)
    (hrest : EndsPlain rest) :
    lx.readPlainScalar =
      .ok ((lx.noted.behind (.scalar (String.ofList word) .plain) word rest).permit false) := by
  have hcursor : lx.noted.cursor = ⟨word ++ rest, lx.noted.mark⟩ := by
    rw [← h.noted.rest_eq]
    rfl
  have hread : readPlain true (lx.noted.indent + 1).toNat lx.noted.mark (lx.noted.size + 1) []
      lx.noted.mark Gap.none ⟨word ++ rest, lx.noted.mark⟩ = _ :=
    readPlain_word hne hword hrest lx.noted.size _ (h.noted.column hdepth)
  rw [Lexer.readPlainScalar, h.noteKey]
  dsimp only [bind, Except.bind]
  rw [h.noted.inFlow hdepth, hcursor, hread]
  rfl

theorem plain {word : List Char} (h : At lx depth found (word ++ rest)) (hdepth : 0 < depth)
    (hne : word ≠ []) (hword : ∀ c ∈ word, isNameChar c = true) (hrest : EndsPlain rest) :
    ∃ later, Reaches 1 lx later ∧
      At later depth (found ++ [.scalar (String.ofList word) .plain]) rest := by
  have hread : ∀ tail, (lx.extend tail).fresh.readToken =
      .ok (((lx.fresh.noted.behind (.scalar (String.ofList word) .plain) word rest).permit
        false).extend tail) := fun tail => by
    have hbehind := (h.extend tail).fresh
    rw [List.append_assoc] at hbehind
    rw [hbehind.readToken_word hdepth hne hword (hrest.append tail),
      hbehind.readPlainScalar hdepth hne hword (hrest.append tail)]
    show Except.ok ((((lx.fresh.extend tail).noted.behind _ _ _).permit false)) = _
    rw [noted_extend]
    rfl
  have hnext := (h.fresh.noted.behind hne (.scalar (String.ofList word) .plain)).permit false
  have hstarts := startsToken_word hne hword rest
  obtain ⟨c, word, rfl⟩ := List.exists_cons_of_ne_nil hne
  exact ⟨_, h.turn hstarts hread hnext Token.noConfusion, hnext.fresh⟩

/-! ## Keys -/

theorem fresh_pending {key : PendingKey} (hpending : lx.pending = some key)
    (hstale : isStale lx.mark key = false) : lx.fresh.pending = some key := by
  rw [Lexer.fresh]
  dsimp only
  rw [hpending, Option.filter_some, if_pos (by simp [hstale])]

theorem fresh_pending_of_stale {key : PendingKey} (hpending : lx.pending = some key)
    (hstale : isStale lx.mark key = true) : lx.fresh.pending = none := by
  rw [Lexer.fresh]
  dsimp only
  rw [hpending, Option.filter_some, if_neg (by simp [hstale])]

theorem fresh_pending_of_none (hpending : lx.pending = none) : lx.fresh.pending = none := by
  rw [Lexer.fresh]
  dsimp only
  rw [hpending, Option.filter_none]

/-- In brackets no token starts a block collection. -/
theorem indentTo_of_inFlow (h : lx.inFlow = true) (column : Nat) (number : Option Nat)
    (token : Token) (mark : Mark) : lx.indentTo column number token mark = lx := by
  rw [indentTo, h, Bool.true_or, if_pos rfl]

/-- The colon behind the token that is the pending key. -/
theorem colon {last : Token} {key : PendingKey} (h : At lx depth (found ++ [last]) (':' :: rest))
    (hdepth : 0 < depth) (hpending : lx.pending = some key)
    (hstale : isStale lx.mark key = false) (hnumber : lx.count = key.number + 1) :
    ∃ later, Reaches 1 lx later ∧ At later depth (found ++ [.key, last, .value]) rest := by
  have hkey : At (lx.fresh.insertAt key.number .key key.mark) depth (found ++ [.key, last])
      (':' :: rest) :=
    ⟨h.fresh.rest_eq, h.fresh.column, h.fresh.size, h.fresh.indent, h.fresh.outerIndents,
      h.fresh.level, h.fresh.optional, tokens_insertAt h.fresh.tokens_eq hnumber .key key.mark⟩
  have hdropped : At { lx.fresh.insertAt key.number .key key.mark with pending := none } depth
      (found ++ [.key, last]) (':' :: rest) := hkey.withPending (by simp)
  have hnext := (hdropped.permit false).pushNext .value
  have hread : ∀ tail, (lx.extend tail).fresh.readToken =
      .ok (((({ lx.fresh.insertAt key.number .key key.mark with
        pending := none } : Lexer).permit false).pushNext .value 1).extend tail) := fun tail => by
    have hbehind := (h.extend tail).fresh
    have hpendingBehind : (lx.extend tail).fresh.pending = some key := fresh_pending hpending hstale
    have hflow : ((lx.extend tail).fresh.insertAt key.number .key key.mark).inFlow = true :=
      hkey.inFlow hdepth
    rw [readToken_colon hbehind.rest_eq (hbehind.inFlow hdepth), readValue, hpendingBehind,
      ← (hdropped.permit false).pushNext_extend]
    dsimp only
    rw [indentTo_of_inFlow hflow]
    rfl
  have hturn := h.turn (startsToken_cons (by decide) rest) hread hnext Token.noConfusion
  rw [List.append_assoc] at hnext
  exact ⟨_, hturn, hnext.fresh⟩

/-- A colon without a pending key adds none. -/
theorem colonAlone (h : At lx depth found (':' :: rest)) (hdepth : 0 < depth)
    (hpending : lx.fresh.pending = none) :
    ∃ later, Reaches 1 lx later ∧ At later depth (found ++ [.value]) rest := by
  have hnext := (h.fresh.permit false).pushNext .value
  have hread : ∀ tail, (lx.extend tail).fresh.readToken =
      .ok (((lx.fresh.permit false).pushNext .value 1).extend tail) := fun tail => by
    have hbehind := (h.extend tail).fresh
    have hflow := hbehind.inFlow hdepth
    have hpendingBehind : (lx.extend tail).fresh.pending = none := hpending
    rw [readToken_colon hbehind.rest_eq hflow, readValue, hpendingBehind,
      ← (h.fresh.permit false).pushNext_extend]
    dsimp only
    rw [indentTo_of_inFlow hflow, hflow]
    rfl
  exact ⟨_, h.turn (startsToken_cons (by decide) rest) hread hnext Token.noConfusion, hnext.fresh⟩

/-- A string in front of a colon is a key, if it does not reach too far. -/
theorem key {text : String} (h : At lx depth found (stringText text ++ ':' :: rest))
    (hdepth : 0 < depth) (hallowed : lx.keyAllowed = true)
    (hshared : IsSharedText text) (hreach : byteCount (stringText text) ≤ keyReach) :
    ∃ later, Reaches ((stringText text).length + 1) lx later ∧
      At later depth (found ++ [.key, .scalar text .doubleQuoted, .value]) rest := by
  obtain ⟨next, rfl, hturn, hnext⟩ := h.quoted hshared
  have hnoted : lx.fresh.noted = { lx.fresh with pending := some ⟨lx.count, lx.mark, false⟩ } :=
    if_pos hallowed
  rw [hnoted] at hnext hturn
  -- The key is as many bytes behind as its text takes, on the same line.
  have hstale : isStale (lx.mark.past (stringText text)) ⟨lx.count, lx.mark, false⟩ = false := by
    rw [isStale, Bool.or_eq_false_iff, decide_eq_false_iff_not, decide_eq_false_iff_not,
      Mark.past_line, Mark.past_index]
    dsimp only
    omega
  obtain ⟨later, hlater, hat⟩ := hnext.fresh.colon hdepth (fresh_pending rfl hstale) hstale rfl
  have hturns : 1 + 1 ≤ (stringText text).length + 1 := Nat.succ_le_succ (Nat.succ_pos _)
  exact ⟨later, (hturn.trans hlater).mono hturns, hat⟩

/-- A string that reaches too far is given up as a key in front of its colon. -/
theorem farKey {text : String} (h : At lx depth found (stringText text ++ ':' :: rest))
    (hdepth : 0 < depth) (hallowed : lx.keyAllowed = true)
    (hshared : IsSharedText text) (hreach : keyReach < byteCount (stringText text)) :
    ∃ later, Reaches ((stringText text).length + 1) lx later ∧
      At later depth (found ++ [.scalar text .doubleQuoted, .value]) rest := by
  obtain ⟨next, hbehind, hturn, hnext⟩ := h.quoted hshared
  have hnoted : lx.fresh.noted = { lx.fresh with pending := some ⟨lx.count, lx.mark, false⟩ } :=
    if_pos hallowed
  rw [hnoted] at hbehind
  have hpending : next.pending = some ⟨lx.count, lx.mark, false⟩ := by
    rw [hbehind]
    rfl
  have hmark : next.mark = lx.mark.past (stringText text) := by
    rw [hbehind]
    rfl
  have hstale : isStale next.mark ⟨lx.count, lx.mark, false⟩ = true := by
    rw [hmark, isStale, Bool.or_eq_true, decide_eq_true_eq, decide_eq_true_eq, Mark.past_index]
    exact .inr (Nat.add_lt_add_left hreach _)
  obtain ⟨later, hlater, hat⟩ := hnext.fresh.colonAlone hdepth
    (fresh_pending_of_none (fresh_pending_of_stale hpending hstale))
  have hturns : 1 + 1 ≤ (stringText text).length + 1 := Nat.succ_le_succ (Nat.succ_pos _)
  rw [List.append_assoc] at hat
  exact ⟨later, (hturn.trans hlater).mono hturns, hat⟩

end At

/-! ## The start and the end -/

theorem at_start (text : List Char) : (start text).At 0 [.streamStart] text := by
  have hoptional : (start text).Optional := by
    intro key hkey
    cases List.mem_singleton.mp hkey
  exact ⟨rfl, fun h => absurd h (Nat.lt_irrefl 0), Nat.le_refl _, rfl, rfl, rfl, hoptional, rfl⟩

theorem start_extend (text tail : List Char) :
    (start text).extend tail = start (text ++ tail) := by
  simp [start, extend, Cursor.start]

/-- The end of the text is a token of its own, and the last one. -/
theorem At.run_end {lx : Lexer} {found : List Token} (h : At lx 0 found []) (fuel : Nat) :
    ∃ last, last.token = .streamEnd ∧
      lx.run none (fuel + 1) = ⟨lx.lexemes.reverse ++ [last], none⟩ := by
  have hstarts : StartsToken [] := by simp [StartsToken]
  have hread : ∃ next last, lx.fresh.readToken = .ok next ∧ last.token = .streamEnd ∧
      next.lexemes = last :: lx.lexemes := by
    rw [readToken, h.fresh.rest_eq]
    dsimp only
    rw [readEnd]
    generalize (if lx.fresh.mark.column = 0 then lx.fresh.mark
      else { lx.fresh.mark with line := lx.fresh.mark.line + 1, column := 0 }) = stop
    dsimp only
    have houter : ({ lx.fresh with cursor := { lx.fresh.cursor with mark := stop } } :
        Lexer).outerIndents = [] := h.fresh.outerIndents
    have hoptional : ({ lx.fresh with cursor := { lx.fresh.cursor with mark := stop } } :
        Lexer).Optional := h.fresh.optional
    rw [dedentTo_of_outerIndents houter, dropKey_of_optional hoptional]
    exact ⟨_, ⟨.streamEnd, stop, stop⟩, rfl, rfl, rfl⟩
  obtain ⟨next, last, hread, hlast, hlexemes⟩ := hread
  have hended : next.ended = true := by
    rw [ended, hlexemes]
    exact beq_iff_eq.mpr hlast
  refine ⟨last, hlast, ?_⟩
  rw [run]
  dsimp only [Cut.fault?]
  rw [h.step_eq hstarts, hread]
  dsimp only
  rw [if_pos hended, hlexemes, List.reverse_cons]

end Lexer

end PageManifest.Yaml
