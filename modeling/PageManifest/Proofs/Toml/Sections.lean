import PageManifest.Proofs.Toml.Additions

/-!
# Documents of headers and lines

What was written as headers with lines below them is read as just these statements
(`says_section`). Headers of different tables can stand in any order, as long as none is inside of
a table that is not one: a table may come before the one around it or behind (`exists_start`).
-/

namespace PageManifest.Toml

/-! ## Statements that were written -/

/-- Reading statements gives some of them and goes on with what is left, in a number of steps that
the characters passed over bound. -/
structure Says (cs : List Char) (said : List Statement) (rest : List Char) (steps : Nat) :
    Prop where
  short : rest.length + steps ≤ cs.length
  statements_eq : ∀ fuel,
    statementsWithin (fuel + steps) cs = (statementsWithin fuel rest).map (said ++ ·)

variable {cs rest : List Char} {said : List Statement}

theorem Says.refl (cs : List Char) : Says cs [] cs 0 where
  short := Nat.le_refl _
  statements_eq fuel := by cases statementsWithin fuel cs <;> rfl

theorem Says.trans {between : List Char} {more : List Statement} {steps later : Nat}
    (h : Says cs said between steps) (hmore : Says between more rest later) :
    Says cs (said ++ more) rest (later + steps) where
  short := by
    have hshort := h.short
    have hshortMore := hmore.short
    omega
  statements_eq fuel := by
    rw [← Nat.add_assoc, h.statements_eq, hmore.statements_eq]
    cases statementsWithin fuel rest with
    | error failure => rfl
    | ok others => simp [Except.map]

theorem Says.statements_eq_ok {steps : Nat} (h : Says cs said [] steps)
    (hmark : cs.head? ≠ some '\uFEFF') : statements (String.ofList cs) = .ok said := by
  have hskip : skipByteOrderMark (String.ofList cs).toList = cs := by
    rw [String.toList_ofList]
    refine skipByteOrderMark.eq_2 _ ?_
    rintro rest rfl
    exact hmark rfl
  have hshort := h.short
  obtain ⟨fuel, hfuel⟩ : ∃ fuel, cs.length + 1 = (fuel + 1) + steps :=
    ⟨cs.length - steps, by rw [List.length_nil] at hshort; omega⟩
  rw [statements, hskip, hfuel, h.statements_eq]
  show Except.ok (said ++ []) = Except.ok said
  rw [List.append_nil]

theorem says_of_statementLine (hskip : skipBlanks cs = cs) (hshort : rest.length < cs.length)
    (hline : statementLine cs = .ok (said, rest)) : Says cs said rest 1 where
  short := hshort
  statements_eq fuel := by
    have hne : cs ≠ [] := by
      rintro rfl
      exact absurd hshort (Nat.not_lt_zero _)
    rw [statementsWithin, hskip, if_neg (by simpa using hne), hline]
    dsimp only [bind, Except.bind]
    cases statementsWithin fuel rest <;> rfl

/-- A line says what its key gets. -/
theorem says_line {line : Line} (h : line.IsSound) (rest : List Char) :
    ∃ entry, Says (line.text ++ rest) [.assignment [] entry.1 entry.2] rest 1 ∧
      line.Gives entry := by
  obtain ⟨entry, hread, hgives⟩ := assignmentLine_text h rest
  refine ⟨entry, says_of_statementLine ?_ ?_ ?_, hgives⟩
  · rw [Line.text, List.append_assoc]
    exact skipBlanks_of_isBare h.1 _
  · simp only [Line.text, List.length_append, List.length_cons]
    omega
  · obtain ⟨hne, hbare⟩ := h.1
    obtain ⟨c, key, hkey⟩ := List.exists_cons_of_ne_nil hne
    have hc : isBareKeyChar c = true := hbare c (by rw [hkey]; exact List.mem_cons_self)
    have hother : ∀ mark tail, isBareKeyChar mark = false → line.text ++ rest ≠ mark :: tail := by
      intro mark tail hmark heq
      rw [Line.text, hkey] at heq
      rw [(List.cons.inj heq).1, hmark] at hc
      cases hc
    rw [statementLine.eq_5 _ (fun _ => hother _ _ (by decide)) (fun _ => hother _ _ (by decide))
      (fun _ => hother _ _ (by decide)) (fun _ => hother _ _ (by decide)), hread]
    rfl

/-- Lines say what their keys get. -/
theorem says_lines {block : List Line} (h : ∀ line ∈ block, line.IsSound) (rest : List Char) :
    ∃ entries : Entries, Says (block.flatMap Line.text ++ rest)
        (entries.map fun entry => .assignment [] entry.1 entry.2) rest block.length ∧
      List.Forall₂ Line.Gives block entries := by
  induction block with
  | nil => exact ⟨[], .refl rest, .nil⟩
  | cons line block ih =>
    obtain ⟨entries, hblock, hentries⟩ :=
      ih fun other hmem => h other (List.mem_cons_of_mem line hmem)
    obtain ⟨entry, hline, hentry⟩ := says_line (h line List.mem_cons_self)
      (block.flatMap Line.text ++ rest)
    refine ⟨entry :: entries, ?_, .cons hentry hentries⟩
    rw [List.flatMap_cons, List.append_assoc]
    exact hline.trans hblock

theorem headerStatement_text {part : List Char} {parts : List (List Char)} (hpart : IsBare part)
    (hparts : ∀ part ∈ parts, IsBare part) (hdepth : parts.length + 1 < depthLimit)
    (rest : List Char) :
    ∃ keys stretch, headerStatement (headerText part parts ++ rest) =
        .ok (.header keys false stretch, rest) ∧
      keys.map Key.text = (part :: parts).map String.ofList := by
  obtain ⟨keys, stretch, hline, htexts⟩ := headerLine_text hpart hparts hdepth rest
  refine ⟨keys, stretch, ?_, htexts⟩
  obtain ⟨hne, hbare⟩ := hpart
  obtain ⟨c, part, rfl⟩ := List.exists_cons_of_ne_nil hne
  have hsingle : word ['[', '['] (headerText (c :: part) parts ++ rest) =
      stop (headerText (c :: part) parts ++ rest) := by
    have hc : c ≠ '[' := by
      rintro rfl
      exact absurd (hbare '[' List.mem_cons_self) (by decide)
    refine if_neg ?_
    simp [headerText, Ne.symm hc]
  unfold headerStatement
  split
  · rename_i heq
    simp [headerText] at heq
  · rw [hsingle]
    dsimp only [stop, Except.toOption, Option.isSome]
    rw [if_neg Bool.false_ne_true, hline]
    rfl

/-- A header with lines below it says that a table starts, and what its keys get. -/
theorem says_section {part : List Char} {parts : List (List Char)} {block : List Line}
    (hpart : IsBare part) (hparts : ∀ part ∈ parts, IsBare part)
    (hdepth : parts.length + 1 < depthLimit) (hblock : ∀ line ∈ block, line.IsSound)
    (rest : List Char) :
    ∃ keys stretch entries, Says (sectionText part parts block ++ rest)
        (.header keys false stretch :: entries.map fun entry => .assignment [] entry.1 entry.2) rest
        (block.length + 1) ∧
      keys.map Key.text = (part :: parts).map String.ofList ∧
      List.Forall₂ Line.Gives block entries := by
  obtain ⟨entries, hlines, hentries⟩ := says_lines hblock rest
  obtain ⟨keys, stretch, hheader, htexts⟩ :=
    headerStatement_text hpart hparts hdepth (block.flatMap Line.text ++ rest)
  refine ⟨keys, stretch, entries, ?_, htexts, hentries⟩
  have hstart : Says (headerText part parts ++ (block.flatMap Line.text ++ rest))
      [.header keys false stretch] (block.flatMap Line.text ++ rest) 1 := by
    refine says_of_statementLine rfl ?_ ?_
    · simp only [headerText, List.length_append, List.length_cons]
      omega
    · have hfront : headerText part parts ++ (block.flatMap Line.text ++ rest) =
          '[' :: (part ++ (pointedParts parts ++ [']', '\n']) ++
            (block.flatMap Line.text ++ rest)) := rfl
      rw [hfront] at hheader ⊢
      rw [statementLine.eq_2, hheader]
      rfl
  rw [sectionText, List.append_assoc]
  exact hstart.trans hlines

/-! ## Headers in any order -/

/-- Whether a header can start the table at a path of one or two names. -/
def Room (entries : Entries) : List String → Prop
  | [name] => Entries.get? entries name = none ∨
      ∃ stretch inner, Entries.get? entries name = some (.table .implied stretch inner)
  | [above, name] => Entries.get? entries above = none ∨
      ∃ origin stretch inner, Entries.get? entries above = some (.table origin stretch inner) ∧
        origin ≠ .inline ∧ Entries.get? inner name = none
  | _ => False

variable {draft : Draft} {document : Entries} {key above : Key}

/-- The draft that a header starts. -/
def Draft.started (entries : Entries) (keys : List Key) (stretch : Stretch) (current : Entries) :
    Draft :=
  { entries, path := keys, isRepeatable := false, stretch := some stretch, current }

/-- A table is put under its name with what was there of it. -/
structure StartedAt (document after : Entries) (name : String) (inner : Entries) : Prop where
  others : ∀ other, name ≠ other → Entries.get? after other = Entries.get? document other
  there : ∃ stretch, Entries.get? after name = some (.table .header stretch inner)
  inner_cases : inner = [] ∨
    ∃ stretch, Entries.get? document name = some (.table .implied stretch inner)

theorem StartedAt.room {after inner : Entries} {name : String}
    (h : StartedAt document after name inner) {path : List String} (hne : [name] ≠ path)
    (hroom : Room document path) : Room after path := by
  match path with
  | [] => exact hroom
  | [other] =>
    have hother : name ≠ other := fun hother => hne (by rw [hother])
    rw [Room, h.others other hother]
    exact hroom
  | [first, other] =>
    by_cases hfirst : name = first
    · subst hfirst
      obtain ⟨stretch, hthere⟩ := h.there
      refine Or.inr ⟨_, stretch, inner, hthere, nofun, ?_⟩
      rcases h.inner_cases with rfl | ⟨own, himplied⟩
      · rfl
      · rcases hroom with hnone | ⟨_, _, _, hbefore, -, hother⟩
        · rw [himplied] at hnone
          cases hnone
        · rw [himplied] at hbefore
          cases hbefore
          exact hother
    · rw [Room, h.others first hfirst]
      exact hroom
  | _ :: _ :: _ :: _ => exact hroom

theorem exists_start_one (hclosed : draft.closed = .ok document)
    (hroom : Room document [key.text]) (stretch : Stretch) :
    ∃ later after inner, draft.start [key] false stretch = .ok later ∧ later.closed = .ok after ∧
      StartedAt document after key.text inner := by
  rcases hroom with hnone | ⟨own, inner, hthere⟩
  · refine ⟨_, document ++ [(key, .table .header (some stretch) [])], [],
      Draft.start_top hclosed hnone stretch, Draft.closed_top rfl rfl hnone, ?_,
      ⟨_, Entries.get?_append_self hnone _⟩, Or.inl rfl⟩
    intro name hne
    exact get?_append_of_ne hne
  · have hnone : Entries.get? (Entries.remove document key.text) key.text = none :=
      Entries.get?_remove_self
    refine ⟨Draft.started (Entries.remove document key.text) [key] stretch inner,
      Entries.remove document key.text ++ [(key, .table .header (some stretch) inner)], inner,
      ?_, Draft.closed_top rfl rfl hnone, ?_, ⟨_, Entries.get?_append_self hnone _⟩,
      Or.inr ⟨own, hthere⟩⟩
    · have hfront : [key] = [] ++ [key] := rfl
      rw [hfront, Draft.start_eq_ok_iff]
      refine ⟨document, _, _, hclosed, ?_, rfl⟩
      show Draft.take [] key false .header document = _
      unfold Draft.take
      rw [hthere]
    · intro name hne
      rw [get?_append_of_ne hne, Entries.get?_remove_of_ne hne]

/-- A table is put into the one above it. There is still no other one where there was none. -/
structure StartedInside (document after : Entries) (above name : String) (origin : Origin)
    (inner : Entries) : Prop where
  others : ∀ other, above ≠ other → Entries.get? after other = Entries.get? document other
  there : ∃ stretch, Entries.get? after above = some (.table origin stretch inner)
  not_inline : origin ≠ .inline
  implied : Room document [above] → origin = .implied
  vacant : ∀ other, name ≠ other → Room document [above, other] → Entries.get? inner other = none

theorem StartedInside.room {after inner : Entries} {above name : String} {origin : Origin}
    (h : StartedInside document after above name origin inner) {path : List String}
    (hne : [above, name] ≠ path) (hroom : Room document path) : Room after path := by
  obtain ⟨stretch, hthere⟩ := h.there
  match path with
  | [] => exact hroom
  | [other] =>
    by_cases hother : above = other
    · subst hother
      obtain rfl := h.implied hroom
      exact Or.inr ⟨stretch, inner, hthere⟩
    · rw [Room, h.others other hother]
      exact hroom
  | [first, other] =>
    by_cases hfirst : above = first
    · subst hfirst
      have hother : name ≠ other := fun hother => hne (by rw [hother])
      exact Or.inr ⟨origin, stretch, inner, hthere, h.not_inline, h.vacant other hother hroom⟩
    · rw [Room, h.others first hfirst]
      exact hroom
  | _ :: _ :: _ :: _ => exact hroom

/-- The table above one that a header starts is created if it is not there. -/
theorem exists_start_below_new (hclosed : draft.closed = .ok document)
    (hnone : Entries.get? document above.text = none) (key : Key) (stretch : Stretch) :
    ∃ later after origin inner, draft.start [above, key] false stretch = .ok later ∧
      later.closed = .ok after ∧
      StartedInside document after above.text key.text origin inner := by
  have hfront : [above, key] = [above] ++ [key] := rfl
  let table := Item.table .header (some stretch) []
  refine ⟨Draft.started (document ++ [(above, .table .implied none [])]) [above, key] stretch [],
    document ++ [(above, .table .implied none [(key, table)])], .implied, [(key, table)], ?_, ?_,
    ?_, ⟨none, Entries.get?_append_self hnone _⟩, nofun, fun _ => rfl, ?_⟩
  · rw [hfront, Draft.start_eq_ok_iff]
    refine ⟨document, _, _, hclosed, ?_, rfl⟩
    rw [within, hnone]
    rfl
  · rw [Draft.closed_eq_ok_iff hfront, within]
    dsimp only [Draft.started]
    rw [Entries.get?_append_self hnone, ← Entries.replace_append_self hnone
      (.table .implied none []) (.table .implied none [(key, table)])]
    rfl
  · intro name hne
    exact get?_append_of_ne hne
  · intro name hne _
    exact Entries.get?_cons_of_ne hne

/-- The table above one that a header starts is kept if it is there. -/
theorem exists_start_below (hclosed : draft.closed = .ok document) {origin : Origin}
    {own : Option Stretch} {inner : Entries}
    (hthere : Entries.get? document above.text = some (.table origin own inner))
    (horigin : origin ≠ .inline) (hinner : Entries.get? inner key.text = none)
    (stretch : Stretch) :
    ∃ later after origin inner, draft.start [above, key] false stretch = .ok later ∧
      later.closed = .ok after ∧
      StartedInside document after above.text key.text origin inner := by
  have hfront : [above, key] = [above] ++ [key] := rfl
  have hpresent := hthere.trans_ne (Option.some_ne_none _)
  have henter : Approach.header.mayEnter origin = true := by
    cases origin with
    | inline => exact absurd rfl horigin
    | _ => rfl
  let opened := Entries.replace document above.text (.table origin own inner)
  let table := Item.table .header (some stretch) []
  have hopened : Entries.get? opened above.text = some (.table origin own inner) :=
    Entries.get?_replace_self hpresent _
  refine ⟨Draft.started opened [above, key] stretch [],
    Entries.replace opened above.text (.table origin own (inner ++ [(key, table)])),
    origin, inner ++ [(key, table)], ?_, ?_, ?_, ⟨own, ?_⟩, horigin, ?_, ?_⟩
  · rw [hfront, Draft.start_eq_ok_iff]
    refine ⟨document, _, _, hclosed, ?_, rfl⟩
    rw [within, hthere]
    dsimp only
    rw [if_pos henter, within]
    unfold Draft.take
    rw [hinner]
    rfl
  · rw [Draft.closed_eq_ok_iff hfront, within]
    dsimp only [Draft.started]
    rw [hopened]
    dsimp only
    rw [if_pos henter, within]
    unfold Draft.put
    rw [hinner]
    rfl
  · intro name hne
    rw [Entries.get?_replace_of_ne hne, Entries.get?_replace_of_ne hne]
  · exact Entries.get?_replace_self (hopened.trans_ne (Option.some_ne_none _)) _
  · rintro (hnone | ⟨_, _, himplied⟩)
    · exact absurd hnone hpresent
    · rw [hthere] at himplied
      cases himplied
      rfl
  · rintro name hne (hnone | ⟨_, _, _, hbefore, -, hname⟩)
    · exact absurd hnone hpresent
    · rw [hthere] at hbefore
      cases hbefore
      rw [get?_append_of_ne hne]
      exact hname

/-- Where there is room for a table, its header starts it, and there is room for the others as
before. -/
theorem exists_start {keys : List Key} (hclosed : draft.closed = .ok document)
    (hroom : Room document (keys.map Key.text)) (stretch : Stretch) :
    ∃ later after, draft.start keys false stretch = .ok later ∧ later.closed = .ok after ∧
      ∀ path, keys.map Key.text ≠ path → Room document path → Room after path := by
  match keys with
  | [] => exact hroom.elim
  | [key] =>
    obtain ⟨later, after, inner, hstart, hlater, hstarted⟩ :=
      exists_start_one hclosed hroom stretch
    exact ⟨later, after, hstart, hlater, fun path => hstarted.room⟩
  | [above, key] =>
    obtain ⟨later, after, origin, inner, hstart, hlater, hstarted⟩ :
        ∃ later after origin inner, draft.start [above, key] false stretch = .ok later ∧
          later.closed = .ok after ∧
          StartedInside document after above.text key.text origin inner := by
      rcases hroom with hnone | ⟨origin, own, inner, hthere, horigin, hinner⟩
      · exact exists_start_below_new hclosed hnone key stretch
      · exact exists_start_below hclosed hthere horigin hinner stretch
    exact ⟨later, after, hstart, hlater, fun path => hstarted.room⟩
  | _ :: _ :: _ :: _ => exact hroom.elim

/-- The statement that starts a table. -/
def opening (table : List Key × Stretch) : Statement := .header table.1 false table.2

theorem exists_follow_openings {tables : List (List Key × Stretch)}
    (hdiffer : (tables.map fun table => table.1.map Key.text).Nodup)
    (hclosed : draft.closed = .ok document)
    (hroom : ∀ table ∈ tables, Room document (table.1.map Key.text)) :
    ∃ last entries, (tables.map opening).foldlM Draft.follow draft = .ok last ∧
      last.closed = .ok entries := by
  induction tables generalizing draft document with
  | nil => exact ⟨draft, document, rfl, hclosed⟩
  | cons table tables ih =>
    rw [List.map_cons, List.nodup_cons] at hdiffer
    obtain ⟨later, after, hstart, hlater, hkept⟩ :=
      exists_start hclosed (hroom table List.mem_cons_self) table.2
    obtain ⟨last, entries, hlast, hentries⟩ := ih hdiffer.2 hlater (by
      intro other hmem
      refine hkept _ ?_ (hroom other (List.mem_cons_of_mem table hmem))
      intro hsame
      exact hdiffer.1 (hsame ▸ List.mem_map_of_mem hmem))
    exact ⟨last, entries, (foldlM_follow_header hstart _).trans hlast, hentries⟩

/-- Headers of different tables make a document, in any order. -/
theorem exists_build_openings {tables : List (List Key × Stretch)}
    (hdiffer : (tables.map fun table => table.1.map Key.text).Nodup)
    (hroom : ∀ table ∈ tables, Room [] (table.1.map Key.text)) :
    ∃ entries, build (tables.map opening) = .ok entries := by
  have hempty : ({} : Draft).closed = .ok [] := rfl
  obtain ⟨last, entries, hlast, hclosed⟩ := exists_follow_openings hdiffer hempty hroom
  exact ⟨entries, bind_eq_ok.mpr ⟨last, hlast, hclosed⟩⟩

end PageManifest.Toml
