import PageManifest.Console
import PageManifest.Proofs.Text.Escapes

/-!
# Colour on a console

Colour puts escape sequences around a line and changes nothing else. So, as long as neither the
glyphs nor the words of some lines have escape characters, what is printed in colour is the same
without its sequences as what is printed without colour is without its own
(`withoutSequences_transcript`). It has sequences of its own on a terminal only, where tables are
drawn with them (`escapeFree_transcript`).
-/

namespace PageManifest

open Text (Completed EscapeFree escapeFree_append deleteSequences withoutSequences)

/-- No glyph has an escape character. -/
def Icons.IsPlain (icons : Icons) : Prop := ∀ icon ∈ icons.toList, EscapeFree icon

instance (icons : Icons) : Decidable icons.IsPlain :=
  inferInstanceAs (Decidable (∀ icon ∈ icons.toList, EscapeFree icon))

/-- The glyph has no escape character, if it is no setting. -/
def HeadingGlyph.IsPlain : HeadingGlyph → Prop
  | .text glyph => EscapeFree glyph
  | _ => True

/-- The words of a line have no escape character, and neither has a glyph of its own. -/
def StatusLine.IsPlain : StatusLine → Prop
  | .success message | .failure message | .info message | .progress message | .detail message =>
    EscapeFree message
  | .heading glyph message => glyph.IsPlain ∧ EscapeFree message
  | .table contents => contents.IsPlain

theorem Icons.IsPlain.glyph {icons : Icons} (h : icons.IsPlain) {glyph : HeadingGlyph}
    (hglyph : glyph.IsPlain) : EscapeFree (glyph.glyph icons) := by
  cases glyph with
  | text glyph => exact hglyph
  | _ => exact h _ (by simp [Icons.toList, HeadingGlyph.glyph])

/-- The sequences with which an output draws a table end in the table. -/
def Output.Completes (output : Output) : Prop :=
  ∀ contents : Text.Table, contents.IsPlain → Completed (output.draw contents)

theorem Output.escapeFree_draw {output : Output} (h : output.isTerminal = false)
    {contents : Text.Table} (hcontents : contents.IsPlain) : EscapeFree (output.draw contents) := by
  cases output with
  | plain => exact hcontents.escapeFree_draw
  | terminal draw => cases h

theorem Output.completes_of_isTerminal_eq_false {output : Output} (h : output.isTerminal = false) :
    output.Completes := fun _ hcontents => (escapeFree_draw h hcontents).completed

/-- A line has no escape character unless it is a table. -/
theorem StatusLine.IsPlain.escapeFree_text {line : StatusLine} (h : line.IsPlain) {icons : Icons}
    (hicons : icons.IsPlain) {output : Output}
    (htable : ∀ contents, line = .table contents → EscapeFree (output.draw contents)) :
    EscapeFree (line.text icons output) := by
  have hicon : ∀ {icon message}, icon ∈ icons.toList → EscapeFree message →
      EscapeFree (icon ++ " " ++ message) := by
    intro icon message hmem hmessage
    simp only [escapeFree_append]
    exact ⟨⟨hicons icon hmem, .of_chars (by decide)⟩, hmessage⟩
  cases line with
  | success message => exact hicon (by simp [Icons.toList]) h
  | failure message => exact hicon (by simp [Icons.toList]) h
  | info message => exact hicon (by simp [Icons.toList]) h
  | progress message => exact h
  | detail message => exact escapeFree_append.mpr ⟨.of_chars (by decide), h⟩
  | heading glyph message =>
    show EscapeFree ("\n" ++ glyph.glyph icons ++ " " ++ message)
    simp only [escapeFree_append]
    exact ⟨⟨⟨.of_chars (by decide), hicons.glyph h.1⟩, .of_chars (by decide)⟩, h.2⟩
  | table contents => exact htable contents rfl

theorem StatusLine.IsPlain.completed_text {line : StatusLine} (h : line.IsPlain) {icons : Icons}
    (hicons : icons.IsPlain) {output : Output} (houtput : output.Completes) :
    Completed (line.text icons output) := by
  by_cases htable : ∃ contents, line = .table contents
  · obtain ⟨contents, rfl⟩ := htable
    exact houtput contents h
  · refine (h.escapeFree_text hicons ?_).completed
    exact fun contents hline => absurd ⟨contents, hline⟩ htable

namespace Console

/-- The same console with colour or without. -/
def withColor (console : Console) (useColor : Bool) : Console := { console with useColor }

/-- The same console, showing nothing. -/
def silenced (console : Console) : Console := { console with isEnabled := false }

variable (console : Console)

theorem decorate_colorless (line : StatusLine) :
    (console.withColor false).decorate line = line.text console.icons console.output := by
  unfold decorate
  split
  · rename_i hcolor
    cases hcolor
  · rfl

/-- A table has no colour, so a line that has one is without escape characters. -/
theorem deleteSequences_decorate {line : StatusLine} (hicons : console.icons.IsPlain)
    (houtput : console.output.Completes) (h : line.IsPlain) (behind : List Char) :
    deleteSequences none ((console.decorate line).toList ++ behind) =
      deleteSequences none (line.text console.icons console.output).toList ++
        deleteSequences none behind := by
  unfold decorate
  split
  · rename_i hcolor _
    have htable : ∀ contents, line ≠ .table contents := by
      rintro contents rfl
      cases hcolor
    have htext : EscapeFree (line.text console.icons console.output) :=
      h.escapeFree_text hicons fun contents hline => absurd hline (htable contents)
    rw [Text.deleteSequences_paint _ htext, Text.deleteSequences_of_notMem htext]
  · exact h.completed_text hicons houtput behind

theorem deleteSequences_render {line : StatusLine} (hicons : console.icons.IsPlain)
    (houtput : console.output.Completes) (h : line.IsPlain) (behind : List Char) :
    deleteSequences none ((console.render line).toList ++ behind) =
      deleteSequences none ((console.withColor false).render line).toList ++
        deleteSequences none behind := by
  have hbreak : Completed "\n" := EscapeFree.completed (.of_chars (by decide))
  unfold render
  by_cases henabled : console.isEnabled = true
  · have hcolorless : (console.withColor false).isEnabled = true := henabled
    rw [if_pos henabled, if_pos hcolorless, decorate_colorless, String.toList_append,
      List.append_assoc, console.deleteSequences_decorate hicons houtput h, hbreak,
      String.toList_append, h.completed_text hicons houtput, List.append_assoc]
  · have hcolorless : ¬ (console.withColor false).isEnabled = true := henabled
    rw [if_neg henabled, if_neg hcolorless]
    rfl

/-- Colour adds nothing to a transcript but escape sequences. -/
theorem withoutSequences_transcript (hicons : console.icons.IsPlain)
    (houtput : console.output.Completes) {lines : List StatusLine}
    (hlines : ∀ line ∈ lines, line.IsPlain) :
    withoutSequences (console.transcript lines) =
      withoutSequences ((console.withColor false).transcript lines) := by
  -- Behind a line deleting goes on as it would without it, in colour and without.
  refine congrArg String.ofList ?_
  induction lines with
  | nil => rfl
  | cons line lines ih =>
    rw [List.forall_mem_cons] at hlines
    have hrest := ih hlines.2
    unfold transcript at hrest ⊢
    have hcolorless : (console.withColor false).withColor false = console.withColor false := rfl
    rw [List.map_cons, List.map_cons, String.join_cons, String.join_cons, String.toList_append,
      String.toList_append, console.deleteSequences_render hicons houtput hlines.1, hrest,
      (console.withColor false).deleteSequences_render hicons houtput hlines.1, hcolorless]

/-- Without colour there are no escape characters where there is no terminal. -/
theorem escapeFree_transcript (hicons : console.icons.IsPlain)
    (houtput : console.output.isTerminal = false) {lines : List StatusLine}
    (hlines : ∀ line ∈ lines, line.IsPlain) :
    EscapeFree ((console.withColor false).transcript lines) := by
  induction lines with
  | nil => exact .of_chars (by decide)
  | cons line lines ih =>
    rw [List.forall_mem_cons] at hlines
    have hrest := ih hlines.2
    unfold transcript at hrest ⊢
    rw [List.map_cons, String.join_cons, escapeFree_append]
    refine ⟨?_, hrest⟩
    unfold render
    split
    · rw [decorate_colorless, escapeFree_append]
      refine ⟨hlines.1.escapeFree_text hicons ?_, .of_chars (by decide)⟩
      rintro contents rfl
      exact Output.escapeFree_draw houtput hlines.1
    · exact .of_chars (by decide)

theorem transcript_append (lines others : List StatusLine) :
    console.transcript (lines ++ others) = console.transcript lines ++ console.transcript others := by
  simp only [transcript, List.map_append, String.join_append]

theorem transcript_silenced (lines : List StatusLine) : console.silenced.transcript lines = "" := by
  induction lines with
  | nil => rfl
  | cons line lines ih =>
    unfold transcript at ih ⊢
    rw [List.map_cons, String.join_cons, ih]
    rfl

end Console

end PageManifest
