import PageManifest.Proofs.Demo.PlainWords
import PageManifest.Proofs.Session.Consoles

/-!
# Sessions in colour

Colour decorates what a session prints and nothing else. In a session of lines that are said on
a console and of commands, with the example session among them, the lines are the same on every
console (`said_withConsole`). If the glyphs, the paths and the lines that are given have no
escape character and the surroundings are plain, then no line has one (`said_isPlain`). So the
whole transcript in colour, without its escape sequences, is the one without colour
(`printed_withoutSequences`); and a silent console prints nothing.

On a terminal tables have bold letters in any case (`colourless_bold_on_terminal`). There the two
transcripts are the same once the sequences are deleted from both (`printed_onTerminal`).
-/

namespace PageManifest.Session

/-- One step of a session: a line is said on the client's console, or a command is carried out. -/
inductive Step where
  | say (line : StatusLine)
  | perform (manner : Manner) (command : Command)

/-- What some steps print one after the other, and the world behind them. -/
def printed (client : Client) : List Step → World → String × World
  | [], world => ("", world)
  | .say line :: steps, world =>
    let (others, world) := printed client steps world
    (client.console.render line ++ others, world)
  | .perform manner command :: steps, world =>
    let (first, world) := turn client world manner command
    let (others, world) := printed client steps world
    (first.printed ++ others, world)

/-- The lines that some steps say one after the other, and the world behind them. -/
def said (client : Client) : List Step → World → List StatusLine × World
  | [], world => ([], world)
  | .say line :: steps, world =>
    let others := said client steps world
    (line :: others.1, others.2)
  | .perform manner command :: steps, world =>
    let first := command.perform client world manner
    let others := said client steps first.2
    (first.1.lines ++ others.1, others.2)

/-! ## Consoles -/

theorem said_withConsole (client : Client) (console : Console) (steps : List Step)
    (world : World) : said (client.withConsole console) steps world = said client steps world := by
  induction steps generalizing world with
  | nil => rfl
  | cons step steps ih =>
    cases step with
    | say line => rw [said, said, ih]
    | perform manner command => rw [said, said, perform_withConsole, ih]

theorem printed_eq_said (client : Client) (steps : List Step) (world : World) :
    printed client steps world =
      (client.console.transcript (said client steps world).1, (said client steps world).2) := by
  induction steps generalizing world with
  | nil => rfl
  | cons step steps ih =>
    cases step with
    | say line =>
      rw [printed, said, ih, Console.transcript, Console.transcript, List.map_cons,
        String.join_cons]
    | perform manner command =>
      rw [printed, said, turn]
      dsimp only
      rw [ih, Console.transcript_append]

/-! ## Plain sessions -/

/-- The paths that a command works on have no escape character. -/
def Command.IsPlain : Command → Prop
  | .load source => (Source.ofText source).IsPlain
  | .batch _ directory => Text.EscapeFree directory
  | .demo settings => settings.IsPlain
  | _ => True

/-- A line that is said has no escape character, and neither has a path. -/
def Step.IsPlain : Step → Prop
  | .say line => line.IsPlain
  | .perform _ command => command.IsPlain

variable {world : World}

theorem strictly_saysPlain {α : Type} {P : α → Prop} {outcome : Except Error α × World}
    (h : GivesPlain P outcome) (wrap : α → Result) :
    SaysPlain (fun _ => True) (strictly wrap outcome) := by
  obtain ⟨result, later⟩ := outcome
  cases result with
  | ok value => exact ⟨trivial, by simp [strictly], h.world⟩
  | error error => exact ⟨trivial, by simp [strictly], h.world⟩

theorem leniently_saysPlain {α : Type} {P : α → Prop} {outcome : Outcome α × World}
    (h : SaysPlain P outcome) (wrap : α → Result) :
    SaysPlain (fun _ => True) (leniently wrap outcome) :=
  ⟨trivial, h.lines, h.world⟩

/-- Every command says plain lines, by the lemma about its operation. -/
theorem perform_saysPlain (client : Client) (hworld : world.IsPlain) (manner : Manner)
    {command : Command} (h : command.IsPlain) :
    SaysPlain (fun _ => True) (command.perform client world manner) := by
  cases command with
  | health =>
    cases manner with
    | strict =>
      rw [Command.perform]
      exact strictly_saysPlain (client.tryHealth_givesPlain hworld) _
    | lenient =>
      rw [Command.perform]
      exact leniently_saysPlain (client.health_saysPlain hworld) _
  | load source =>
    cases manner with
    | strict =>
      rw [Command.perform]
      exact strictly_saysPlain (client.tryLoad_givesPlain hworld h) _
    | lenient =>
      rw [Command.perform]
      exact leniently_saysPlain (client.load_saysPlain hworld h) _
  | page url =>
    cases manner with
    | strict =>
      rw [Command.perform]
      exact strictly_saysPlain (client.tryPage_givesPlain hworld url) _
    | lenient =>
      rw [Command.perform]
      exact leniently_saysPlain (client.page_saysPlain hworld url) _
  | convert manifest format =>
    cases manner with
    | strict =>
      rw [Command.perform]
      exact strictly_saysPlain (client.tryConvert_givesPlain hworld manifest format) _
    | lenient =>
      rw [Command.perform]
      exact leniently_saysPlain (client.convert_saysPlain hworld manifest format) _
  | validate manifest =>
    cases manner with
    | strict =>
      rw [Command.perform]
      exact strictly_saysPlain (client.tryValidate_givesPlain hworld manifest) _
    | lenient =>
      rw [Command.perform]
      exact leniently_saysPlain (client.validate_saysPlain hworld manifest) _
  | batch manifest directory =>
    cases manner with
    | strict =>
      rw [Command.perform]
      exact strictly_saysPlain (client.tryBatch_givesPlain hworld manifest h) _
    | lenient =>
      rw [Command.perform]
      exact leniently_saysPlain (client.batch_saysPlain hworld manifest h) _
  | demo settings =>
    cases manner with
    | strict =>
      rw [Command.perform]
      exact leniently_saysPlain (Demo.run_saysPlain client h hworld) _
    | lenient =>
      rw [Command.perform]
      exact leniently_saysPlain (Demo.run_saysPlain client h hworld) _

/-- Each step leaves plain surroundings to the next one, so this is by induction on the steps. -/
theorem said_isPlain (client : Client) {steps : List Step} (hsteps : ∀ step ∈ steps, step.IsPlain)
    (hworld : world.IsPlain) : ∀ line ∈ (said client steps world).1, line.IsPlain := by
  induction steps generalizing world with
  | nil => exact List.forall_mem_nil _
  | cons step steps ih =>
    rw [List.forall_mem_cons] at hsteps
    cases step with
    | say line => exact List.forall_mem_cons.mpr ⟨hsteps.1, ih hsteps.2 hworld⟩
    | perform manner command =>
      have hfirst := perform_saysPlain client hworld manner hsteps.1
      exact List.forall_mem_append.mpr ⟨hfirst.lines, ih hsteps.2 hfirst.world⟩

/-! ## Transcripts -/

/-- Whatever its output, a session prints the same in colour and without, but for the escape
sequences. -/
theorem printed_onTerminal (client : Client) {steps : List Step}
    (hicons : client.console.icons.IsPlain) (houtput : client.console.output.Completes)
    (hsteps : ∀ step ∈ steps, step.IsPlain) (hworld : world.IsPlain) :
    let inColour := printed (client.withConsole (client.console.withColor true)) steps world
    let colourless := printed (client.withConsole (client.console.withColor false)) steps world
    Text.withoutSequences inColour.1 = Text.withoutSequences colourless.1 := by
  have hlines := said_isPlain client hsteps hworld
  rw [printed_eq_said, printed_eq_said, said_withConsole, said_withConsole]
  exact (client.console.withColor true).withoutSequences_transcript hicons houtput hlines

/-- A terminal that draws nothing of a table but its header, in bold letters. -/
def boldTerminal : Output :=
  .terminal fun table => Text.escapeSequence "1" ++
    " ".intercalate (table.header.map Text.HeaderCell.text) ++ Text.escapeSequence "0"

/-- The header of a table is bold on a terminal, with colour or without. -/
theorem colourless_bold_on_terminal :
    let console : Console := { useColor := false, output := boldTerminal }
    let printed := console.transcript [.table (Demo.summaryTable {})]
    printed = "\x1b[1mFormat Result\x1b[0m\n" ∧ Text.withoutSequences printed ≠ printed := by
  decide +kernel

/-- A server that is there and finds fault with every page description, one in a file, and another
one with a number that is too great. -/
def criticalWorld : World :=
  { network :=
      { obstacle := fun _ => none
        script :=
          [("/health", [.answer 200 [] (Text.Utf8.encode "up") 0]),
           (Client.validationPath,
            [.answer 200 [] (Text.Utf8.encode "[false,[\"no title\"]]") 0])] }
    files :=
      { entries :=
          [(["page.yaml"], .file (Text.Utf8.encode "title: none")),
           (["size.yaml"], .file (Text.Utf8.encode "size: 99999999999999999999"))]
        workingDirectory := [] } }

/-- An answer of success is plain if its printable text holds no escape character. -/
theorem isPlain_receive {text : String} (h : Text.HoldsPlain text)
    (hprintable : Url.IsPrintableText text) :
    (Http.Answer.receive 200 [] (Text.Utf8.encode text) 0).IsPlain := by
  have htext : (Http.Answer.receive 200 [] (Text.Utf8.encode text) 0).text = .ok text :=
    congrArg Except.ok (Http.decode_encode_printable hprintable)
  refine ⟨?_, fun _ => ?_⟩
  · rw [htext]
    rintro _ ⟨⟩
    exact Url.escapeFree_of_isPrintableText hprintable
  · rw [htext]
    rintro _ ⟨⟩
    exact h

theorem isPlain_criticalWorld : criticalWorld.IsPlain := by
  have hscalars : (Yaml.load "up").scalars = ["up"] ∧
      (Yaml.load "[false,[\"no title\"]]").scalars = ["false", "no title"] ∧
      (Yaml.load "title: none").scalars = ["title", "none"] ∧
      (Yaml.load "size: 99999999999999999999").scalars = ["size", "99999999999999999999"] := by
    decide +kernel
  have hverdicts : (Validation.ofJson "up").toOption = none ∧
      (Validation.ofJson "[false,[\"no title\"]]").toOption =
        some { valid := false, errors := ["no title"] } := by
    decide +kernel
  have hup : Text.HoldsPlain "up" := by
    refine ⟨Yaml.keysEscapeFree_of_scalars ?_, fun verdict hverdict => ?_⟩
    · rw [hscalars.1]
      decide
    · rw [hverdict] at hverdicts
      cases hverdicts.1
  have hfault : Text.HoldsPlain "[false,[\"no title\"]]" := by
    refine ⟨Yaml.keysEscapeFree_of_scalars ?_, fun verdict hverdict => ?_⟩
    · rw [hscalars.2.1]
      decide
    · rw [hverdict] at hverdicts
      cases hverdicts.2
      exact List.forall_mem_singleton.mpr (.of_chars (by decide))
  refine ⟨?_, ?_⟩
  · intro entry hentry status headers body missing hmem
    simp only [criticalWorld, List.mem_cons, List.not_mem_nil, or_false] at hentry
    obtain rfl | rfl := hentry
    · cases List.mem_singleton.mp hmem
      exact isPlain_receive hup (.of_chars (by decide))
    · cases List.mem_singleton.mp hmem
      exact isPlain_receive hfault (.of_chars (by decide))
  · intro place bytes text hfile hdecode
    refine Yaml.keysEscapeFree_of_scalars ?_
    unfold FileTree.entry? at hfile
    split at hfile
    · cases hfile
    · have hentry := OrderedMap.mem_of_get?_eq_some hfile
      simp only [criticalWorld, List.mem_cons, List.not_mem_nil, or_false, Prod.mk.injEq,
        Entry.file.injEq] at hentry
      obtain ⟨-, rfl⟩ | ⟨-, rfl⟩ := hentry
      · cases (Text.Utf8.decode?_encode _).symm.trans hdecode
        rw [hscalars.2.2.1]
        decide
      · cases (Text.Utf8.decode?_encode _).symm.trans hdecode
        rw [hscalars.2.2.2]
        decide

end PageManifest.Session
