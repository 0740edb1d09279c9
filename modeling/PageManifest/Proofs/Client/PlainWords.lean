import PageManifest.Client.Lenient
import PageManifest.Proofs.Console
import PageManifest.Proofs.FileTree.Creation
import PageManifest.Proofs.FileTree.Files
import PageManifest.Proofs.FileTree.Writing
import PageManifest.Proofs.Http.Texts
import PageManifest.Proofs.Yaml.Faults

/-!
# The words of clients

In plain surroundings (`World.IsPlain`) the texts of the server and the keys of YAML files have no
escape characters. A client to which only plain paths are given says nothing that has one, and
leaves plain surroundings: what it saves came from the server. Each strict operation gives what
is plain, or an error with a plain message (`GivesPlain`), and each lenient one says plain lines
(`SaysPlain`).
-/

namespace PageManifest

open Text (EscapeFree escapeFree_append)

/-! ## Plain surroundings -/

/-- No key of the document in a YAML text has an escape character. -/
def Yaml.KeysEscapeFree (text : String) : Prop := ∀ key, HasKey (load text) key → EscapeFree key

theorem Yaml.keysEscapeFree_of_scalars {text : String}
    (h : ∀ scalar ∈ (load text).scalars, EscapeFree scalar) : KeysEscapeFree text :=
  fun key hkey => h key hkey.mem_scalars

/-- No error of a verdict has an escape character. -/
def Validation.IsPlain (verdict : Validation) : Prop :=
  ∀ message ∈ verdict.errors, EscapeFree message

/-- A path has no escape character, if it is one. -/
def Source.IsPlain : Source → Prop
  | .url _ => True
  | .file path => EscapeFree path

/-- Read as a document or as a verdict, a text has no escape character in keys or in errors. It
need not have one itself to do so, since it may have it spelled. -/
structure Text.HoldsPlain (text : String) : Prop where
  keys : Yaml.KeysEscapeFree text
  errors : ∀ verdict, Validation.ofJson text = .ok verdict → verdict.IsPlain

/-- The text of an answer has no escape character, and on success holds none. -/
structure Http.Answer.IsPlain (answer : Http.Answer) : Prop where
  escapeFree : ∀ text, answer.text = .ok text → EscapeFree text
  holds : answer.status.isSuccess = true → ∀ text, answer.text = .ok text → Text.HoldsPlain text

/-- No key of a YAML file has an escape character. -/
def FileTree.IsPlain (tree : FileTree) : Prop :=
  ∀ place bytes text, tree.entry? place = some (.file bytes) →
    Text.Utf8.decode? bytes = some text → Yaml.KeysEscapeFree text

/-- The server's answers and the files are plain. -/
structure World.IsPlain (world : World) : Prop where
  answers : Http.EveryAnswer Http.Answer.IsPlain world.network.script
  files : world.files.IsPlain

theorem World.IsPlain.note {world : World} (h : world.IsPlain) (level : Log.Level)
    (origin : Log.Origin) (message : String) : (world.note level origin message).IsPlain :=
  ⟨h.answers, h.files⟩

theorem FileTree.IsPlain.created {tree later : FileTree} {path : String} (h : tree.IsPlain)
    (hcreated : FileTree.Created tree later path) : later.IsPlain := by
  intro place bytes text hfile hdecode
  exact h place bytes text ((hcreated.file_iff place bytes).mp hfile) hdecode

theorem FileTree.IsPlain.written {tree later : FileTree} {path content : String} (h : tree.IsPlain)
    (hcontent : Yaml.KeysEscapeFree content) (hwrite : tree.writeText path content = .ok later) :
    later.IsPlain := by
  obtain ⟨place, hopens, rfl⟩ := FileTree.writeText_eq_ok_iff.mp hwrite
  intro other bytes text hfile hdecode
  rw [FileTree.entry?_put tree hopens.ne_nil] at hfile
  split at hfile
  · cases hfile
    rw [Text.Utf8.decode?_encode] at hdecode
    cases hdecode
    exact hcontent
  · exact h other bytes text hfile hdecode

theorem FileTree.IsPlain.keysEscapeFree_of_readText {tree : FileTree} (h : tree.IsPlain)
    {path text : String} (hread : tree.readText path = .ok text) : Yaml.KeysEscapeFree text := by
  unfold FileTree.readText at hread
  split at hread
  · rename_i bytes hbytes
    obtain ⟨place, -, hfile⟩ := FileTree.exists_resolve_of_readBytes hbytes
    split at hread
    · rename_i hdecode
      cases hread
      exact h place bytes text hfile hdecode
    · cases hread
  · cases hread

/-- What a server says of a target that it does not know is plain. -/
theorem isPlain_unknownAnswer {request : Http.Request}
    (h : Url.IsPrintableText request.target) : (Http.unknownAnswer request).IsPlain := by
  refine ⟨?_, by rintro ⟨⟩⟩
  rw [Http.text_unknownAnswer h]
  rintro _ ⟨⟩
  exact Url.escapeFree_of_isPrintableText (Http.isPrintableText_unknownText h)

/-! ## Errors -/

theorem FileFault.escapeFree_message (fault : FileFault) : EscapeFree fault.message := by
  cases fault <;> exact .of_chars (by decide)

theorem Format.escapeFree_name (format : Format) : EscapeFree format.name := by
  cases format <;> exact .of_chars (by decide)

theorem Value.escapeFree_kind (v : Value) : EscapeFree v.kind := by
  cases v <;> exact .of_chars (by decide)

/-- An operation fails with a plain message. -/
abbrev FailsInPlainWords {α : Type} (result : Except Error α) : Prop :=
  FailsWith (fun error => EscapeFree error.message) result

theorem escapeFree_message_file {path : String} (h : EscapeFree path) (fault : FileFault) :
    EscapeFree (Error.file path fault).message := by
  show EscapeFree (path ++ ": " ++ fault.message)
  simp only [escapeFree_append]
  exact ⟨⟨h, .of_chars (by decide)⟩, fault.escapeFree_message⟩

theorem escapeFree_message_http {failure : Http.Failure} (h : failure.IsPrintable) :
    EscapeFree (Error.http failure).message :=
  escapeFree_append.mpr ⟨.of_chars (by decide), h.escapeFree⟩

theorem escapeFree_message_json {error : Json.Error} (h : error.fault.IsFixed) :
    EscapeFree (Error.json error).message :=
  escapeFree_append.mpr ⟨.of_chars (by decide), Json.Error.escapeFree_message h⟩

namespace Manifest

theorem failsInPlainWords_ofValue (v : Value) : FailsInPlainWords (ofValue v) := by
  unfold ofValue
  split
  · exact .ok _
  · exact .ok _
  · exact .error (escapeFree_append.mpr ⟨.of_chars (by decide), v.escapeFree_kind⟩)

theorem failsInPlainWords_ofJson (text : String) : FailsInPlainWords (ofJson text) := by
  have hread := Json.failsPlainly_read text
  unfold ofJson
  split
  · exact failsInPlainWords_ofValue _
  · rename_i error herror
    rw [herror] at hread
    exact .error (escapeFree_message_json hread.of_error)

theorem failsInPlainWords_ofYaml {text : String} (h : Yaml.KeysEscapeFree text) :
    FailsInPlainWords (ofYaml text) := by
  have hread := Yaml.escapeFree_message_of_read h
  unfold ofYaml
  split
  · exact .ok _
  split
  · exact failsInPlainWords_ofValue _
  · rename_i error herror
    rw [herror] at hread
    exact .error (escapeFree_append.mpr ⟨.of_chars (by decide), hread.of_error⟩)

theorem failsInPlainWords_ofYamlFile {tree : FileTree} (h : tree.IsPlain) {path : String}
    (hpath : EscapeFree path) : FailsInPlainWords (ofYamlFile tree path) := by
  unfold ofYamlFile
  split
  · rename_i text htext
    exact failsInPlainWords_ofYaml (h.keysEscapeFree_of_readText htext)
  · exact .error (escapeFree_message_file hpath _)

end Manifest

/-! ## Strict operations -/

/-- An operation gives something with a property or fails in plain words, and leaves plain
surroundings. -/
structure GivesPlain {α : Type} (P : α → Prop) (outcome : Except Error α × World) : Prop where
  value : ∀ a, outcome.1 = .ok a → P a
  error : FailsInPlainWords outcome.1
  world : outcome.2.IsPlain

namespace GivesPlain

variable {α β : Type} {P : α → Prop} {Q : β → Prop} {world : World}

theorem ok {a : α} (h : P a) (hworld : world.IsPlain) : GivesPlain P (.ok a, world) :=
  ⟨by rintro _ ⟨⟩; exact h, .ok a, hworld⟩

theorem failure {error : Error} (h : EscapeFree error.message) (hworld : world.IsPlain) :
    GivesPlain P (.error error, world) :=
  ⟨by rintro _ ⟨⟩, .error h, hworld⟩

/-- What is made of a result is plain if it is made of any value as it should be. -/
theorem bind {result : Except Error α} (h : GivesPlain P (result, world))
    {next : α → Except Error β} (hvalue : ∀ a, P a → ∀ b, next a = .ok b → Q b)
    (herror : ∀ a, P a → FailsInPlainWords (next a)) :
    GivesPlain Q (result.bind next, world) := by
  refine ⟨?_, .bind h.error fun a ha => herror a (h.value a ha), h.world⟩
  cases result with
  | error error => rintro b ⟨⟩
  | ok a => exact hvalue a (h.value a rfl)

theorem map {result : Except Error α} (h : GivesPlain P (result, world)) {f : α → β}
    (hf : ∀ a, P a → Q (f a)) : GivesPlain Q (result.map f, world) := by
  cases result with
  | error error => exact .failure h.error.of_error h.world
  | ok a => exact .ok (hf a (h.value a rfl)) h.world

end GivesPlain

namespace Client

variable (client : Client) {world : World}

/-- Only an answer of success is given, and what is said of any other has its text. -/
theorem exchange_givesPlain (hworld : world.IsPlain) (method : Http.Method) (path : String)
    (body : Option String) :
    GivesPlain (fun answer => answer.status.isSuccess = true ∧ answer.IsPlain)
      (client.exchange world method path body) := by
  have htells := Http.Network.exchange_tells hworld.answers (fun _ h => isPlain_unknownAnswer h)
    method (client.baseUrl ++ path) body client.timeout
  have hlater : ∀ {network : Http.Network}, network.script = world.network.script →
      World.IsPlain { client.noteRequest world method path with network } :=
    fun hscript => ⟨hscript ▸ hworld.answers, hworld.files⟩
  have hnetwork : (client.noteRequest world method path).network = world.network := rfl
  unfold exchange
  dsimp only
  rw [hnetwork]
  split
  · rename_i failure network heq
    rw [heq] at htells
    exact .failure (escapeFree_message_http (htells.failure failure rfl)) (hlater htells.script)
  · rename_i answer network heq
    rw [heq] at htells
    have hplain := htells.answer answer rfl
    by_cases hsuccess : answer.status.isSuccess = true
    · rw [if_pos hsuccess]
      exact .ok ⟨hsuccess, hplain⟩ (hlater htells.script)
    · rw [if_neg hsuccess]
      refine .failure ?_ (hlater htells.script)
      show EscapeFree ("server returned " ++ answer.status.phrase ++ ": " ++
        answer.text.toOption.getD "")
      simp only [escapeFree_append]
      refine ⟨⟨⟨.of_chars (by decide), Http.escapeFree_phrase answer.status⟩,
        .of_chars (by decide)⟩, ?_⟩
      cases htext : answer.text with
      | error failure => exact .of_chars (by decide)
      | ok text => exact hplain.escapeFree text htext

theorem failsInPlainWords_answerText (answer : Http.Answer) :
    FailsInPlainWords (answerText answer) := by
  unfold answerText Http.Answer.text
  cases answer.body with
  | none => exact .error (escapeFree_message_http trivial)
  | some bytes => exact .ok _

theorem askFor_givesPlain (hworld : world.IsPlain) (path body : String) :
    GivesPlain Text.HoldsPlain (client.askFor world path body) := by
  have hexchange := client.exchange_givesPlain hworld .post path (some body)
  unfold askFor
  generalize client.exchange world .post path (some body) = outcome at hexchange
  obtain ⟨result, later⟩ := outcome
  refine hexchange.bind ?_ ?_
  · rintro answer ⟨hsuccess, hplain⟩ text htext
    unfold answerText at htext
    split at htext
    · rename_i htext'
      cases htext
      exact hplain.holds hsuccess _ htext'
    · cases htext
  · exact fun answer _ => failsInPlainWords_answerText answer

theorem tryHealth_givesPlain (hworld : world.IsPlain) :
    GivesPlain (fun _ => True) (client.tryHealth world) := by
  have hexchange := client.exchange_givesPlain hworld .get healthPath none
  unfold tryHealth
  generalize client.exchange world .get healthPath none = outcome at hexchange
  obtain ⟨result, later⟩ := outcome
  exact hexchange.map fun _ _ => trivial

theorem tryPage_givesPlain (hworld : world.IsPlain) (url : String) :
    GivesPlain (fun _ => True) (client.tryPage world url) := by
  have hasked := client.askFor_givesPlain hworld pagePath (pageBody url)
  unfold tryPage
  generalize client.askFor world pagePath (pageBody url) = outcome at hasked
  obtain ⟨result, later⟩ := outcome
  exact hasked.bind (fun _ _ _ _ => trivial) fun text _ => Manifest.failsInPlainWords_ofJson text

theorem tryLoad_givesPlain (hworld : world.IsPlain) {source : String} (h : (Source.ofText source).IsPlain) :
    GivesPlain (fun _ => True) (client.tryLoad world source) := by
  unfold tryLoad
  cases hsource : Source.ofText source with
  | url address => exact client.tryPage_givesPlain hworld address
  | file path =>
    rw [hsource] at h
    exact ⟨fun _ _ => trivial, Manifest.failsInPlainWords_ofYamlFile hworld.files h,
      hworld.note _ _ _⟩

theorem tryConvert_givesPlain (hworld : world.IsPlain) (manifest : Manifest) (format : Format) :
    GivesPlain Text.HoldsPlain (client.tryConvert world manifest format) :=
  client.askFor_givesPlain hworld _ _

theorem tryValidate_givesPlain (hworld : world.IsPlain) (manifest : Manifest) :
    GivesPlain Validation.IsPlain (client.tryValidate world manifest) := by
  have hasked := client.askFor_givesPlain hworld validationPath manifest.toJson
  unfold tryValidate
  generalize client.askFor world validationPath manifest.toJson = outcome at hasked
  obtain ⟨result, later⟩ := outcome
  refine hasked.bind ?_ ?_
  · intro text htext given hgiven
    unfold verdict at hgiven
    split at hgiven
    · rename_i found hfound
      cases hgiven
      exact htext.errors _ hfound
    · cases hgiven
  · intro text _
    have hread := Validation.failsPlainly_ofJson text
    unfold verdict
    split
    · exact .ok _
    · rename_i error herror
      rw [herror] at hread
      exact .error (escapeFree_message_json hread.of_error)

/-! ## Batches -/

theorem escapeFree_join {path below : String} (hpath : EscapeFree path)
    (hbelow : EscapeFree below) : EscapeFree (Path.join path below) := by
  unfold Path.join
  split
  · exact hbelow
  · split
    · exact escapeFree_append.mpr ⟨hpath, hbelow⟩
    · simp only [escapeFree_append]
      exact ⟨⟨hpath, .of_chars (by decide)⟩, hbelow⟩

theorem escapeFree_outputPath {directory : String} (h : EscapeFree directory) (format : Format) :
    EscapeFree (outputPath directory format) := by
  refine escapeFree_join h (escapeFree_append.mpr ⟨.of_chars (by decide), ?_⟩)
  cases format <;> exact .of_chars (by decide)

theorem saveOutput_givesPlain (hworld : world.IsPlain) {directory : String}
    (h : EscapeFree directory) (format : Format) {content : String}
    (hcontent : Yaml.KeysEscapeFree content) :
    GivesPlain EscapeFree (saveOutput world directory format content) := by
  have hpath := escapeFree_outputPath h format
  unfold saveOutput
  dsimp only
  split
  · rename_i files hwrite
    exact .ok hpath ⟨hworld.answers, hworld.files.written hcontent hwrite⟩
  · exact .failure (escapeFree_message_file hpath _) hworld

theorem convertAndSave_givesPlain (hworld : world.IsPlain) (manifest : Manifest)
    {directory : String} (h : EscapeFree directory) (format : Format) :
    GivesPlain EscapeFree (client.convertAndSave world manifest directory format) := by
  have hconvert := client.tryConvert_givesPlain hworld manifest format
  unfold convertAndSave
  split
  · rename_i error later heq
    rw [heq] at hconvert
    exact .failure hconvert.error.of_error hconvert.world
  · rename_i content later heq
    rw [heq] at hconvert
    split
    · refine .failure ?_ hconvert.world
      show EscapeFree ("server returned no " ++ format.name ++ " output")
      simp only [escapeFree_append]
      exact ⟨⟨.of_chars (by decide), format.escapeFree_name⟩, .of_chars (by decide)⟩
    · exact saveOutput_givesPlain hconvert.world h format (hconvert.value content rfl).keys

end Client

/-- The paths and the reasons in a report are plain. -/
structure BatchReport.IsPlain (report : BatchReport) : Prop where
  written : ∀ entry ∈ report.written, EscapeFree entry.2
  failed : ∀ entry ∈ report.failed, EscapeFree entry.2

theorem BatchReport.IsPlain.withResult {report : BatchReport} (h : report.IsPlain)
    (format : Format) {result : Except Error String} {world : World}
    (hresult : GivesPlain EscapeFree (result, world)) : (report.withResult format result).IsPlain := by
  cases result with
  | ok path =>
    exact ⟨List.forall_mem_cons.mpr ⟨hresult.value path rfl, h.written⟩, h.failed⟩
  | error error =>
    exact ⟨h.written, List.forall_mem_cons.mpr ⟨hresult.error.of_error, h.failed⟩⟩

namespace Client

variable (client : Client) {world : World}

theorem isPlain_resultLines (format : Format) {result : Except Error String}
    (hresult : GivesPlain EscapeFree (result, world)) :
    ∀ line ∈ resultLines format result, line.IsPlain := by
  have hprogress : EscapeFree ("Converting to " ++ format.name ++ "...") := by
    simp only [escapeFree_append]
    exact ⟨⟨.of_chars (by decide), format.escapeFree_name⟩, .of_chars (by decide)⟩
  unfold resultLines
  rw [List.forall_mem_cons, List.forall_mem_singleton]
  refine ⟨hprogress, ?_⟩
  cases result with
  | ok path => exact escapeFree_append.mpr ⟨.of_chars (by decide), hresult.value path rfl⟩
  | error error =>
    show EscapeFree ("Failed to convert to " ++ format.name ++ ": " ++ error.message)
    simp only [escapeFree_append]
    exact ⟨⟨⟨.of_chars (by decide), format.escapeFree_name⟩, .of_chars (by decide)⟩,
      hresult.error.of_error⟩

theorem isPlain_noteResult (hworld : world.IsPlain) (format : Format)
    (result : Except Error String) : (noteResult world format result).IsPlain := by
  cases result with
  | ok path => exact hworld.note _ _ _
  | error error => exact hworld.note _ _ _

/-- The formats are converted one after the other, so this is by induction on them. -/
theorem convertEach_isPlain (manifest : Manifest) {directory : String} (h : EscapeFree directory)
    (formats : List Format) (hworld : world.IsPlain) :
    (client.convertEach manifest directory formats world).1.1.IsPlain ∧
      (∀ line ∈ (client.convertEach manifest directory formats world).1.2, line.IsPlain) ∧
      (client.convertEach manifest directory formats world).2.IsPlain := by
  induction formats generalizing world with
  | nil => exact ⟨⟨by simp [convertEach], by simp [convertEach]⟩, by simp [convertEach], hworld⟩
  | cons format formats ih =>
    have hsaved := client.convertAndSave_givesPlain hworld manifest h format
    unfold convertEach
    dsimp only
    generalize client.convertAndSave world manifest directory format = saved at hsaved
    obtain ⟨result, later⟩ := saved
    obtain ⟨hreport, hlines, hlast⟩ := ih (isPlain_noteResult hsaved.world format result)
    exact ⟨hreport.withResult format hsaved,
      List.forall_mem_append.mpr ⟨isPlain_resultLines format hsaved, hlines⟩, hlast⟩

theorem runBatch_givesPlain (hworld : world.IsPlain) (manifest : Manifest) {directory : String}
    (h : EscapeFree directory) :
    GivesPlain (fun results => results.1.IsPlain ∧ ∀ line ∈ results.2, line.IsPlain)
      (client.runBatch world manifest directory) := by
  have hensured := hworld.files.created (world.files.ensureDirectory_created directory)
  unfold runBatch
  generalize world.files.ensureDirectory directory = ensured at hensured
  obtain ⟨fault?, files⟩ := ensured
  cases fault? with
  | some fault => exact .failure (escapeFree_message_file h fault) ⟨hworld.answers, hensured⟩
  | none =>
    have hprepared : World.IsPlain { world with files } := ⟨hworld.answers, hensured⟩
    have heach := client.convertEach_isPlain manifest h Format.all hprepared
    dsimp only
    generalize client.convertEach manifest directory Format.all { world with files } = outcome
      at heach
    obtain ⟨results, later⟩ := outcome
    exact .ok ⟨heach.1, heach.2.1⟩ heach.2.2

theorem tryBatch_givesPlain (hworld : world.IsPlain) (manifest : Manifest) {directory : String}
    (h : EscapeFree directory) :
    GivesPlain (fun _ => True) (client.tryBatch world manifest directory) := by
  have hrun := client.runBatch_givesPlain hworld manifest h
  unfold tryBatch
  generalize client.runBatch world manifest directory = outcome at hrun
  obtain ⟨result, later⟩ := outcome
  exact hrun.map fun _ _ => trivial

end Client

/-! ## Lenient operations -/

/-- An operation gives something with a property, says plain lines and leaves plain
surroundings. -/
structure SaysPlain {α : Type} (P : α → Prop) (outcome : Outcome α × World) : Prop where
  value : P outcome.1.value
  lines : ∀ line ∈ outcome.1.lines, line.IsPlain
  world : outcome.2.IsPlain

namespace Client

variable (client : Client) {world : World}

theorem orReport_saysPlain {α : Type} {P : α → Prop} {outcome : Except Error α × World}
    (h : GivesPlain P outcome) {words : String} (hwords : EscapeFree words)
    {substitute : Error → α} (hsubstitute : ∀ error, EscapeFree error.message → P (substitute error)) :
    SaysPlain P (orReport words substitute outcome) := by
  obtain ⟨result, later⟩ := outcome
  cases result with
  | ok value => exact ⟨h.value value rfl, by simp [orReport], h.world⟩
  | error error =>
    have hmessage := h.error.of_error
    have hline : (StatusLine.failure (words ++ error.message)).IsPlain :=
      escapeFree_append.mpr ⟨hwords, hmessage⟩
    exact ⟨hsubstitute error hmessage, List.forall_mem_singleton.mpr hline, h.world.note _ _ _⟩

theorem health_saysPlain (hworld : world.IsPlain) :
    SaysPlain (fun _ => True) (client.health world) := by
  have htry := client.tryHealth_givesPlain hworld
  unfold health
  split
  · rename_i later heq
    rw [heq] at htry
    exact ⟨trivial, by simp, htry.world⟩
  · rename_i error later heq
    rw [heq] at htry
    exact ⟨trivial, by simp, htry.world.note _ _ _⟩

theorem load_saysPlain (hworld : world.IsPlain) {source : String} (h : (Source.ofText source).IsPlain) :
    SaysPlain (fun _ => True) (client.load world source) :=
  orReport_saysPlain (client.tryLoad_givesPlain hworld h) (.of_chars (by decide))
    fun _ _ => trivial

theorem page_saysPlain (hworld : world.IsPlain) (url : String) :
    SaysPlain (fun _ => True) (client.page world url) :=
  orReport_saysPlain (client.tryPage_givesPlain hworld url) (.of_chars (by decide))
    fun _ _ => trivial

/-- Nothing is said of what is converted, but it holds plain texts unless it is empty. -/
theorem convert_saysPlain (hworld : world.IsPlain) (manifest : Manifest) (format : Format) :
    SaysPlain (fun text => text = "" ∨ Text.HoldsPlain text)
      (client.convert world manifest format) := by
  have htry := client.tryConvert_givesPlain hworld manifest format
  have hgives : GivesPlain (fun text => text = "" ∨ Text.HoldsPlain text)
      (client.tryConvert world manifest format) :=
    ⟨fun text htext => .inr (htry.value text htext), htry.error, htry.world⟩
  refine orReport_saysPlain hgives ?_ fun _ _ => .inl rfl
  simp only [escapeFree_append]
  exact ⟨⟨.of_chars (by decide), format.escapeFree_name⟩, .of_chars (by decide)⟩

theorem validate_saysPlain (hworld : world.IsPlain) (manifest : Manifest) :
    SaysPlain Validation.IsPlain (client.validate world manifest) :=
  orReport_saysPlain (client.tryValidate_givesPlain hworld manifest) (.of_chars (by decide))
    fun _ h => List.forall_mem_singleton.mpr h

theorem batch_saysPlain (hworld : world.IsPlain) (manifest : Manifest) {directory : String}
    (h : EscapeFree directory) :
    SaysPlain BatchReport.IsPlain (client.batch world manifest directory) := by
  have hrun := client.runBatch_givesPlain hworld manifest h
  unfold batch
  split
  · rename_i report lines later heq
    rw [heq] at hrun
    obtain ⟨hreport, hlines⟩ := hrun.value _ rfl
    exact ⟨hreport, hlines, hrun.world⟩
  · rename_i error later heq
    rw [heq] at hrun
    have hgives : GivesPlain BatchReport.IsPlain (.error error, later) :=
      .failure hrun.error.of_error hrun.world
    refine orReport_saysPlain hgives (.of_chars (by decide)) fun error herror => ⟨?_, ?_⟩
    · rintro entry ⟨⟩
    · intro entry hentry
      obtain ⟨format, -, rfl⟩ := List.mem_map.mp hentry
      exact herror

end Client

end PageManifest
