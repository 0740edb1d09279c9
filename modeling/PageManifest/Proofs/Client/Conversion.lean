import PageManifest.Client.Batch

/-!
# One conversion

Converting a page description into a format makes one exchange (`conversion`), and saving
the output is one write. The output is saved if and only if the exchange delivers a text
(`Delivers`) and the text can be written (`convertAndSave_eq_ok_iff`); otherwise the first
step that fails gives the error (`Fails`, `fails_of_convertAndSave`).
-/

namespace PageManifest.Client

/-! ## Exchanges -/

/-- An exchange only notes itself in the log, apart from what it does to the network. -/
theorem exchange_world (client : Client) (world : World) (method : Http.Method) (path : String)
    (body : Option String) :
    (client.exchange world method path body).2 =
      { world.note .debug .client (method.name ++ " " ++ (client.baseUrl ++ path)) with
        network :=
          (world.network.exchange method (client.baseUrl ++ path) body client.timeout).2 } := by
  simp only [exchange, noteRequest, World.network_note]
  split <;> rename_i hexchange <;> rw [hexchange]

theorem exchange_fst (client : Client) (world : World) (method : Http.Method) (path : String)
    (body : Option String) :
    (client.exchange world method path body).1 =
      match (world.network.exchange method (client.baseUrl ++ path) body client.timeout).1 with
      | .error failure => .error (.http failure)
      | .ok answer =>
        if answer.status.isSuccess then .ok answer
        else .error (.status answer.status (answer.text.toOption.getD "")) := by
  simp only [exchange, noteRequest, World.network_note]
  split <;> rename_i hexchange <;> rw [hexchange]

/-! ## The exchange of a conversion -/

/-- The exchange that converting into a format makes. -/
def conversion (client : Client) (manifest : Manifest) (format : Format) (network : Http.Network) :
    Except Http.Failure Http.Answer × Http.Network :=
  network.exchange .post (client.baseUrl ++ format.endpoint) (some (conversionBody manifest))
    client.timeout

/-- An exchange delivers a text: its last answer is one of success whose body comes to its
end and is not empty. -/
def Delivers (outcome : Except Http.Failure Http.Answer) (text : String) : Prop :=
  ∃ answer, outcome = .ok answer ∧ answer.status.isSuccess = true ∧ answer.text = .ok text ∧
    text ≠ ""

/-- Why the output of a format is not saved: there is no answer, or none of success, or its
body breaks off, or it is empty, or it cannot be written. -/
inductive Fails (files : FileTree) (path : String) (format : Format)
    (outcome : Except Http.Failure Http.Answer) : Error → Prop
  | noAnswer {failure : Http.Failure} (h : outcome = .error failure) :
      Fails files path format outcome (.http failure)
  | noSuccess {answer : Http.Answer} (h : outcome = .ok answer)
      (hstatus : answer.status.isSuccess = false) :
      Fails files path format outcome (.status answer.status (answer.text.toOption.getD ""))
  | brokenBody {answer : Http.Answer} {failure : Http.Failure} (h : outcome = .ok answer)
      (hstatus : answer.status.isSuccess = true) (hbody : answer.text = .error failure) :
      Fails files path format outcome (.http failure)
  | empty {answer : Http.Answer} (h : outcome = .ok answer)
      (hstatus : answer.status.isSuccess = true) (hbody : answer.text = .ok "") :
      Fails files path format outcome (.emptyOutput format)
  | unwritten {text : String} {fault : FileFault} (h : Delivers outcome text)
      (hwrite : files.writeText path text = .error fault) :
      Fails files path format outcome (.file path fault)

theorem Delivers.eq {outcome : Except Http.Failure Http.Answer} {text other : String}
    (h : Delivers outcome text) (h' : Delivers outcome other) : text = other := by
  obtain ⟨answer, houtcome, _, htext, _⟩ := h
  obtain ⟨answer', houtcome', _, htext', _⟩ := h'
  cases houtcome.symm.trans houtcome'
  exact Except.ok.inj (htext.symm.trans htext')

/-- What is delivered and written is no failure. -/
theorem not_fails_of_delivers {files written : FileTree} {path text : String} {format : Format}
    {outcome : Except Http.Failure Http.Answer} {error : Error} (h : Delivers outcome text)
    (hwrite : files.writeText path text = .ok written) :
    ¬ Fails files path format outcome error := by
  intro hfails
  obtain ⟨answer, houtcome, hsuccess, htext, hne⟩ := id h
  cases hfails with
  | noAnswer hother => cases houtcome.symm.trans hother
  | noSuccess hother hstatus =>
    cases houtcome.symm.trans hother
    cases hsuccess.symm.trans hstatus
  | brokenBody hother _ hbody =>
    cases houtcome.symm.trans hother
    cases htext.symm.trans hbody
  | empty hother _ hbody =>
    cases houtcome.symm.trans hother
    exact hne (Except.ok.inj (htext.symm.trans hbody))
  | unwritten hother hfault =>
    cases h.eq hother
    cases hwrite.symm.trans hfault

/-! ## Converting and saving -/

variable (client : Client) (world : World) (manifest : Manifest) (directory : String)
  (format : Format)

theorem askFor_fst (path body : String) :
    (client.askFor world path body).1 =
      (client.exchange world .post path (some body)).1.bind answerText := by
  unfold askFor
  generalize client.exchange world .post path (some body) = outcome
  rfl

theorem askFor_snd (path body : String) :
    (client.askFor world path body).2 = (client.exchange world .post path (some body)).2 := by
  unfold askFor
  generalize client.exchange world .post path (some body) = outcome
  rfl

theorem tryConvert_snd :
    (client.tryConvert world manifest format).2 =
      { world.note .debug .client
          (Http.Method.post.name ++ " " ++ (client.baseUrl ++ format.endpoint)) with
        network := (client.conversion manifest format world.network).2 } := by
  rw [tryConvert, askFor_snd, exchange_world, conversion]

/-- The text of a conversion is the text of an answer of success. -/
theorem tryConvert_cases :
    (∃ answer text, (client.conversion manifest format world.network).1 = .ok answer ∧
      answer.status.isSuccess = true ∧ answer.text = .ok text ∧
      (client.tryConvert world manifest format).1 = .ok text) ∨
    ∃ error, (client.tryConvert world manifest format).1 = .error error ∧
      ∀ files path, Fails files path format (client.conversion manifest format world.network).1
        error := by
  rw [tryConvert, askFor_fst, exchange_fst, ← conversion]
  cases houtcome : (client.conversion manifest format world.network).1 with
  | error failure => exact Or.inr ⟨_, rfl, fun files path => .noAnswer rfl⟩
  | ok answer =>
    dsimp only
    cases hstatus : answer.status.isSuccess with
    | false => exact Or.inr ⟨_, rfl, fun files path => .noSuccess rfl hstatus⟩
    | true =>
      have hbind : (Except.ok answer).bind answerText = answerText answer := rfl
      rw [if_pos rfl, hbind, answerText]
      cases htext : answer.text with
      | ok text => exact Or.inl ⟨answer, text, rfl, hstatus, htext, rfl⟩
      | error failure => exact Or.inr ⟨_, rfl, fun files path => .brokenBody rfl hstatus htext⟩

theorem tryConvert_network :
    (client.tryConvert world manifest format).2.network =
      (client.conversion manifest format world.network).2 := by
  rw [tryConvert_snd]

theorem tryConvert_files : (client.tryConvert world manifest format).2.files = world.files := by
  rw [tryConvert_snd, World.files_note]

theorem convertAndSave_of_error {error : Error} {later : World}
    (h : client.tryConvert world manifest format = (.error error, later)) :
    client.convertAndSave world manifest directory format = (.error error, later) := by
  rw [convertAndSave, h]

theorem convertAndSave_of_empty {later : World}
    (h : client.tryConvert world manifest format = (.ok "", later)) :
    client.convertAndSave world manifest directory format =
      (.error (.emptyOutput format), later) := by
  rw [convertAndSave, h]
  rfl

theorem convertAndSave_of_text {text : String} {later : World} (hne : text ≠ "")
    (h : client.tryConvert world manifest format = (.ok text, later)) :
    client.convertAndSave world manifest directory format =
      saveOutput later directory format text := by
  rw [convertAndSave, h]
  simp [hne]

theorem saveOutput_of_ok {text : String} {files : FileTree}
    (h : world.files.writeText (outputPath directory format) text = .ok files) :
    saveOutput world directory format text =
      (.ok (outputPath directory format), { world with files }) := by
  unfold saveOutput
  dsimp only
  rw [h]

theorem saveOutput_of_error {text : String} {fault : FileFault}
    (h : world.files.writeText (outputPath directory format) text = .error fault) :
    saveOutput world directory format text =
      (.error (.file (outputPath directory format) fault), world) := by
  unfold saveOutput
  dsimp only
  rw [h]

theorem exists_saveOutput_snd (text : String) :
    ∃ files, (saveOutput world directory format text).2 = { world with files } := by
  unfold saveOutput
  dsimp only
  split
  · exact ⟨_, rfl⟩
  · exact ⟨world.files, rfl⟩

/-- Saving changes files only. -/
theorem exists_convertAndSave_snd :
    ∃ files, (client.convertAndSave world manifest directory format).2 =
      { (client.tryConvert world manifest format).2 with files } := by
  generalize hconvert : client.tryConvert world manifest format = converted
  obtain ⟨result, later⟩ := converted
  cases result with
  | error error =>
    rw [client.convertAndSave_of_error world manifest directory format hconvert]
    exact ⟨later.files, rfl⟩
  | ok text =>
    by_cases hempty : text = ""
    · subst hempty
      rw [client.convertAndSave_of_empty world manifest directory format hconvert]
      exact ⟨later.files, rfl⟩
    · rw [client.convertAndSave_of_text world manifest directory format hempty hconvert]
      exact exists_saveOutput_snd later directory format text

theorem convertAndSave_network :
    (client.convertAndSave world manifest directory format).2.network =
      (client.conversion manifest format world.network).2 := by
  obtain ⟨files, hfiles⟩ := client.exists_convertAndSave_snd world manifest directory format
  rw [hfiles, ← client.tryConvert_network world manifest format]

/-- Everything that converting and saving can come to. -/
inductive SaveCases (client : Client) (world : World) (manifest : Manifest) (directory : String)
    (format : Format) : Prop
  | saved (text : String)
      (hdelivers : Delivers (client.conversion manifest format world.network).1 text)
      (hwrite : world.files.writeText (outputPath directory format) text =
        .ok (client.convertAndSave world manifest directory format).2.files)
      (hresult : (client.convertAndSave world manifest directory format).1 =
        .ok (outputPath directory format))
  | failed (error : Error)
      (hfails : Fails world.files (outputPath directory format) format
        (client.conversion manifest format world.network).1 error)
      (hfiles : (client.convertAndSave world manifest directory format).2.files = world.files)
      (hresult : (client.convertAndSave world manifest directory format).1 = .error error)

theorem saveCases : SaveCases client world manifest directory format := by
  have hfiles := client.tryConvert_files world manifest format
  have hcases := client.tryConvert_cases world manifest format
  generalize hconvert : client.tryConvert world manifest format = converted at hfiles hcases
  obtain ⟨result, later⟩ := converted
  dsimp only at hfiles hcases
  rcases hcases with ⟨answer, text, houtcome, hstatus, htext, rfl⟩ | ⟨error, rfl, hfails⟩
  · by_cases hempty : text = ""
    · subst hempty
      have hsave := client.convertAndSave_of_empty world manifest directory format hconvert
      exact .failed _ (.empty houtcome hstatus htext) (by rw [hsave, hfiles]) (by rw [hsave])
    · have hsave := client.convertAndSave_of_text world manifest directory format hempty hconvert
      have hdelivers : Delivers (client.conversion manifest format world.network).1 text :=
        ⟨answer, houtcome, hstatus, htext, hempty⟩
      cases hwrite : world.files.writeText (outputPath directory format) text with
      | ok files =>
        rw [saveOutput_of_ok later directory format (hfiles ▸ hwrite)] at hsave
        exact .saved text hdelivers (by rw [hsave, hwrite]) (by rw [hsave])
      | error fault =>
        rw [saveOutput_of_error later directory format (hfiles ▸ hwrite)] at hsave
        exact .failed _ (.unwritten hdelivers hwrite) (by rw [hsave, hfiles]) (by rw [hsave])
  · have hsave := client.convertAndSave_of_error world manifest directory format hconvert
    exact .failed error (hfails _ _) (by rw [hsave, hfiles]) (by rw [hsave])

/-- The output is saved if and only if a text is delivered that can be written. -/
theorem convertAndSave_eq_ok_iff (path : String) :
    (client.convertAndSave world manifest directory format).1 = .ok path ↔
      path = outputPath directory format ∧
        ∃ text files, Delivers (client.conversion manifest format world.network).1 text ∧
          world.files.writeText (outputPath directory format) text = .ok files := by
  cases client.saveCases world manifest directory format with
  | saved text hdelivers hwrite hresult =>
    rw [hresult, Except.ok.injEq]
    exact ⟨fun h => ⟨h.symm, text, _, hdelivers, hwrite⟩, fun h => h.1.symm⟩
  | failed error hfails _ hresult =>
    rw [hresult]
    refine ⟨(fun h => by cases h), ?_⟩
    rintro ⟨_, text, files, hdelivers, hwrite⟩
    exact absurd hfails (not_fails_of_delivers hdelivers hwrite)

theorem fails_of_convertAndSave {error : Error}
    (h : (client.convertAndSave world manifest directory format).1 = .error error) :
    Fails world.files (outputPath directory format) format
      (client.conversion manifest format world.network).1 error := by
  cases client.saveCases world manifest directory format with
  | saved text _ _ hresult => cases hresult.symm.trans h
  | failed other hfails _ hresult =>
    cases hresult.symm.trans h
    exact hfails

end PageManifest.Client
