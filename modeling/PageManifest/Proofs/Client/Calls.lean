import PageManifest.Demo
import PageManifest.Proofs.Client.Batch
import PageManifest.Proofs.Http.Exchanges

/-!
# Calls

A call is what one exchange asks a server for. Every strict operation makes one call at most,
and its result is what it makes of the answer (`success`, `successText`); a lenient one makes
the same calls. Of servers that lead nowhere a call makes one request at most (`sent`), so that
calls made one after the other make theirs one after the other (`behindCalls_eq`).
-/

namespace PageManifest

namespace Client

/-! ## Calls -/

/-- What a client asks its server for. -/
structure Call where
  method : Http.Method
  path : String
  body : Option String

namespace Call

/-- Is the server there? -/
def health : Call := ⟨.get, healthPath, none⟩

/-- Make a page description of a page. -/
def page (url : String) : Call := ⟨.post, pagePath, some (pageBody url)⟩

/-- Check a page description. -/
def validation (manifest : Manifest) : Call := ⟨.post, validationPath, some manifest.toJson⟩

/-- Convert a page description into a format. -/
def conversion (manifest : Manifest) (format : Format) : Call :=
  ⟨.post, format.endpoint, some (conversionBody manifest)⟩

end Call

/-- Makes a call by one exchange. -/
def call (client : Client) (network : Http.Network) (call : Call) :
    Except Http.Failure Http.Answer × Http.Network :=
  network.exchange call.method (client.baseUrl ++ call.path) call.body client.timeout

/-- The network behind some calls, made one after the other. -/
def behindCalls (client : Client) (network : Http.Network) (calls : List Call) : Http.Network :=
  calls.foldl (fun network one => (client.call network one).2) network

/-- The answer of success to a call, or the error that there is none. -/
def success : Except Http.Failure Http.Answer → Except Error Http.Answer
  | .error failure => .error (.http failure)
  | .ok answer =>
    if answer.status.isSuccess then .ok answer
    else .error (.status answer.status (answer.text.toOption.getD ""))

/-- The whole text of the answer of success to a call. -/
def successText (outcome : Except Http.Failure Http.Answer) : Except Error String :=
  (success outcome).bind answerText

variable (client : Client) (world : World)

theorem behindCalls_append (network : Http.Network) (first second : List Call) :
    client.behindCalls network (first ++ second) =
      client.behindCalls (client.behindCalls network first) second :=
  List.foldl_append ..

theorem behindCalls_concat (network : Http.Network) (calls : List Call) (one : Call) :
    client.behindCalls network (calls ++ [one]) =
      (client.call (client.behindCalls network calls) one).2 := by
  rw [behindCalls, List.foldl_append, List.foldl_cons, List.foldl_nil, behindCalls]

theorem behindCalls_conversions (network : Http.Network) (manifest : Manifest)
    (formats : List Format) :
    client.behindCalls network (formats.map (.conversion manifest)) =
      client.networkBehind manifest network formats := by
  induction formats generalizing network with
  | nil => rfl
  | cons format formats ih =>
    rw [List.map_cons, behindCalls, List.foldl_cons, ← behindCalls, ih, networkBehind,
      networkBehind, List.foldl_cons, call, Call.conversion, conversion]

/-! ## Requests of calls -/

/-- The requests that a call makes of servers that lead nowhere. A client that does not wait at all
makes none. -/
def sent (client : Client) (obstacle : Url.Address → Option Http.Obstacle) (one : Call) :
    List Http.Request :=
  match Http.Network.addressOf (client.baseUrl ++ one.path) with
  | .error _ => []
  | .ok address =>
    if client.timeout ≠ some 0 ∧ (obstacle address).isNone then
      [Http.Network.firstRequest one.method address one.body]
    else []

theorem call_snd {network : Http.Network} {one : Call}
    (hnowhere : ∀ address, Http.Network.addressOf (client.baseUrl ++ one.path) = .ok address →
      Http.Network.LeadsNowhere network.script address.target) :
    (client.call network one).2 =
      { network with requests := network.requests ++ client.sent network.obstacle one } := by
  unfold call sent
  cases haddress : Http.Network.addressOf (client.baseUrl ++ one.path) with
  | error failure =>
    rw [network.exchange_of_error _ _ _ haddress]
    simp
  | ok address =>
    by_cases htimeout : client.timeout = some 0
    · rw [htimeout, network.exchange_of_no_time _ _ haddress]
      simp
    · rw [Http.Network.exchange_of_leadsNowhere haddress (hnowhere address haddress) _ _ htimeout,
        Http.Network.send_snd]
      simp only [ne_eq, htimeout, not_false_eq_true, true_and]

theorem behindCalls_eq {network : Http.Network} {calls : List Call}
    (hnowhere : ∀ one ∈ calls, ∀ address,
      Http.Network.addressOf (client.baseUrl ++ one.path) = .ok address →
        Http.Network.LeadsNowhere network.script address.target) :
    client.behindCalls network calls =
      { network with
        requests := network.requests ++ calls.flatMap (client.sent network.obstacle) } := by
  induction calls generalizing network with
  | nil => simp [behindCalls]
  | cons one calls ih =>
    rw [List.forall_mem_cons] at hnowhere
    rw [behindCalls, List.foldl_cons, ← behindCalls, client.call_snd hnowhere.1, ih]
    · simp
    · exact hnowhere.2

/-! ## Strict operations as calls -/

/-- The answer to a request is that to a call. -/
theorem exchange_call (one : Call) :
    (client.exchange world one.method one.path one.body).1 =
        success (client.call world.network one).1 ∧
      (client.exchange world one.method one.path one.body).2.network =
        (client.call world.network one).2 ∧
      (client.exchange world one.method one.path one.body).2.files = world.files := by
  rw [exchange_fst, exchange_world, call]
  generalize world.network.exchange one.method (client.baseUrl ++ one.path) one.body = outcome
  refine ⟨?_, rfl, rfl⟩
  cases outcome.1 with
  | error failure => rfl
  | ok answer => rfl

theorem askFor_call (path body : String) :
    (client.askFor world path body).1 =
        successText (client.call world.network ⟨.post, path, some body⟩).1 ∧
      (client.askFor world path body).2.network =
        (client.call world.network ⟨.post, path, some body⟩).2 ∧
      (client.askFor world path body).2.files = world.files := by
  obtain ⟨hanswer, hnetwork, hfiles⟩ := client.exchange_call world ⟨.post, path, some body⟩
  rw [askFor_fst, askFor_snd, hanswer, hnetwork, hfiles]
  exact ⟨rfl, rfl, rfl⟩

theorem tryHealth_call :
    (client.tryHealth world).1 = (success (client.call world.network .health).1).map (fun _ => ()) ∧
      (client.tryHealth world).2.network = (client.call world.network .health).2 ∧
      (client.tryHealth world).2.files = world.files := by
  have h := client.exchange_call world .health
  unfold tryHealth
  dsimp only [Call.health] at h
  generalize client.exchange world .get healthPath none = outcome at h ⊢
  obtain ⟨hanswer, hworld⟩ := h
  dsimp only
  rw [hanswer]
  exact ⟨rfl, hworld⟩

theorem tryPage_call (url : String) :
    (client.tryPage world url).1 =
        (successText (client.call world.network (.page url)).1).bind Manifest.ofJson ∧
      (client.tryPage world url).2.network = (client.call world.network (.page url)).2 ∧
      (client.tryPage world url).2.files = world.files := by
  have h := client.askFor_call world pagePath (pageBody url)
  unfold tryPage Call.page
  generalize client.askFor world pagePath (pageBody url) = outcome at h ⊢
  obtain ⟨hanswer, hworld⟩ := h
  dsimp only
  rw [hanswer]
  exact ⟨rfl, hworld⟩

theorem tryValidate_call (manifest : Manifest) :
    (client.tryValidate world manifest).1 =
        (successText (client.call world.network (.validation manifest)).1).bind verdict ∧
      (client.tryValidate world manifest).2.network =
        (client.call world.network (.validation manifest)).2 ∧
      (client.tryValidate world manifest).2.files = world.files := by
  have h := client.askFor_call world validationPath manifest.toJson
  unfold tryValidate Call.validation
  generalize client.askFor world validationPath manifest.toJson = outcome at h ⊢
  obtain ⟨hanswer, hworld⟩ := h
  dsimp only
  rw [hanswer]
  exact ⟨rfl, hworld⟩

theorem tryConvert_call (manifest : Manifest) (format : Format) :
    (client.tryConvert world manifest format).1 =
        successText (client.call world.network (.conversion manifest format)).1 ∧
      (client.tryConvert world manifest format).2.network =
        (client.call world.network (.conversion manifest format)).2 ∧
      (client.tryConvert world manifest format).2.files = world.files := by
  have h := client.askFor_call world format.endpoint (conversionBody manifest)
  unfold tryConvert Call.conversion
  exact h

/-- A file is read without a call. -/
theorem tryLoad_of_file {path : String} (h : Source.startsWithScheme path = false) :
    (client.tryLoad world path).1 = Manifest.ofYamlFile world.files path ∧
      (client.tryLoad world path).2.network = world.network ∧
      (client.tryLoad world path).2.files = world.files := by
  have hsource : Source.ofText path = .file path := by
    rw [Source.ofText, h]
    rfl
  unfold tryLoad
  rw [hsource]
  exact ⟨rfl, rfl, rfl⟩

/-- Loading from an address is having a page description made of that page. -/
theorem tryLoad_of_scheme {source : String} (h : Source.startsWithScheme source = true) :
    client.tryLoad world source = client.tryPage world source := by
  have hsource : Source.ofText source = .url source := by
    rw [Source.ofText, h]
    rfl
  rw [tryLoad, hsource]

theorem tryLoad_files (source : String) :
    (client.tryLoad world source).2.files = world.files := by
  unfold tryLoad
  cases Source.ofText source with
  | url address =>
    dsimp only
    exact (client.tryPage_call world address).2.2
  | file path => rfl

theorem tryBatch_of_ok {manifest : Manifest} {directory : String} {report : BatchReport}
    {later : World} (h : client.tryBatch world manifest directory = (.ok report, later)) :
    world.files.CanEnsure directory ∧
      later.network =
        client.behindCalls world.network (Format.all.map (.conversion manifest)) := by
  by_cases hdirectory : world.files.CanEnsure directory
  · rw [client.tryBatch_of_canEnsure world manifest directory hdirectory, Prod.mk.injEq] at h
    rw [behindCalls_conversions, ← h.2, worldAfter, foldl_worldBehind_network]
    exact ⟨hdirectory, rfl⟩
  · obtain ⟨fault, hbatch⟩ :=
      client.tryBatch_of_not_canEnsure world manifest directory hdirectory
    cases hbatch.symm.trans h

/-- A batch without a directory makes no call. -/
theorem tryBatch_of_error {manifest : Manifest} {directory : String} {error : Error}
    {later : World} (h : client.tryBatch world manifest directory = (.error error, later)) :
    ¬ world.files.CanEnsure directory ∧ later.network = world.network := by
  by_cases hdirectory : world.files.CanEnsure directory
  · rw [client.tryBatch_of_canEnsure world manifest directory hdirectory] at h
    cases h
  · obtain ⟨fault, hbatch⟩ :=
      client.tryBatch_of_not_canEnsure world manifest directory hdirectory
    cases hbatch.symm.trans h
    exact ⟨hdirectory, rfl⟩

/-! ## Lenient operations -/

/-- A report changes the log only, and gives a substitute for an error. -/
theorem orReport_eq {α : Type} (words : String) (substitute : Error → α)
    (outcome : Except Error α × World) :
    (orReport words substitute outcome).1.value =
        (match outcome.1 with
          | .ok value => value
          | .error error => substitute error) ∧
      (orReport words substitute outcome).2.network = outcome.2.network ∧
      (orReport words substitute outcome).2.files = outcome.2.files := by
  obtain ⟨result, later⟩ := outcome
  cases result with
  | ok value => exact ⟨rfl, rfl, rfl⟩
  | error error => exact ⟨rfl, rfl, rfl⟩

/-- The server is there if its answer is one of success. -/
theorem health_call :
    ((client.health world).1.value = true ↔
        ∃ answer, success (client.call world.network .health).1 = .ok answer) ∧
      (client.health world).2.network = (client.call world.network .health).2 ∧
      (client.health world).2.files = world.files := by
  obtain ⟨hanswer, hnetwork, hfiles⟩ := client.tryHealth_call world
  rw [← hnetwork, ← hfiles]
  unfold health
  generalize client.tryHealth world = outcome at hanswer ⊢
  obtain ⟨result, later⟩ := outcome
  dsimp only at hanswer
  subst hanswer
  cases hsuccess : success (client.call world.network .health).1 with
  | ok answer => exact ⟨⟨fun _ => ⟨answer, rfl⟩, fun _ => rfl⟩, rfl, rfl⟩
  | error error =>
    refine ⟨⟨(fun h => by cases h), ?_⟩, rfl, rfl⟩
    rintro ⟨answer, h⟩
    cases h

/-- A lenient batch does what the strict one does, and gives a report for its error. -/
theorem batch_cases (manifest : Manifest) (directory : String) :
    (∃ report later, client.tryBatch world manifest directory = (.ok report, later) ∧
      (client.batch world manifest directory).1.value = report ∧
      (client.batch world manifest directory).2 = later) ∨
    ∃ error later, client.tryBatch world manifest directory = (.error error, later) ∧
      (client.batch world manifest directory).1.value = .allFailed error.message ∧
      (client.batch world manifest directory).2.network = later.network ∧
      (client.batch world manifest directory).2.files = later.files := by
  unfold tryBatch batch
  generalize client.runBatch world manifest directory = outcome
  obtain ⟨result, later⟩ := outcome
  cases result with
  | ok results => exact Or.inl ⟨results.1, later, rfl, rfl, rfl⟩
  | error error => exact Or.inr ⟨error, later, rfl, rfl, rfl, rfl⟩

end Client

end PageManifest
