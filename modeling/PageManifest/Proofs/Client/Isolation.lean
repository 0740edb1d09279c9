import PageManifest.Proofs.Client.BatchFiles
import PageManifest.Proofs.Client.Calls
import PageManifest.Proofs.FileTree.Alike
import PageManifest.Proofs.Http.Exchanges

/-!
# Formats do not disturb each other

Two worlds are twins for a format (`Twins`) if its server answers alike in both and they have the
same files, except for the outputs of the other formats. Converting keeps twins twins, whatever
becomes of the other formats, and a format fares alike in both, so that a batch gives it the same
outcome (`tryBatch_isolated`). This takes a directory that is not reached through the output of
another format, which can happen only on a path that leads up again (`clears_of_not_up`).
-/

namespace PageManifest

namespace Client

open PageManifest.FileTree PageManifest.Path Http

/-! ## Twins -/

/-- The place of the output of some other format below a directory. -/
def IsOther (format : Format) (base place : Place) : Prop :=
  ∃ other, other ≠ format ∧ place = outputPlace base other

/-- Two servers that lead nowhere when they are asked to convert, and answer alike if it is into
a format. -/
structure SameServer (client : Client) (format : Format) (network twin : Network) : Prop where
  obstacle_eq : twin.obstacle = network.obstacle
  leadsNowhere : ∀ format address,
    Network.addressOf (client.baseUrl ++ Format.endpoint format) = .ok address →
      Network.LeadsNowhere network.script address.target ∧
        Network.LeadsNowhere twin.script address.target
  reply_eq : ∀ address, Network.addressOf (client.baseUrl ++ format.endpoint) = .ok address →
    ∀ earlier request, request.target = address.target →
      Network.replyAfter twin.script earlier request =
        Network.replyAfter network.script earlier request
  count_eq : ∀ address, Network.addressOf (client.baseUrl ++ format.endpoint) = .ok address →
    twin.requests.countP (·.target == address.target) =
      network.requests.countP (·.target == address.target)

/-- Two worlds that differ, as far as a format is concerned, in what becomes of the others. -/
structure Twins (client : Client) (format : Format) (base : Place) (world twin : World) :
    Prop where
  server : SameServer client format world.network twin.network
  files : Alike (IsOther format base) world.files twin.files

variable (client : Client) (manifest : Manifest) {format : Format} {directory : String}
  {base : Place} {world twin : World}

/-! ## Requests -/

/-- The requests that converting into a format makes of a server that leads nowhere. A client that
does not wait at all makes none. -/
def conversionRequests (obstacle : Url.Address → Option Obstacle) (format : Format) :
    List Request :=
  match Network.addressOf (client.baseUrl ++ format.endpoint) with
  | .error _ => []
  | .ok address =>
    if client.timeout ≠ some 0 ∧ (obstacle address).isNone then
      [Network.firstRequest .post address (some (conversionBody manifest))]
    else []

theorem conversion_snd {network : Network} {format : Format}
    (hnowhere : ∀ address,
      Network.addressOf (client.baseUrl ++ format.endpoint) = .ok address →
        Network.LeadsNowhere network.script address.target) :
    (client.conversion manifest format network).2 =
      { network with
        requests := network.requests ++
          client.conversionRequests manifest network.obstacle format } :=
  @call_snd client network (.conversion manifest format) hnowhere

/-- Formats make their requests one after the other. -/
theorem networkBehind_eq {network : Network}
    (hnowhere : ∀ format address,
      Network.addressOf (client.baseUrl ++ Format.endpoint format) = .ok address →
        Network.LeadsNowhere network.script address.target)
    (formats : List Format) :
    client.networkBehind manifest network formats =
      { network with
        requests := network.requests ++
          formats.flatMap (client.conversionRequests manifest network.obstacle) } := by
  have hcalls : ∀ one ∈ formats.map (Call.conversion manifest), ∀ address,
      Network.addressOf (client.baseUrl ++ one.path) = .ok address →
        Network.LeadsNowhere network.script address.target := by
    rw [List.forall_mem_map]
    exact fun format _ => hnowhere format
  rw [← behindCalls_conversions, client.behindCalls_eq hcalls, List.flatMap_map]
  rfl

namespace SameServer

variable {client} {network twin : Network}

theorem behind (h : SameServer client format network twin) (other : Format) :
    SameServer client format (client.conversion manifest other network).2
      (client.conversion manifest other twin).2 := by
  rw [client.conversion_snd manifest fun address haddress =>
      (h.leadsNowhere other address haddress).1,
    client.conversion_snd manifest fun address haddress =>
      (h.leadsNowhere other address haddress).2, h.obstacle_eq]
  refine ⟨rfl, h.leadsNowhere, h.reply_eq, ?_⟩
  intro address haddress
  dsimp only
  rw [List.countP_append, List.countP_append, h.count_eq address haddress]

theorem conversion_fst_eq (h : SameServer client format network twin) :
    (client.conversion manifest format twin).1 =
      (client.conversion manifest format network).1 := by
  unfold conversion
  cases haddress : Network.addressOf (client.baseUrl ++ format.endpoint) with
  | error failure =>
    rw [network.exchange_of_error _ _ _ haddress, twin.exchange_of_error _ _ _ haddress]
  | ok address =>
    obtain ⟨hnowhere, hnowhere'⟩ := h.leadsNowhere format address haddress
    by_cases htimeout : client.timeout = some 0
    · rw [htimeout, network.exchange_of_no_time _ _ haddress,
        twin.exchange_of_no_time _ _ haddress]
    rw [Network.exchange_of_leadsNowhere haddress hnowhere _ _ htimeout,
      Network.exchange_of_leadsNowhere haddress hnowhere' _ _ htimeout]
    refine Network.send_fst_congr h.obstacle_eq ?_
    have hcount := h.count_eq address haddress
    unfold Network.reply
    rw [h.reply_eq address haddress _ _ rfl]
    dsimp only [Network.firstRequest]
    rw [hcount]

end SameServer

/-! ## One format -/

/-- Without a way up, the way to the directory does not reach as deep as an output. -/
theorem clears_of_not_up {tree : FileTree} (hup : ".." ∉ bareSteps directory) :
    Clears (IsOther format (placeOf tree directory)) tree directory := by
  rintro front ⟨behind, hparts⟩ ⟨other, -, hplace⟩
  rw [← hparts, List.mem_append, not_or] at hup
  have hshort := (prefix_walk hup.2 (walk (origin tree.workingDirectory directory) front)).length_le
  rw [← walk_append, hparts, ← placeOf, hplace, outputPlace, List.length_append,
    List.length_singleton] at hshort
  omega

theorem clears_outputPath {tree : FileTree}
    (hclears : Clears (IsOther format base) tree directory)
    (hbase : placeOf tree directory = base) :
    Clears (IsOther format base) tree (outputPath directory format) := by
  have hname := format.isFileName_outputFile
  rw [Clears, outputPath, hname.bareSteps_join, hname.origin_join]
  refine hclears.concat ?_
  rw [← placeOf, hbase, stepTo_name hname.isName]
  rintro ⟨other, hother, hplace⟩
  exact hother (outputPlace_injective hplace).symm

theorem saveOutput_twins (hfiles : Alike (IsOther format base) world.files twin.files)
    (hclears : Clears (IsOther format base) world.files (outputPath directory format))
    (text : String) :
    (saveOutput twin directory format text).1 = (saveOutput world directory format text).1 ∧
      Alike (IsOther format base) (saveOutput world directory format text).2.files
        (saveOutput twin directory format text).2.files := by
  have hwrite := hfiles.writeText hclears text
  unfold saveOutput
  dsimp only
  generalize world.files.writeText (outputPath directory format) text = written at hwrite ⊢
  generalize twin.files.writeText (outputPath directory format) text = written' at hwrite ⊢
  cases hwrite with
  | fails fault => exact ⟨rfl, hfiles⟩
  | done hlater => exact ⟨rfl, hlater⟩

namespace Twins

variable {client}

/-- A format is converted and saved alike in both worlds. -/
theorem convertAndSave_eq (h : Twins client format base world twin)
    (hclears : Clears (IsOther format base) world.files (outputPath directory format)) :
    (client.convertAndSave twin manifest directory format).1 =
        (client.convertAndSave world manifest directory format).1 ∧
      Alike (IsOther format base) (client.convertAndSave world manifest directory format).2.files
        (client.convertAndSave twin manifest directory format).2.files := by
  obtain ⟨hanswer, -, hkept⟩ := client.tryConvert_call world manifest format
  obtain ⟨hanswer', -, hkept'⟩ := client.tryConvert_call twin manifest format
  have hsame : (client.tryConvert twin manifest format).1 =
      (client.tryConvert world manifest format).1 := by
    rw [hanswer, hanswer']
    exact congrArg successText (h.server.conversion_fst_eq manifest)
  have hfiles := h.files
  rw [← hkept, ← hkept'] at hfiles
  rw [← hkept] at hclears
  unfold convertAndSave
  generalize client.tryConvert world manifest format = converted at *
  generalize client.tryConvert twin manifest format = converted' at *
  obtain ⟨result, later⟩ := converted
  obtain ⟨result', later'⟩ := converted'
  dsimp only at hsame hfiles hclears ⊢
  subst hsame
  cases result' with
  | error error => exact ⟨rfl, hfiles⟩
  | ok text =>
    dsimp only
    split
    · exact ⟨rfl, hfiles⟩
    · exact saveOutput_twins hfiles hclears text

/-- Twins stay twins behind any format. -/
theorem behind (h : Twins client format base world twin)
    (hready : Ready world.files directory base) (hready' : Ready twin.files directory base)
    (hclears : Clears (IsOther format base) world.files (outputPath directory format))
    (other : Format) :
    Twins client format base (client.worldBehind manifest directory world other)
      (client.worldBehind manifest directory twin other) := by
  obtain ⟨hlater, hextends, hframe⟩ := client.worldBehind_ready manifest hready other
  obtain ⟨hlater', hextends', hframe'⟩ := client.worldBehind_ready manifest hready' other
  constructor
  · rw [worldBehind_network, worldBehind_network]
    exact h.server.behind manifest other
  · by_cases hother : other = format
    · subst hother
      rw [worldBehind_files, worldBehind_files]
      exact (h.convertAndSave_eq manifest hclears).2
    · -- Only the place of the other output can change, and there the worlds may differ.
      refine ⟨?_, ?_, hlater.linkFree, hlater'.linkFree⟩
      · rw [hextends.workingDirectory_eq, hextends'.workingDirectory_eq,
          h.files.workingDirectory_eq]
      · intro place hplace
        have hne : place ≠ outputPlace base other := fun heq => hplace ⟨other, hother, heq⟩
        rw [hframe place hne, hframe' place hne, h.files.entry?_eq place hplace]

end Twins

/-! ## Batches -/

/-- Twins in which a batch can save its outputs. -/
structure ReadyTwins (client : Client) (format : Format) (directory : String) (base : Place)
    (world twin : World) : Prop where
  twins : Twins client format base world twin
  ready : Ready world.files directory base
  ready_twin : Ready twin.files directory base
  clears : Clears (IsOther format base) world.files (outputPath directory format)

namespace ReadyTwins

variable {client}

theorem behind (h : ReadyTwins client format directory base world twin) (other : Format) :
    ReadyTwins client format directory base (client.worldBehind manifest directory world other)
      (client.worldBehind manifest directory twin other) := by
  obtain ⟨hready, hextends, -⟩ := client.worldBehind_ready manifest h.ready other
  obtain ⟨hready', -, -⟩ := client.worldBehind_ready manifest h.ready_twin other
  exact ⟨h.twins.behind manifest h.ready h.ready_twin h.clears other, hready, hready',
    h.clears.congr hextends.workingDirectory_eq⟩

theorem foldl (h : ReadyTwins client format directory base world twin) (formats : List Format) :
    ReadyTwins client format directory base
      (formats.foldl (client.worldBehind manifest directory) world)
      (formats.foldl (client.worldBehind manifest directory) twin) := by
  induction formats generalizing world twin with
  | nil => exact h
  | cons other formats ih =>
    rw [List.foldl_cons, List.foldl_cons]
    exact ih (h.behind manifest other)

end ReadyTwins

theorem tryBatch_of_fault {fault : FileFault}
    (h : (world.files.ensureDirectory directory).1 = some fault) :
    client.tryBatch world manifest directory =
      (.error (.file directory fault), preparedWorld world directory) := by
  unfold tryBatch runBatch preparedWorld
  generalize world.files.ensureDirectory directory = outcome at h ⊢
  obtain ⟨fault?, files⟩ := outcome
  dsimp only at h
  subst h
  rfl

/-- What a batch does for a format is the same in two worlds. -/
structure FaresAlike (client : Client) (manifest : Manifest) (format : Format)
    (directory : String) (world twin : World)
    (outcome outcome' : Except Error BatchReport × World) : Prop where
  canEnsure_iff : twin.files.CanEnsure directory ↔ world.files.CanEnsure directory
  /-- The format is written at the same path, or it fails for the same reason; so does the batch
  if it has no directory. -/
  result_eq :
    outcome'.1.map (fun report => (report.writtenPath? format, report.failure? format)) =
      outcome.1.map (fun report => (report.writtenPath? format, report.failure? format))
  requests_eq : world.files.CanEnsure directory →
    let sent := Format.all.flatMap (client.conversionRequests manifest world.network.obstacle)
    outcome.2.network.requests = world.network.requests ++ sent ∧
      outcome'.2.network.requests = twin.network.requests ++ sent
  unasked : ¬ world.files.CanEnsure directory →
    outcome.2.network = world.network ∧ outcome'.2.network = twin.network
  isDirectory_eq : outcome'.2.files.isDirectory directory = outcome.2.files.isDirectory directory
  readBytes_eq : outcome'.2.files.readBytes (outputPath directory format) =
    outcome.2.files.readBytes (outputPath directory format)
  files : Alike (IsOther format (placeOf world.files directory)) outcome.2.files outcome'.2.files

/-- A batch treats a format alike in two worlds that are twins for it, whatever becomes of the
other formats, if the directory is not reached through the output of one of these. -/
theorem tryBatch_isolated
    (h : Twins client format (placeOf world.files directory) world twin)
    (hclears : Clears (IsOther format (placeOf world.files directory)) world.files directory) :
    FaresAlike client manifest format directory world twin
      (client.tryBatch world manifest directory) (client.tryBatch twin manifest directory) := by
  have hattempt := h.files.ensureDirectory hclears
  have hcanEnsure : twin.files.CanEnsure directory ↔ world.files.CanEnsure directory := by
    rw [← ensureDirectory_fst_eq_none_iff, ← ensureDirectory_fst_eq_none_iff, hattempt.fault_eq]
  have hstart := (ensureDirectory_created world.files directory).workingDirectory_eq
  have hprepared : Twins client format (placeOf world.files directory)
      (preparedWorld world directory) (preparedWorld twin directory) :=
    ⟨h.server, hattempt.alike⟩
  have houtput := clears_outputPath hclears rfl
  by_cases hcan : world.files.CanEnsure directory
  · obtain ⟨base, hready⟩ := exists_ready world h.files.linkFree hcan
    obtain ⟨base', hready'⟩ := exists_ready twin h.files.linkFree_other (hcanEnsure.mpr hcan)
    have hbase : placeOf world.files directory = base := by
      rw [← hready.isBase.placeOf_eq hready.linkFree, placeOf, placeOf, preparedWorld, hstart]
    have hbase' : base' = base := by
      rw [← hready'.isBase.placeOf_eq hready'.linkFree, ← hbase, placeOf, placeOf,
        hprepared.files.workingDirectory_eq, preparedWorld, hstart]
    subst hbase hbase'
    have htwins : ReadyTwins client format directory (placeOf world.files directory)
        (preparedWorld world directory) (preparedWorld twin directory) :=
      ⟨hprepared, hready, hready', houtput.congr hstart⟩
    have hafter := htwins.foldl manifest Format.all
    have hextends := (client.foldl_worldBehind_ready manifest Format.all hready).2.1
    have hlast := hextends.workingDirectory_eq.trans hstart
    rw [client.tryBatch_of_canEnsure world manifest directory hcan,
      client.tryBatch_of_canEnsure twin manifest directory (hcanEnsure.mpr hcan)]
    refine ⟨hcanEnsure, ?_, ?_, ?_, ?_, ?_, hafter.twins.files⟩
    · have hat := htwins.foldl manifest (Format.all.takeWhile (· ≠ format))
      obtain ⟨hresult, -⟩ := hat.twins.convertAndSave_eq manifest hat.clears
      have hreport := client.lookups_reportOf world manifest directory format
      have hreport' := client.lookups_reportOf twin manifest directory format
      rw [worldAt, hresult, ← worldAt] at hreport'
      simp only [Except.map, hreport, hreport']
    · intro _
      constructor
      · rw [worldAfter, foldl_worldBehind_network, client.networkBehind_eq manifest]
        · rfl
        · exact fun format address haddress => (h.server.leadsNowhere format address haddress).1
      · rw [worldAfter, foldl_worldBehind_network, client.networkBehind_eq manifest]
        · rw [← h.server.obstacle_eq]
          rfl
        · exact fun format address haddress => (h.server.leadsNowhere format address haddress).2
    · exact fun hno => absurd hcan hno
    · exact hafter.twins.files.isDirectory_eq (hclears.congr hlast)
    · exact hafter.twins.files.readBytes_eq hafter.clears
  · have hnone : (world.files.ensureDirectory directory).1 ≠ none :=
      fun hnone => hcan ((ensureDirectory_fst_eq_none_iff _ _).mp hnone)
    obtain ⟨fault, hfault⟩ := Option.ne_none_iff_exists'.mp hnone
    rw [client.tryBatch_of_fault manifest hfault,
      client.tryBatch_of_fault manifest (hattempt.fault_eq.trans hfault)]
    refine ⟨hcanEnsure, rfl, fun hyes => absurd hyes hcan, fun _ => ⟨rfl, rfl⟩, ?_, ?_,
      hattempt.alike⟩
    · exact hattempt.alike.isDirectory_eq (hclears.congr hstart)
    · exact hattempt.alike.readBytes_eq (houtput.congr hstart)

/-! ## Twins at hand -/

/-- Where no answer says that something is elsewhere, and a format's replies are the same, the
servers are twins for it. -/
theorem sameServer_of_statuses {network twin : Network}
    (hobstacle : twin.obstacle = network.obstacle) (hrequests : twin.requests = network.requests)
    (hstatus : ∀ entry ∈ network.script ++ twin.script, ∀ status headers body missing,
      Reply.answer status headers body missing ∈ entry.2 →
        [301, 302, 303].contains status = false ∧ [307, 308].contains status = false)
    (hlookup : ∀ address, Network.addressOf (client.baseUrl ++ format.endpoint) = .ok address →
      twin.script.lookup address.target = network.script.lookup address.target) :
    SameServer client format network twin := by
  have hnowhere : ∀ script, script ⊆ network.script ++ twin.script →
      ∀ target, Network.LeadsNowhere script target := by
    intro script hscript
    exact Network.leadsNowhere_of_entries fun entry hentry => hstatus entry (hscript hentry)
  refine ⟨hobstacle, ?_, ?_, ?_⟩
  · intro format address _
    exact ⟨hnowhere _ (List.subset_append_left _ _) _, hnowhere _ (List.subset_append_right _ _) _⟩
  · intro address haddress earlier request htarget
    unfold Network.replyAfter
    rw [htarget, hlookup address haddress]
  · intro address _
    rw [hrequests]

/-- An output is as good as any other content of its place. -/
theorem alike_put {tree : FileTree} (hfree : tree.LinkFree) {other : Format}
    (hother : other ≠ format) (bytes : ByteArray) :
    Alike (IsOther format base) tree (tree.put (outputPlace base other) (.file bytes)) := by
  have hne : outputPlace base other ≠ [] := by simp [outputPlace]
  refine ⟨rfl, ?_, hfree, hfree.put hne (by simp)⟩
  intro place hplace
  exact entry?_put_of_ne tree hne _ fun heq => hplace ⟨other, hother, heq.symm⟩

/-- A server that converts into one format only. -/
def converterWorld : World where
  network :=
    { obstacle := fun _ => none
      script := [(Format.react.endpoint, [.answer 200 [] (Text.Utf8.encode "<Page />") 0])] }
  files := { entries := [(["out"], .directory)], workingDirectory := [] }

/-- The same server, which hangs up if it is asked for another format, beside an earlier output
of that one. -/
def troubledWorld : World where
  network :=
    { obstacle := fun _ => none
      script := (Format.html.endpoint, [.hangUp]) :: converterWorld.network.script }
  files :=
    converterWorld.files.put (outputPlace ["out"] .html) (.file (Text.Utf8.encode "<h1>earlier"))

theorem tryBatch_isolated_from_trouble :
    let client : Client := { baseUrl := "http://localhost" }
    let base := placeOf converterWorld.files "out"
    Twins client .react base converterWorld troubledWorld ∧
      Clears (IsOther .react base) converterWorld.files "out" ∧
      FaresAlike client .empty .react "out" converterWorld troubledWorld
        (client.tryBatch converterWorld .empty "out") (client.tryBatch troubledWorld .empty "out")
      := by
  intro client base
  have hclears : Clears (IsOther .react base) converterWorld.files "out" :=
    clears_of_not_up (by decide)
  have hserver : SameServer client .react converterWorld.network troubledWorld.network := by
    refine sameServer_of_statuses client rfl rfl ?_ ?_
    · simp only [converterWorld, troubledWorld, List.cons_append, List.nil_append,
        List.mem_cons, List.not_mem_nil, or_false]
      rintro entry hentry status headers body missing hmem
      rcases hentry with rfl | rfl | rfl
      · cases List.mem_singleton.mp hmem
        decide
      · cases List.mem_singleton.mp hmem
      · cases List.mem_singleton.mp hmem
        decide
    · intro address haddress
      have htarget : (Network.addressOf (client.baseUrl ++ Format.react.endpoint)).toOption.map
          (·.target) = some Format.react.endpoint := by
        decide +kernel
      rw [haddress] at htarget
      have htarget : address.target = Format.react.endpoint := Option.some.inj htarget
      have hother : (Format.react.endpoint == Format.html.endpoint) = false := by decide
      rw [htarget]
      simp [troubledWorld, List.lookup_cons, hother]
  have hfree : converterWorld.files.LinkFree := linkFree_of_entries (by simp [converterWorld])
  have hbase : base = ["out"] := by decide
  have htwins : Twins client .react base converterWorld troubledWorld :=
    ⟨hserver, hbase ▸ alike_put hfree (by decide) _⟩
  exact ⟨htwins, hclears, tryBatch_isolated client .empty htwins hclears⟩

/-- A path that leads through the place of another output and up again: a file that is there
keeps the directory from being created. -/
theorem directory_through_output :
    let client : Client := { baseUrl := "http://localhost" }
    let directory := "x/output.html/.."
    let world : World :=
      { network := { obstacle := fun _ => some .unreachable, script := [] }
        files := { entries := [(["x"], .directory)], workingDirectory := [] } }
    let twin : World :=
      { world with
        files := world.files.put ["x", "output.html"] (.file (Text.Utf8.encode "old")) }
    Twins client .react (placeOf world.files directory) world twin ∧
      world.files.CanEnsure directory ∧ ¬ twin.files.CanEnsure directory := by
  intro client directory world twin
  have hfree : world.files.LinkFree := linkFree_of_entries (by simp [world])
  have hbase : placeOf world.files directory = ["x"] := by decide
  refine ⟨⟨?_, ?_⟩, ?_, ?_⟩
  · exact sameServer_of_statuses client rfl rfl (by simp [world, twin]) fun _ _ => rfl
  · rw [hbase]
    have hother : Format.html ≠ .react := by decide
    exact alike_put hfree hother _
  · exact (ensureDirectory_fst_eq_none_iff _ _).mp (by decide +kernel)
  · rw [← ensureDirectory_fst_eq_none_iff]
    decide +kernel

end Client

end PageManifest
