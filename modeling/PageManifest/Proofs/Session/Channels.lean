import PageManifest.Proofs.Client.Calls
import PageManifest.Proofs.Session.Manners

/-!
# What a command touches

A page description comes through one of two channels, and the text of its source alone says
through which. A file is read without the server: its tree decides the result and no request is
made (`tryLoad_file_congr`). An address is left to the server: the load is the call for that page,
and no file is looked at (`tryLoad_address_congr`).

Of the commands only a batch and the example session write files. Every other one leaves the whole
tree as it is, in either manner (`files_perform`), and so does any session of them (`files_run`).
-/

namespace PageManifest

namespace Source

/-- A text that starts with one of the two schemes, letter by letter. -/
def IsAddress (text : String) : Prop :=
  "http://".toList <+: text.toList ∨ "https://".toList <+: text.toList

theorem startsWithScheme_iff {text : String} :
    startsWithScheme text = true ↔ IsAddress text := by
  rw [startsWithScheme, Bool.or_eq_true, List.isPrefixOf_iff_prefix, List.isPrefixOf_iff_prefix,
    IsAddress]

instance decidableIsAddress (text : String) : Decidable (IsAddress text) :=
  decidable_of_iff _ startsWithScheme_iff

end Source

namespace Client

variable (client : Client) {world world' : World} {source : String}

/-! ## Channels of a load -/

/-- A load from a file depends on the tree only, and makes no request. -/
theorem tryLoad_file_congr (hsource : ¬ Source.IsAddress source)
    (hfiles : world'.files = world.files) :
    (client.tryLoad world' source).1 = (client.tryLoad world source).1 ∧
      (client.tryLoad world source).2.network = world.network := by
  have hscheme : Source.startsWithScheme source = false := by
    rw [← Bool.not_eq_true, Source.startsWithScheme_iff]
    exact hsource
  obtain ⟨hresult, hnetwork, -⟩ := client.tryLoad_of_file world hscheme
  obtain ⟨hresult', -, -⟩ := client.tryLoad_of_file world' hscheme
  rw [hresult, hresult', hfiles]
  exact ⟨rfl, hnetwork⟩

theorem tryPage_congr (hnetwork : world'.network = world.network) (url : String) :
    (client.tryPage world' url).1 = (client.tryPage world url).1 ∧
      (client.tryPage world' url).2.network = (client.tryPage world url).2.network := by
  obtain ⟨hresult, hlater, -⟩ := client.tryPage_call world url
  obtain ⟨hresult', hlater', -⟩ := client.tryPage_call world' url
  rw [hresult, hresult', hlater, hlater', hnetwork]
  exact ⟨rfl, rfl⟩

/-- A load from an address depends on the network only. -/
theorem tryLoad_address_congr (hsource : Source.IsAddress source)
    (hnetwork : world'.network = world.network) :
    (client.tryLoad world' source).1 = (client.tryLoad world source).1 ∧
      (client.tryLoad world' source).2.network = (client.tryLoad world source).2.network := by
  have hscheme := Source.startsWithScheme_iff.mpr hsource
  rw [client.tryLoad_of_scheme world hscheme, client.tryLoad_of_scheme world' hscheme]
  exact client.tryPage_congr hnetwork source

end Client

namespace Session

/-! ## Commands and files -/

/-- A command that makes one call or reads one file. -/
def Command.IsSingle : Command → Prop
  | .health | .load _ | .page _ | .convert _ _ | .validate _ => True
  | .batch _ _ | .demo _ => False

theorem Command.IsSingle.ne_demo {command : Command} (h : command.IsSingle)
    (settings : DemoSettings) : command ≠ .demo settings := by
  rintro rfl
  exact h

/-- Strictly performed, each of these commands is one operation that keeps the files. -/
theorem files_perform_strict (client : Client) (world : World) {command : Command}
    (h : command.IsSingle) : (command.perform client world .strict).2.files = world.files := by
  cases command with
  | health =>
    rw [Command.perform, strictly_snd]
    exact (client.tryHealth_call world).2.2
  | load source =>
    rw [Command.perform, strictly_snd]
    exact client.tryLoad_files world source
  | page url =>
    rw [Command.perform, strictly_snd]
    exact (client.tryPage_call world url).2.2
  | convert manifest format =>
    rw [Command.perform, strictly_snd]
    exact (client.tryConvert_call world manifest format).2.2
  | validate manifest =>
    rw [Command.perform, strictly_snd]
    exact (client.tryValidate_call world manifest).2.2
  | batch manifest directory => exact h.elim
  | demo settings => exact h.elim

theorem files_perform (client : Client) (world : World) (manner : Manner) {command : Command}
    (h : command.IsSingle) : (command.perform client world manner).2.files = world.files := by
  cases manner with
  | strict => exact files_perform_strict client world h
  | lenient =>
    rw [(agrees_perform client world h.ne_demo).files_eq]
    exact files_perform_strict client world h

/-- What each command keeps, a session of them keeps. -/
theorem files_run (client : Client) {commands : List (Manner × Command)}
    (h : ∀ entry ∈ commands, entry.2.IsSingle) (world : World) :
    (run client commands world).2.files = world.files := by
  induction commands generalizing world with
  | nil => rfl
  | cons entry commands ih =>
    obtain ⟨manner, command⟩ := entry
    rw [List.forall_mem_cons] at h
    rw [run, turn_eq]
    dsimp only
    rw [ih h.2]
    exact files_perform client world manner h.1

/-! ## Channels -/

/-- A source that is no address is read without a request, and no server makes a difference to
what comes of it. A source that is an address is left to the server as a call for its page, and no
file makes a difference. No session of single commands changes a file. -/
theorem channels_apart (client : Client) :
    (∀ source, ¬ Source.IsAddress source →
      ∀ world world' : World, world'.files = world.files →
        (client.tryLoad world source).2.network = world.network ∧
          (client.tryLoad world' source).1 = (client.tryLoad world source).1) ∧
    (∀ source, Source.IsAddress source →
      ∀ world world' : World, world'.network = world.network →
        (client.tryLoad world' source).1 = (client.tryLoad world source).1 ∧
          (client.tryLoad world' source).2.network = (client.tryLoad world source).2.network ∧
          (client.tryLoad world source).1 = (client.tryPage world source).1 ∧
          (client.tryLoad world source).2.network = (client.tryPage world source).2.network) ∧
    ∀ commands : List (Manner × Command), (∀ entry ∈ commands, entry.2.IsSingle) →
      ∀ world, (run client commands world).2.files = world.files := by
  refine ⟨?_, ?_, ?_⟩
  · intro source hsource world world' hfiles
    obtain ⟨hresult, hnetwork⟩ := client.tryLoad_file_congr hsource hfiles
    exact ⟨hnetwork, hresult⟩
  · intro source hsource world world' hnetwork
    obtain ⟨hresult, hrequests⟩ := client.tryLoad_address_congr hsource hnetwork
    have hpage := client.tryLoad_of_scheme world (Source.startsWithScheme_iff.mpr hsource)
    exact ⟨hresult, hrequests, by rw [hpage], by rw [hpage]⟩
  · intro commands hcommands world
    exact files_run client hcommands world

/-- A file lies below a directory that is called like a scheme. -/
def schemeFiles : FileTree where
  entries :=
    [(["HTTP:"], .directory), (["HTTP:", "page.yaml"], .file (Text.Utf8.encode "title: Page"))]
  workingDirectory := []

/-- Another spelling of the scheme makes a source a file. Neither such a source nor an address
writes anything, also in a session with requests that fail. -/
theorem channels_apart_of_spelling :
    let client : Client := { baseUrl := "http://localhost" }
    let reached : World :=
      { network := { obstacle := fun _ => none, script := [] }, files := schemeFiles }
    let unreached : World :=
      { reached with network := { obstacle := fun _ => some .unreachable, script := [] } }
    let bare : World := { reached with files := { entries := [], workingDirectory := [] } }
    let commands : List (Manner × Command) :=
      [(.strict, .health), (.lenient, .load "http://page.yaml"), (.strict, .page ""),
        (.lenient, .validate .sample), (.strict, .convert .sample .php)]
    ¬ Source.IsAddress "HTTP://page.yaml" ∧ Source.IsAddress "http://page.yaml" ∧
      (∀ entry ∈ commands, entry.2.IsSingle) ∧
      (client.tryLoad reached "HTTP://page.yaml").2.network = reached.network ∧
      (client.tryLoad unreached "HTTP://page.yaml").1 =
        (client.tryLoad reached "HTTP://page.yaml").1 ∧
      (client.tryLoad bare "http://page.yaml").1 =
        (client.tryLoad reached "http://page.yaml").1 ∧
      (run client commands reached).2.files = schemeFiles := by
  intro client reached unreached bare commands
  obtain ⟨hfile, haddress, hsession⟩ := channels_apart client
  have hspelled : ¬ Source.IsAddress "HTTP://page.yaml" := by decide
  have hscheme : Source.IsAddress "http://page.yaml" := by decide
  have hsingle : ∀ entry ∈ commands, entry.2.IsSingle := by simp [commands, Command.IsSingle]
  obtain ⟨hnetwork, hresult⟩ := hfile _ hspelled reached unreached rfl
  refine ⟨hspelled, hscheme, hsingle, hnetwork, hresult, ?_, ?_⟩
  · exact (haddress _ hscheme reached bare rfl).1
  · exact hsession commands hsingle reached

end Session

end PageManifest
