import PageManifest.Proofs.Client.Calls
import PageManifest.Proofs.Http.Exchanges
import PageManifest.Proofs.Session.Manners

/-!
# The requests of a command

A command that talks to the server makes one call (`Command.call?`), whatever its manner, and
the call is an exchange of ten hops at most. `Requests` says which requests the server gets
for it, and what the strict command makes of the answer behind the last of them
(`perform_requests`). A body is sent as it was made first, or not at all.
-/

namespace PageManifest.Session

open Http

/-- The call that a command makes if it makes just one. -/
def Command.call? : Command → Option Client.Call
  | .health => some .health
  | .page url => some (.page url)
  | .load source =>
    match Source.ofText source with
    | .url address => some (.page address)
    | .file _ => none
  | .convert manifest format => some (.conversion manifest format)
  | .validate manifest => some (.validation manifest)
  | .batch _ _ => none
  | .demo _ => none

/-! ## Results of calls -/

/-- A result is an error if that of the call is, or if the answer is not one of success. -/
structure Settles (outcome : Except Failure Answer) (result : Result) : Prop where
  of_failure : ∀ failure, outcome = .error failure → result = .error (.http failure)
  of_refusal : ∀ answer, outcome = .ok answer → answer.status.isSuccess = false →
    result = .error (.status answer.status (answer.text.toOption.getD ""))

theorem settles_strictly {α : Type} {outcome : Except Failure Answer}
    (wrap : α → Result) (done : Except Error α × World)
    (h : ∀ error, Client.success outcome = .error error → done.1 = .error error) :
    Settles outcome (strictly wrap done).1.value := by
  obtain ⟨result, later⟩ := done
  constructor
  · rintro failure rfl
    obtain rfl : result = .error (.http failure) := h _ rfl
    rfl
  · rintro answer rfl hstatus
    obtain rfl : result = .error (.status answer.status (answer.text.toOption.getD "")) :=
      h _ (by rw [Client.success, hstatus, if_neg Bool.false_ne_true])
    rfl

theorem Settles.exists_answer {outcome : Except Failure Answer} {result : Result}
    (h : Settles outcome result) (hresult : ∀ error, result ≠ .error error) :
    ∃ answer, outcome = .ok answer ∧ answer.status.isSuccess = true := by
  cases outcome with
  | error failure => exact absurd (h.of_failure failure rfl) (hresult _)
  | ok answer =>
    cases hstatus : answer.status.isSuccess with
    | false => exact absurd (h.of_refusal answer rfl hstatus) (hresult _)
    | true => exact ⟨answer, rfl, hstatus⟩

/-- A strict command gives what it makes of its call, which is all that the network gets. -/
theorem settles_perform (client : Client) (world : World) {command : Command}
    {call : Client.Call} (h : command.call? = some call) :
    Settles (client.call world.network call).1 (command.perform client world .strict).1.value ∧
      (command.perform client world .strict).2.network = (client.call world.network call).2 := by
  have hpage : ∀ url, Settles (client.call world.network (.page url)).1
        (strictly .manifest (client.tryPage world url)).1.value ∧
      (strictly .manifest (client.tryPage world url)).2.network =
        (client.call world.network (.page url)).2 := by
    intro url
    obtain ⟨hanswer, hnetwork, -⟩ := client.tryPage_call world url
    refine ⟨settles_strictly _ _ ?_, by rw [strictly_snd, hnetwork]⟩
    intro error herror
    rw [hanswer, Client.successText, herror]
    rfl
  cases command with
  | health =>
    cases h
    obtain ⟨hanswer, hnetwork, -⟩ := client.tryHealth_call world
    rw [Command.perform]
    refine ⟨settles_strictly _ _ ?_, by rw [strictly_snd, hnetwork]⟩
    intro error herror
    rw [hanswer, herror]
    rfl
  | load source =>
    rw [Command.call?] at h
    rw [Command.perform, Client.tryLoad]
    cases hsource : Source.ofText source with
    | file path =>
      rw [hsource] at h
      cases h
    | url address =>
      rw [hsource] at h
      cases h
      dsimp only
      exact hpage address
  | page url =>
    cases h
    rw [Command.perform]
    exact hpage url
  | convert manifest format =>
    cases h
    obtain ⟨hanswer, hnetwork, -⟩ := client.tryConvert_call world manifest format
    rw [Command.perform]
    refine ⟨settles_strictly _ _ ?_, by rw [strictly_snd, hnetwork]⟩
    intro error herror
    rw [hanswer, Client.successText, herror]
    rfl
  | validate manifest =>
    cases h
    obtain ⟨hanswer, hnetwork, -⟩ := client.tryValidate_call world manifest
    rw [Command.perform]
    refine ⟨settles_strictly _ _ ?_, by rw [strictly_snd, hnetwork]⟩
    intro error herror
    rw [hanswer, Client.successText, herror]
    rfl
  | batch manifest directory => cases h
  | demo settings => cases h

/-! ## The requests -/

/-- What the server gets for a call, and what a strict command makes of that. -/
structure Requests (client : Client) (world : World) (call : Client.Call) (hops : List Hop)
    (performed : Outcome Result × World) : Prop where
  requests_eq :
    performed.2.network.requests = world.network.requests ++ hops.map (·.request)
  length_le : hops.length ≤ 10
  answered : Answered world.network.script world.network.requests hops
  first : ∀ hop ∈ hops.head?,
    Network.addressOf (client.baseUrl ++ call.path) = .ok hop.address ∧
      hop.request = Network.firstRequest call.method hop.address call.body
  /-- A server that is reached gets a request, unless the client does not wait at all. -/
  reached : client.timeout ≠ some 0 →
    ∀ address, Network.addressOf (client.baseUrl ++ call.path) = .ok address →
      world.network.obstacle address = none → hops ≠ []
  chained : hops.IsChain Hop.Leads
  pairwise_get :
    hops.Pairwise fun hop later => hop.request.method = .get → later.request.method = .get
  /-- A request carries the call's body whole, or it carries nothing. -/
  whole_or_bare : ∀ hop ∈ hops,
    hop.request.method = call.method ∧ hop.request.body = call.body.getD "" ∧
        hop.request.contentType = call.body.map (fun _ => "application/json") ∨
      hop.request.method = .get ∧ hop.request.body = "" ∧ hop.request.contentType = none
  /-- The last answer decides, and its text is left out if its body breaks off. -/
  refused : ∀ last ∈ hops.getLast?, last.next? = none → ∀ answer, last.answer? = some answer →
    ¬ (200 ≤ answer.status ∧ answer.status ≤ 299) →
      ∃ text, performed.1.value = .error (.status answer.status text) ∧
        (∀ bytes, answer.body = some bytes → answer.text = .ok text) ∧
        (answer.body = none → text = "")
  succeeded : (∀ error, performed.1.value ≠ .error error) →
    ∃ last ∈ hops.getLast?, last.next? = none ∧ ∃ answer, last.answer? = some answer ∧
      200 ≤ answer.status ∧ answer.status ≤ 299
  /-- An answer that leads on is the last one only if the way on is barred, or if it is that to
  the tenth request. -/
  ledOn : ∀ last ∈ hops.getLast?, ∀ address request, last.next? = some (address, request) →
    (∃ obstacle, world.network.obstacle address = some obstacle ∧
        performed.1.value = .error (.http (.noConnection address obstacle))) ∨
      hops.length = 10 ∧ performed.1.value = .error (.http (.tooManyRedirects last.address))

theorem isSuccess_iff (status : Status) :
    status.isSuccess = true ↔ 200 ≤ status ∧ status ≤ 299 := by
  simp [Status.isSuccess]

theorem exists_refusal_text (answer : Answer) :
    (∀ bytes, answer.body = some bytes →
        answer.text = .ok (answer.text.toOption.getD "")) ∧
      (answer.body = none → answer.text.toOption.getD "" = "") := by
  unfold Answer.text
  cases answer.body with
  | none => exact ⟨(fun _ h => by cases h), fun _ => rfl⟩
  | some bytes => exact ⟨fun _ _ => rfl, (fun h => by cases h)⟩

/-- Of a call at an address, the exchange decides everything. -/
theorem requests_of_exchanged {client : Client} {world : World} {call : Client.Call}
    {hops : List Hop} {address : Url.Address} {outcome : Except Failure Answer × Network}
    {performed : Outcome Result × World}
    (haddress : Network.addressOf (client.baseUrl ++ call.path) = .ok address)
    (h : Exchanged world.network Network.requestLimit address
      (Network.firstRequest call.method address call.body) hops outcome)
    (hsettles : Settles outcome.1 performed.1.value)
    (hnetwork : performed.2.network = outcome.2) :
    Requests client world call hops performed := by
  have hends := h.ends
  generalize outcome.1 = result at hsettles hends
  refine ⟨by rw [hnetwork, h.later_eq], h.length_le, h.answered, ?_, ?_, h.chained,
    h.pairwise_get, ?_, ?_, ?_, ?_⟩
  · rintro hop hmem
    obtain ⟨rfl, hrequest⟩ := h.first hop hmem
    exact ⟨haddress, hrequest⟩
  · intro _ reached hreached hobstacle
    cases haddress.symm.trans hreached
    obtain ⟨first, more, rfl, -⟩ := h.exists_first hobstacle
    exact List.cons_ne_nil first more
  · intro hop hmem
    rcases h.request_cases hop hmem with hrequest | hrequest
    · rw [hrequest]
      exact Or.inl ⟨rfl, rfl, rfl⟩
    · rw [hrequest]
      exact Or.inr ⟨rfl, rfl, rfl⟩
  · intro last hlast hnext answer hanswer hstatus
    obtain rfl : result = .ok answer := hends.eq_of_answered hlast hanswer hnext
    have hrefused : answer.status.isSuccess = false := by
      rw [← Bool.not_eq_true, isSuccess_iff]
      exact hstatus
    obtain ⟨hreadable, hunreadable⟩ := exists_refusal_text answer
    exact ⟨_, hsettles.of_refusal answer rfl hrefused, hreadable, hunreadable⟩
  · intro hvalue
    obtain ⟨answer, rfl, hstatus⟩ := hsettles.exists_answer hvalue
    obtain ⟨last, hlast, hanswer, hnext⟩ := hends.exists_last
    exact ⟨last, hlast, hnext, answer, hanswer, (isSuccess_iff _).mp hstatus⟩
  · intro last hlast found request hnext
    rcases hends.cases_of_next hlast hnext with ⟨obstacle, hobstacle, rfl⟩ | ⟨hlimit, rfl⟩
    · exact Or.inl ⟨obstacle, hobstacle, hsettles.of_failure _ rfl⟩
    · exact Or.inr ⟨hlimit, hsettles.of_failure _ rfl⟩

/-- A call that fails before a request was made leaves the server alone. -/
theorem requests_of_failure {client : Client} {world : World} {call : Client.Call}
    {failure : Failure} {performed : Outcome Result × World}
    (hsettles : Settles (.error failure) performed.1.value)
    (hnetwork : performed.2.network = world.network)
    (hunreached : client.timeout ≠ some 0 →
      ∀ address, Network.addressOf (client.baseUrl ++ call.path) ≠ .ok address) :
    Requests client world call [] performed where
  requests_eq := by simp [hnetwork]
  length_le := by simp
  answered := trivial
  first := by simp
  reached := fun hwaits address haddress => absurd haddress (hunreached hwaits address)
  chained := .nil
  pairwise_get := .nil
  whole_or_bare := by simp
  refused := by simp
  succeeded := fun hvalue => absurd (hsettles.of_failure failure rfl) (hvalue _)
  ledOn := by simp

/-- A server that sends a client on to another target, for the same thing there or to fetch
what is there. -/
def redirecting (status : Status) (target location : String) : Script :=
  [(target, [.answer status [("Location", location)] .empty 0])]

/-- A server that sends a client around in a circle gets ten requests. -/
example :
    let client : Client := { baseUrl := "http://localhost" }
    let world : World :=
      { network := { obstacle := fun _ => none, script := redirecting 308 "/health" "/health" }
        files := { entries := [], workingDirectory := [] } }
    ((Command.health).perform client world .lenient).2.network.requests =
      List.replicate 10 { method := .get, target := "/health" } := by
  decide +kernel

end PageManifest.Session
