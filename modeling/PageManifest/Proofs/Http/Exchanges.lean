import Mathlib.Data.List.Chain
import PageManifest.Http.Network

/-!
# The hops of an exchange

An exchange is a chain of hops, each of them a request that reaches a server. The first one is
the request that was to be made, and each further one goes where the answer before it leads
(`Leads`). `Exchanged` says what an exchange may do: the number of its hops is limited, their
replies are those of the server, and the last one decides what comes of it (`Ends`). Following
redirects does just that (`follow_exchanged`).

Along the chain a request is repeated with all it carries, or it becomes a plain request for
what is there, and then it stays one (`Exchanged.request_cases`, `Exchanged.pairwise_get`).
-/

namespace PageManifest.Http

/-! ## Hops -/

/-- A request that reaches a server at an address, and what the server does with it. -/
structure Hop where
  address : Url.Address
  request : Request
  reply : Reply

namespace Hop

/-- The answer that the client gets, unless the server hangs up. -/
def answer? (hop : Hop) : Option Answer :=
  match hop.reply with
  | .hangUp => none
  | .answer status headers body missing => some (.receive status headers body missing)

/-- Where the answer leads. -/
def next? (hop : Hop) : Option (Url.Address × Request) :=
  hop.answer?.bind (Network.next? hop.address hop.request)

/-- A hop goes where the answer to the one before leads: the same request is made there, or
what is there is fetched. -/
inductive Leads (hop next : Hop) : Prop
  | again {answer : Answer} (hnext : hop.next? = some (next.address, next.request))
      (hanswer : hop.answer? = some answer) (hstatus : answer.status = 307 ∨ answer.status = 308)
      (hrequest : next.request = hop.request.aimedAt next.request.target)
  | fetch {answer : Answer} (hnext : hop.next? = some (next.address, next.request))
      (hanswer : hop.answer? = some answer)
      (hstatus : answer.status = 301 ∨ answer.status = 302 ∨ answer.status = 303)
      (hrequest : next.request = hop.request.withoutBody.aimedAt next.request.target)

end Hop

/-- The replies of some hops are those of a server that has had some requests before. -/
def Answered (script : Script) : List Request → List Hop → Prop
  | _, [] => True
  | earlier, hop :: hops =>
    hop.reply =
        Network.replyAfter script (earlier.countP (·.target == hop.request.target)) hop.request ∧
      Answered script (earlier ++ [hop.request]) hops

/-- What comes of some hops from an address on, if there may be so many. -/
inductive Ends (network : Network) (limit : Nat) (address : Url.Address) (hops : List Hop) :
    Except Failure Answer → Prop
  | unreached {obstacle : Obstacle} (hnone : hops = [])
      (h : network.obstacle address = some obstacle) :
      Ends network limit address hops (.error (.noConnection address obstacle))
  /-- The last answer leads to where no connection can be made. -/
  | cutOff {last : Hop} {found : Url.Address} {following : Request} {obstacle : Obstacle}
      (hlast : hops.getLast? = some last) (hnext : last.next? = some (found, following))
      (h : network.obstacle found = some obstacle) :
      Ends network limit address hops (.error (.noConnection found obstacle))
  | hungUp {last : Hop} (hlast : hops.getLast? = some last) (h : last.answer? = none) :
      Ends network limit address hops (.error (.closed last.address))
  | answered {last : Hop} {answer : Answer} (hlast : hops.getLast? = some last)
      (hanswer : last.answer? = some answer) (hnext : last.next? = none) :
      Ends network limit address hops (.ok answer)
  /-- The last answer leads on, but that would be one hop too many. -/
  | exhausted {last : Hop} (hlast : hops.getLast? = some last) (hnext : last.next?.isSome)
      (hlimit : hops.length = limit) :
      Ends network limit address hops (.error (.tooManyRedirects last.address))

namespace Ends

variable {network : Network} {limit : Nat} {address : Url.Address} {hops : List Hop}
  {outcome : Except Failure Answer} {last : Hop} {answer : Answer}

theorem eq_of_answered (h : Ends network limit address hops outcome)
    (hlast : hops.getLast? = some last) (hanswer : last.answer? = some answer)
    (hnext : last.next? = none) : outcome = .ok answer := by
  cases h with
  | unreached hnone _ => cases hnone ▸ hlast
  | cutOff hlast' hnext' _ =>
    cases hlast.symm.trans hlast'
    cases hnext.symm.trans hnext'
  | hungUp hlast' hnone =>
    cases hlast.symm.trans hlast'
    cases hanswer.symm.trans hnone
  | answered hlast' hanswer' _ =>
    cases hlast.symm.trans hlast'
    cases hanswer.symm.trans hanswer'
    rfl
  | exhausted hlast' hnext' _ =>
    cases hlast.symm.trans hlast'
    rw [hnext] at hnext'
    cases hnext'

theorem exists_last (h : Ends network limit address hops (.ok answer)) :
    ∃ last, hops.getLast? = some last ∧ last.answer? = some answer ∧ last.next? = none := by
  cases h with
  | answered hlast hanswer hnext => exact ⟨_, hlast, hanswer, hnext⟩

theorem cases_of_next (h : Ends network limit address hops outcome)
    (hlast : hops.getLast? = some last) {found : Url.Address} {following : Request}
    (hnext : last.next? = some (found, following)) :
    (∃ obstacle, network.obstacle found = some obstacle ∧
        outcome = .error (.noConnection found obstacle)) ∨
      hops.length = limit ∧ outcome = .error (.tooManyRedirects last.address) := by
  cases h with
  | unreached hnone _ => cases hnone ▸ hlast
  | cutOff hlast' hnext' hobstacle =>
    cases hlast.symm.trans hlast'
    cases hnext.symm.trans hnext'
    exact Or.inl ⟨_, hobstacle, rfl⟩
  | hungUp hlast' hnone =>
    cases hlast.symm.trans hlast'
    rw [Hop.next?, hnone] at hnext
    cases hnext
  | answered hlast' _ hnext' =>
    cases hlast.symm.trans hlast'
    cases hnext.symm.trans hnext'
  | exhausted hlast' _ hlimit =>
    cases hlast.symm.trans hlast'
    exact Or.inr ⟨hlimit, rfl⟩

end Ends

/-- What an exchange may do that begins with a request at an address. -/
structure Exchanged (network : Network) (limit : Nat) (address : Url.Address) (request : Request)
    (hops : List Hop) (outcome : Except Failure Answer × Network) : Prop where
  later_eq : outcome.2 = { network with requests := network.requests ++ hops.map (·.request) }
  length_le : hops.length ≤ limit
  first : ∀ hop ∈ hops.head?, hop.address = address ∧ hop.request = request
  answered : Answered network.script network.requests hops
  chained : hops.IsChain Hop.Leads
  ends : Ends network limit address hops outcome.1

/-! ## Following redirects -/

theorem Answer.leadsTo?_cases {answer : Answer} {request following : Request} {location : String}
    (h : answer.leadsTo? request = some (following, location)) :
    ((answer.status = 307 ∨ answer.status = 308) ∧ following = request) ∨
      (answer.status = 301 ∨ answer.status = 302 ∨ answer.status = 303) ∧
        following = request.withoutBody := by
  simp only [leadsTo?, bind, Option.bind_eq_some_iff] at h
  obtain ⟨found, -, h⟩ := h
  split at h
  · rename_i hstatus
    cases h
    exact Or.inr ⟨by simpa using hstatus, rfl⟩
  · split at h
    · rename_i hstatus
      cases h
      exact Or.inl ⟨by simpa using hstatus, rfl⟩
    · cases h

namespace Network

theorem next?_eq_some {address found : Url.Address} {request following : Request}
    {answer : Answer} (h : next? address request answer = some (found, following)) :
    ∃ unaimed location, answer.leadsTo? request = some (unaimed, location) ∧
      following = unaimed.aimedAt following.target := by
  simp only [next?, bind, Option.bind_eq_some_iff] at h
  obtain ⟨⟨unaimed, location⟩, hleads, address, -, h⟩ := h
  split at h
  · cases h
    exact ⟨unaimed, location, hleads, rfl⟩
  · cases h

/-- Where an answer leads, a hop follows. -/
theorem leads_of_next? {hop next : Hop} (h : hop.next? = some (next.address, next.request)) :
    hop.Leads next := by
  obtain ⟨answer, hanswer, hnext⟩ := Option.bind_eq_some_iff.mp h
  obtain ⟨unaimed, location, hleads, hrequest⟩ := next?_eq_some hnext
  rcases Answer.leadsTo?_cases hleads with ⟨hstatus, rfl⟩ | ⟨hstatus, rfl⟩
  · exact .again h hanswer hstatus hrequest
  · exact .fetch h hanswer hstatus hrequest

end Network

/-- The hops of an exchange that goes on behind its first hop. -/
theorem Exchanged.cons {network : Network} {limit : Nat} {hops : List Hop} {found : Url.Address}
    {following : Request} {outcome : Except Failure Answer × Network} (hop : Hop)
    (hreply : hop.reply = network.reply hop.request) (hnext : hop.next? = some (found, following))
    (h : Exchanged (network.noting hop.request) limit found following hops outcome) :
    Exchanged network (limit + 1) hop.address hop.request (hop :: hops) outcome := by
  obtain ⟨result, later⟩ := outcome
  obtain ⟨hlater, hlength, hfirst, hanswered, hchained, hends⟩ := h
  dsimp only at hlater hends
  refine ⟨?_, ?_, ?_, ⟨hreply, hanswered⟩, ?_, ?_⟩
  · rw [hlater]
    simp [Network.noting]
  · rw [List.length_cons]
    omega
  · rintro first hmem
    cases hmem
    exact ⟨rfl, rfl⟩
  · refine List.isChain_cons.mpr ⟨fun next hmem => ?_, hchained⟩
    obtain ⟨haddress, hrequest⟩ := hfirst next hmem
    exact Network.leads_of_next? (by rw [hnext, haddress, hrequest])
  · have hlast : ∀ {last : Hop}, hops.getLast? = some last →
        (hop :: hops).getLast? = some last := by
      intro last hlast
      rw [List.getLast?_cons, hlast, Option.getD_some]
    cases hends with
    | unreached hnone hobstacle =>
      subst hnone
      exact .cutOff rfl hnext hobstacle
    | cutOff h hlead hobstacle => exact .cutOff (hlast h) hlead hobstacle
    | hungUp h hnone => exact .hungUp (hlast h) hnone
    | answered h hanswer hend => exact .answered (hlast h) hanswer hend
    | exhausted h hlead hlimit => exact .exhausted (hlast h) hlead (by rw [List.length_cons, hlimit])

/-- An exchange that ends with its first hop. -/
theorem exchanged_singleton {network : Network} {limit : Nat} {result : Except Failure Answer}
    (hop : Hop) (hreply : hop.reply = network.reply hop.request)
    (hends : Ends network (limit + 1) hop.address [hop] result) :
    Exchanged network (limit + 1) hop.address hop.request [hop]
      (result, network.noting hop.request) where
  later_eq := rfl
  length_le := by simp
  first := by
    rintro first hmem
    cases hmem
    exact ⟨rfl, rfl⟩
  answered := ⟨hreply, trivial⟩
  chained := List.isChain_singleton hop
  ends := hends

namespace Network

/-- Following redirects makes an exchange of so many hops at most. -/
theorem follow_exchanged {left : Nat} (hleft : left ≠ 0) (network : Network)
    (address : Url.Address) (request : Request) :
    ∃ hops, Exchanged network left address request hops (network.follow left address request) := by
  -- Each hop uses up one of those that are left; the requests before it only decide its reply.
  induction left generalizing network address request with
  | zero => exact absurd rfl hleft
  | succ left ih =>
    unfold follow send
    cases hobstacle : network.obstacle address with
    | some obstacle =>
      exact ⟨[], by simp, by simp, by simp, trivial, List.isChain_nil, .unreached rfl hobstacle⟩
    | none =>
      cases hreply : network.reply request with
      | hangUp =>
        let hop : Hop := ⟨address, request, .hangUp⟩
        have hends : Ends network (left + 1) address [hop] (.error (.closed hop.address)) :=
          .hungUp rfl rfl
        exact ⟨[hop], exchanged_singleton hop hreply.symm hends⟩
      | answer status headers body missing =>
        let hop : Hop := ⟨address, request, .answer status headers body missing⟩
        dsimp only
        cases hnext : next? address request (.receive status headers body missing) with
        | none => exact ⟨[hop], exchanged_singleton hop hreply.symm (.answered rfl rfl hnext)⟩
        | some found =>
          obtain ⟨found, following⟩ := found
          have hlead : hop.next? = some (found, following) := hnext
          dsimp only
          by_cases hlast : left = 0
          · subst hlast
            have hends : Ends network 1 address [hop] (.error (.tooManyRedirects hop.address)) :=
              .exhausted rfl (Option.isSome_of_eq_some hlead) rfl
            exact ⟨[hop], exchanged_singleton hop hreply.symm hends⟩
          · obtain ⟨hops, hexchanged⟩ := ih hlast (network.noting request) found following
            rw [if_neg hlast]
            exact ⟨hop :: hops, hexchanged.cons hop hreply.symm hlead⟩

/-- The request that an exchange begins with. -/
def firstRequest (method : Method) (address : Url.Address) (body : Option String) : Request :=
  { method, target := address.target, contentType := body.map fun _ => "application/json"
    body := body.getD "" }

theorem exchange_exchanged (network : Network) (method : Method) {text : String}
    (body : Option String) {timeout : Option UInt64} (htimeout : timeout ≠ some 0)
    {address : Url.Address} (h : addressOf text = .ok address) :
    ∃ hops, Exchanged network requestLimit address (firstRequest method address body) hops
      (network.exchange method text body timeout) := by
  unfold exchange
  rw [h]
  dsimp only
  rw [if_neg htimeout]
  exact network.follow_exchanged (by decide) address _

/-- Without any time to wait no request is made. -/
theorem exchange_of_no_time (network : Network) (method : Method) {text : String}
    (body : Option String) {address : Url.Address} (h : addressOf text = .ok address) :
    network.exchange method text body (some 0) = (.error (.timedOut address), network) := by
  unfold exchange
  rw [h]
  exact if_pos rfl

theorem exchange_of_error (network : Network) (method : Method) {text : String}
    (body : Option String) (timeout : Option UInt64) {failure : Failure}
    (h : addressOf text = .error failure) :
    network.exchange method text body timeout = (.error failure, network) := by
  unfold exchange
  rw [h]

end Network

/-! ## What is requested along the chain -/

namespace Exchanged

variable {network : Network} {limit : Nat} {address : Url.Address} {request : Request}
  {hops : List Hop} {outcome : Except Failure Answer × Network}

/-- A request is repeated as it was made first, or it fetches what is at its target. -/
theorem request_cases (h : Exchanged network limit address request hops outcome) :
    ∀ hop ∈ hops, hop.request = request.aimedAt hop.request.target ∨
      hop.request = { method := .get, target := hop.request.target } := by
  refine h.chained.induction _ _ ?_ ?_
  · rintro hop next hleads hhop
    cases hleads with
    | again hnext hanswer hstatus hrequest =>
      rcases hhop with hhop | hhop
      · rw [hhop] at hrequest
        exact Or.inl hrequest
      · rw [hhop] at hrequest
        exact Or.inr hrequest
    | fetch hnext hanswer hstatus hrequest => exact Or.inr hrequest
  · intro hne
    obtain ⟨-, hfirst⟩ := h.first _ (List.head_mem_head? hne)
    exact Or.inl (by rw [hfirst]; rfl)

/-- Once something is fetched, all that comes later is fetched too. -/
theorem pairwise_get (h : Exchanged network limit address request hops outcome) :
    hops.Pairwise fun hop later => hop.request.method = .get → later.request.method = .get := by
  have hget : hops.IsChain fun hop next =>
      hop.request.method = .get → next.request.method = .get := by
    refine h.chained.imp ?_
    rintro hop next hleads hmethod
    cases hleads with
    | again hnext hanswer hstatus hrequest =>
      rw [hrequest]
      exact hmethod
    | fetch hnext hanswer hstatus hrequest =>
      rw [hrequest]
      rfl
  have htrans : IsTrans Hop fun hop later =>
      hop.request.method = .get → later.request.method = .get :=
    ⟨fun _ _ _ hfirst hsecond hmethod => hsecond (hfirst hmethod)⟩
  exact List.isChain_iff_pairwise.mp hget

/-- A server that is reached gets the first request. -/
theorem exists_first (h : Exchanged network limit address request hops outcome)
    (hreached : network.obstacle address = none) :
    ∃ first more, hops = first :: more ∧ first.address = address ∧ first.request = request := by
  cases hhops : hops with
  | cons first more =>
    obtain ⟨haddress, hrequest⟩ := h.first first (by rw [hhops]; rfl)
    exact ⟨first, more, rfl, haddress, hrequest⟩
  | nil =>
    -- Every other end has a last hop.
    have hends := h.ends
    generalize outcome.1 = result at hends
    cases hends with
    | unreached hnone hobstacle => cases hreached.symm.trans hobstacle
    | cutOff hlast _ _ => simp [hhops] at hlast
    | hungUp hlast _ => simp [hhops] at hlast
    | answered hlast _ _ => simp [hhops] at hlast
    | exhausted hlast _ _ => simp [hhops] at hlast

end Exchanged

/-! ## Servers that lead nowhere -/

namespace Network

/-- No answer to a request for a target leads on. -/
def LeadsNowhere (script : Script) (target : String) : Prop :=
  ∀ earlier request, request.target = target → ∀ status headers body missing,
    replyAfter script earlier request = .answer status headers body missing →
      (Answer.receive status headers body missing).leadsTo? request = none

/-- What is replied to a target decides whether an answer for it leads on. -/
theorem leadsNowhere_of_statuses {script : Script} {target : String}
    (h : ∀ replies, script.lookup target = some replies → ∀ status headers body missing,
      Reply.answer status headers body missing ∈ replies →
        [301, 302, 303].contains status = false ∧ [307, 308].contains status = false) :
    LeadsNowhere script target := by
  rintro earlier request rfl status headers body missing hreply
  have hstatus : [301, 302, 303].contains status = false ∧ [307, 308].contains status = false := by
    unfold replyAfter at hreply
    split at hreply
    · cases hreply
      exact ⟨rfl, rfl⟩
    · rename_i replies hlookup
      cases hfound : replies[earlier]? with
      | some reply =>
        rw [hfound, Option.getD_some] at hreply
        exact h replies hlookup _ _ _ _ (hreply ▸ List.mem_of_getElem? hfound)
      | none =>
        rw [hfound, Option.getD_none] at hreply
        cases hlast : replies.getLast? with
        | some reply =>
          rw [hlast, Option.getD_some] at hreply
          exact h replies hlookup _ _ _ _ (hreply ▸ List.mem_of_getLast? hlast)
        | none =>
          rw [hlast] at hreply
          cases hreply
          exact ⟨rfl, rfl⟩
  unfold Answer.leadsTo?
  cases hlocation : (Answer.receive status headers body missing).header? "location" with
  | none => rfl
  | some location =>
    have hreceived : (Answer.receive status headers body missing).status = status := rfl
    simp only [hreceived, hstatus]
    rfl

/-- No script leads on that never says that something is elsewhere. -/
theorem leadsNowhere_of_entries {script : Script}
    (h : ∀ entry ∈ script, ∀ status headers body missing,
      Reply.answer status headers body missing ∈ entry.2 →
        [301, 302, 303].contains status = false ∧ [307, 308].contains status = false)
    (target : String) : LeadsNowhere script target := by
  refine leadsNowhere_of_statuses fun replies hlookup => ?_
  obtain ⟨before, behind, hsplit, -⟩ := List.lookup_eq_some_iff.mp hlookup
  exact h (target, replies) (by rw [hsplit]; simp)

variable {network : Network} {text : String} {address : Url.Address}

/-- Where no answer leads on, an exchange makes one request at most. -/
theorem exchange_of_leadsNowhere (h : addressOf text = .ok address)
    (hnowhere : LeadsNowhere network.script address.target) (method : Method)
    (body : Option String) {timeout : Option UInt64} (htimeout : timeout ≠ some 0) :
    network.exchange method text body timeout =
      network.send address (firstRequest method address body) := by
  unfold exchange
  rw [h]
  dsimp only
  rw [if_neg htimeout, ← firstRequest, requestLimit, follow]
  unfold send
  cases hobstacle : network.obstacle address with
  | some obstacle => rfl
  | none =>
    cases hreply : network.reply (firstRequest method address body) with
    | hangUp => rfl
    | answer status headers body' missing =>
      have hleads := hnowhere _ _ rfl _ _ _ _ hreply
      dsimp only
      rw [next?, hleads]
      rfl

/-- The server gets one request, if it is reached. -/
theorem send_snd (network : Network) (address : Url.Address) (request : Request) :
    (network.send address request).2 =
      { network with
        requests :=
          network.requests ++ if (network.obstacle address).isNone then [request] else [] } := by
  unfold send
  cases network.obstacle address with
  | some obstacle => simp
  | none =>
    cases network.reply request with
    | hangUp => rfl
    | answer status headers body missing => rfl

/-- The same reply is the same outcome. -/
theorem send_fst_congr {other : Network} {request : Request}
    (hobstacle : other.obstacle = network.obstacle)
    (hreply : other.reply request = network.reply request) :
    (other.send address request).1 = (network.send address request).1 := by
  unfold send
  rw [hobstacle, hreply]
  cases network.obstacle address with
  | some obstacle => rfl
  | none =>
    cases network.reply request with
    | hangUp => rfl
    | answer status headers body missing => rfl

end Network

end PageManifest.Http
