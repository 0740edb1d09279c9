import PageManifest.Http.Reply
import PageManifest.Url.Reader

/-!
# Networks

A network says which addresses cannot be reached, what the server behind all others
replies, and which requests it has got so far. `exchange` makes a request and follows
where its answers lead, for ten requests at most.

Replies are there at once, so they are late only for a client that does not wait at all.
-/

namespace PageManifest.Http

/-- What a server replies to the requests for a target, one after the other; the last reply
is for all further ones. -/
abbrev Script := List (String × List Reply)

/-- The servers that can be reached, and what they have been asked. -/
structure Network where
  /-- What keeps a client from reaching an address. -/
  obstacle : Url.Address → Option Obstacle
  script : Script
  /-- The requests so far, in order. -/
  requests : List Request := []
  /-- The seconds on the clock by which a client waits. -/
  clock : Nat := 0

namespace Network

/-- The reply to a request for a target that came up a number of times before. -/
def replyAfter (script : Script) (earlier : Nat) (request : Request) : Reply :=
  match script.lookup request.target with
  | none => .unknownTarget request
  | some replies =>
    (replies[earlier]?).getD ((replies.getLast?).getD (.unknownTarget request))

/-- The server's reply to a request. -/
def reply (network : Network) (request : Request) : Reply :=
  replyAfter network.script (network.requests.countP (·.target == request.target)) request

/-- The network after a request. -/
def noting (network : Network) (request : Request) : Network :=
  { network with requests := network.requests ++ [request] }

/-- Makes one request at an address. -/
def send (network : Network) (address : Url.Address) (request : Request) :
    Except Failure Answer × Network :=
  match network.obstacle address with
  | some obstacle => (.error (.noConnection address obstacle), network)
  | none =>
    match network.reply request with
    | .hangUp => (.error (.closed address), network.noting request)
    | .answer status headers body missing =>
      (.ok (.receive status headers body missing), network.noting request)

/-- Where an answer at an address leads: the request to make next, and its address. A place
that is no address of a host leads nowhere. -/
def next? (address : Url.Address) (request : Request) (answer : Answer) :
    Option (Url.Address × Request) := do
  let (following, location) ← answer.leadsTo? request
  let found ← (Url.readFrom (some address) location).toOption
  if found.namesHost then some (found, following.aimedAt found.target) else none

/-- How many requests one exchange may make. -/
def requestLimit : Nat := 10

/-- Makes a request and those that its answers lead to, of which a number is left. -/
def follow : Nat → Network → Url.Address → Request → Except Failure Answer × Network
  | 0, network, address, _ => (.error (.tooManyRedirects address), network)
  | left + 1, network, address, request =>
    match network.send address request with
    | (.error failure, network) => (.error failure, network)
    | (.ok answer, network) =>
      match next? address request answer with
      | none => (.ok answer, network)
      | some (found, following) =>
        if left = 0 then (.error (.tooManyRedirects address), network)
        else follow left network found following

/-- The address that a text gives to a client: one of a host, to be reached by this
protocol. -/
def addressOf (text : String) : Except Failure Url.Address :=
  match Url.read text with
  | .error fault => .error (.badAddress fault)
  | .ok address =>
    if !address.namesHost then .error (.badScheme address)
    else
      let address := address.withoutCredentials
      if address.scheme = "http" || address.scheme = "https" then .ok address
      else .error (.badScheme address)

/-- Makes a request at an address that is given as a text, with a body of JSON text or
without one. A client may have a number of seconds to wait; with none of them it gives up before
it has asked. -/
def exchange (network : Network) (method : Method) (text : String) (body : Option String)
    (timeout : Option UInt64 := none) : Except Failure Answer × Network :=
  match addressOf text with
  | .error failure => (.error failure, network)
  | .ok address =>
    if timeout = some 0 then (.error (.timedOut address), network)
    else
      network.follow requestLimit address
        { method, target := address.target
          contentType := body.map fun _ => "application/json", body := body.getD "" }

/-- How many seconds a clock can show. -/
def clockLimit : Nat := 0x7FFFFFFFFFFFFFFF

/-- Whether a client that waits for some seconds would do so beyond what the clock can show. -/
def overrunsClock (network : Network) (timeout : Option UInt64) : Bool :=
  timeout.any fun seconds => clockLimit < network.clock + seconds.toNat

end Network

end PageManifest.Http
