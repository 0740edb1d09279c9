import PageManifest.Url.Basic

/-!
# Failures of exchanges

Why a request gets no complete answer. A failure that concerns a place names its address,
except where a body breaks off.
-/

namespace PageManifest.Http

/-- Why no connection can be made. -/
inductive Obstacle where
  | refused
  | unreachable
deriving DecidableEq, Repr

/-- Why no connection can be made, in words. -/
def Obstacle.message : Obstacle → String
  | .refused => "Connection refused (os error 111)"
  | .unreachable => "Network is unreachable (os error 101)"

/-- Why a request gets no complete answer. -/
inductive Failure where
  | badAddress (fault : Url.Fault)
  | badScheme (address : Url.Address)
  | noConnection (address : Url.Address) (obstacle : Obstacle)
  | closed (address : Url.Address)
  /-- The client would not wait any longer. -/
  | timedOut (address : Url.Address)
  | tooManyRedirects (address : Url.Address)
  | brokenBody
deriving DecidableEq, Repr

/-- The part of a message that names an address. -/
def forAddress (address : Url.Address) : String := " for url (" ++ address.text ++ ")"

/-- Why a request gets no complete answer, in words. -/
def Failure.message : Failure → String
  | .badAddress fault => "builder error: " ++ fault.message
  | .badScheme address => "builder error" ++ forAddress address ++ ": URL scheme is not allowed"
  | .noConnection address obstacle =>
    "error sending request" ++ forAddress address ++
      ": error trying to connect: tcp connect error: " ++ obstacle.message
  | .closed address =>
    "error sending request" ++ forAddress address ++
      ": connection closed before message completed"
  | .timedOut address => "error sending request" ++ forAddress address ++ ": operation timed out"
  | .tooManyRedirects address =>
    "error following redirect" ++ forAddress address ++ ": too many redirects"
  | .brokenBody =>
    "request or response body error: error reading a body from connection: " ++
      "end of file before message length reached"

end PageManifest.Http
