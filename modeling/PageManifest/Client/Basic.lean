import PageManifest.Config.Basic
import PageManifest.Console
import PageManifest.Manifest.Reader
import PageManifest.Source
import PageManifest.Validation.Reader
import PageManifest.World

/-!
# Clients

A client has a server convert and check page descriptions. The operations here are strict:
they say nothing to the user, and give an error if they fail. Each makes at most one
exchange. What is noted meanwhile may be written to a log file.

A client may be told to wait longer than a clock can show (`Client.crashes`). Its operations crash
instead of giving a result, so what they are here is that of all other clients. The program finds
out before its first request.
-/

namespace PageManifest

/-- A user of a server. -/
structure Client where
  /-- The address of the server, without slashes at its end. -/
  baseUrl : String
  console : Console := {}
  /-- How many seconds the client waits for an answer. Without a number it always waits. -/
  timeout : Option UInt64 := none

namespace Client

/-- A text without the slashes at its end. -/
def withoutSlashes (text : String) : String :=
  String.ofList (text.toList.reverse.dropWhile (· = '/')).reverse

/-- The client of the server at an address. -/
def ofAddress (address : String) : Client := { baseUrl := withoutSlashes address }

/-- The client that settings ask for. -/
def ofConfig (config : Config) : Client :=
  { ofAddress config.server.baseUrl with
    console := .ofSettings config.display, timeout := config.server.timeout }

/-! ## Exchanges -/

/-- Notes that a request is made. -/
def noteRequest (client : Client) (world : World) (method : Http.Method) (path : String)
    (sink : Option Log.Sink := none) : World :=
  world.note .debug .client (method.name ++ " " ++ (client.baseUrl ++ path)) sink

/-- Makes an exchange at a path of the server. Only an answer of success is accepted; the
text of any other becomes part of the error, if it can be read. -/
def exchange (client : Client) (world : World) (method : Http.Method) (path : String)
    (body : Option String) (sink : Option Log.Sink := none) :
    Except Error Http.Answer × World :=
  let world := client.noteRequest world method path sink
  match world.network.exchange method (client.baseUrl ++ path) body client.timeout with
  | (.error failure, network) => (.error (.http failure), { world with network })
  | (.ok answer, network) =>
    (if answer.status.isSuccess then .ok answer
      else .error (.status answer.status (answer.text.toOption.getD "")),
      { world with network })

/-- The text of an answer. -/
def answerText (answer : Http.Answer) : Except Error String :=
  match answer.text with
  | .ok text => .ok text
  | .error failure => .error (.http failure)

/-- Has the server answer JSON text with a text. -/
def askFor (client : Client) (world : World) (path body : String)
    (sink : Option Log.Sink := none) : Except Error String × World :=
  let (result, world) := client.exchange world .post path (some body) sink
  (result.bind answerText, world)

/-- Whether a request at a path brings the program to an end: it can be made, but the time until
which the client would wait is beyond what the clock can show. -/
def crashes (client : Client) (network : Http.Network) (path : String) : Bool :=
  (Http.Network.addressOf (client.baseUrl ++ path)).isOk && network.overrunsClock client.timeout

/-! ## What is asked -/

/-- Where a server says that it is there. -/
def healthPath : String := "/health"

/-- Where a server makes a page description of a page. -/
def pagePath : String := "/api/convert/url-to-manifest"

/-- Where a server checks page descriptions. -/
def validationPath : String := "/api/validate"

/-- What is sent to have a page description converted. -/
def conversionBody (manifest : Manifest) : String :=
  Json.write (.mapping [("manifest", manifest.toValue), ("options", .mapping [])])

/-- What is sent to have a page description made of a page. -/
def pageBody (url : String) : String := Json.write (.mapping [("url", .string url)])

/-! ## Strict operations -/

/-- Finds out whether the server is there. -/
def tryHealth (client : Client) (world : World) (sink : Option Log.Sink := none) :
    Except Error Unit × World :=
  let (result, world) := client.exchange world .get healthPath none sink
  (result.map fun _ => (), world)

/-- Has the server make a page description of a page. -/
def tryPage (client : Client) (world : World) (url : String) (sink : Option Log.Sink := none) :
    Except Error Manifest × World :=
  let (result, world) := client.askFor world pagePath (pageBody url) sink
  (result.bind Manifest.ofJson, world)

/-- Gets a page description from its source: from a page through the server, or from a file
without it. -/
def tryLoad (client : Client) (world : World) (source : String)
    (sink : Option Log.Sink := none) : Except Error Manifest × World :=
  match Source.ofText source with
  | .url address => client.tryPage world address sink
  | .file path =>
    let world := world.note .debug .client ("Reading manifest from " ++ path) sink
    (Manifest.ofYamlFile world.files path, world)

/-- Has the server convert a page description into a format. -/
def tryConvert (client : Client) (world : World) (manifest : Manifest) (format : Format)
    (sink : Option Log.Sink := none) : Except Error String × World :=
  client.askFor world format.endpoint (conversionBody manifest) sink

/-- Reads the verdict that a server gives. -/
def verdict (text : String) : Except Error Validation :=
  match Validation.ofJson text with
  | .ok validation => .ok validation
  | .error error => .error (.json error)

/-- Has the server check a page description. -/
def tryValidate (client : Client) (world : World) (manifest : Manifest)
    (sink : Option Log.Sink := none) : Except Error Validation × World :=
  let (result, world) := client.askFor world validationPath manifest.toJson sink
  (result.bind verdict, world)

end Client

end PageManifest
