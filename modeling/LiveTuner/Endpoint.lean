import LiveTuner.Report
import LiveTuner.Url

/-!
# Endpoints

The user names the server by an endpoint, which may be written as a web page or as a host alone. A
connection is opened to the URL that the endpoint stands for.

## Main definitions

* `endpointUrl` — the URL that an endpoint stands for
* `ConnectFault` — why there is no connection
-/

namespace LiveTuner

/-- The URL that an endpoint stands for: a scheme of the web becomes the one of sockets, and a text
without either gets one in front. Schemes are those in lower case at the very start. -/
def endpointUrl (endpoint : String) : String :=
  let text := endpoint.toList
  let startsWith (scheme : String) : Bool := scheme.toList.isPrefixOf text
  if startsWith "https://" then "wss://" ++ String.ofList (text.drop 8)
  else if startsWith "http://" then "ws://" ++ String.ofList (text.drop 7)
  else if startsWith "ws://" || startsWith "wss://" then endpoint
  else "ws://" ++ endpoint

/-- Why there is no connection. -/
inductive ConnectFault where
  /-- The text is no URL. -/
  | invalid (url : String) (fault : UrlFault)
  /-- Nobody answers at the URL, for the reason that the network gives. -/
  | failed (url : String) (reason : String)
deriving DecidableEq, Repr

/-- The report of a fault. -/
def ConnectFault.report : ConnectFault → Report
  | .invalid url fault => ⟨s!"invalid WebSocket URL: {url}", fault.causes⟩
  | .failed url reason => ⟨s!"WebSocket connect to {url} failed", ["IO error: " ++ reason, reason]⟩

/-- The parts of the URL to connect to. -/
def connectUrl (url : String) : Except ConnectFault Url :=
  match Url.parse url.toList with
  | .ok parts => .ok parts
  | .error fault => .error (.invalid url fault)

example : endpointUrl "http://box/http://x" = "ws://box/http://x" := by decide

end LiveTuner
