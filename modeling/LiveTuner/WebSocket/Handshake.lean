import LiveTuner.Text.Utf8
import LiveTuner.Url

/-!
# Opening a connection

A connection begins with a request in the form of a web page's, to which the server answers that it
changes over to frames. Both end with an empty line.

## Main definitions

* `WebSocket.address` — the host to ask and the service there
* `WebSocket.request` — the request to change over
* `WebSocket.splitAnswer`, `WebSocket.agrees` — the answer of the server
-/

namespace LiveTuner.WebSocket

/-! ### Where to -/

/-- The host of a URL, without brackets, and the number of the service, if it is one. -/
def splitHost (authority : List Char) : List Char × Option Nat :=
  let host := (authority.reverse.takeWhile (· != '@')).reverse
  match host with
  | '[' :: rest =>
    (rest.takeWhile (· != ']'),
      (String.ofList ((rest.dropWhile (· != ']')).drop 2)).toNat?)
  | _ => (host.takeWhile (· != ':'), (String.ofList ((host.dropWhile (· != ':')).drop 1)).toNat?)

/-- The number of the service of a scheme. -/
def schemeService : Nat := 80

/-- The host to ask and the number of the service there. -/
def address (url : Url) : String × Nat :=
  let (host, service) := splitHost url.authority
  (String.ofList host, (service.filter (· < 0x1_0000)).getD schemeService)

/-! ### The request -/

/-- The digits of base 64. -/
def base64Digits : List Char :=
  "ABCDEFGHIJKLMNOPQRSTUVWXYZabcdefghijklmnopqrstuvwxyz0123456789+/".toList

/-- A digit of base 64. -/
def base64Digit (n : Nat) : Char := (base64Digits[n % 64]?).getD 'A'

/-- Octets in base 64: four digits for three octets. -/
def base64 : List UInt8 → List Char
  | [] => []
  | [a] => [base64Digit (a.toNat >>> 2), base64Digit (a.toNat <<< 4), '=', '=']
  | [a, b] =>
    let n := a.toNat * 256 + b.toNat
    [base64Digit (n >>> 10), base64Digit (n >>> 4), base64Digit (n <<< 2), '=']
  | a :: b :: c :: rest =>
    let n := (a.toNat * 256 + b.toNat) * 256 + c.toNat
    base64Digit (n >>> 18) :: base64Digit (n >>> 12) :: base64Digit (n >>> 6) :: base64Digit n
      :: base64 rest

/-- The request to change over, with sixteen octets that no other request has. -/
def request (url : Url) (nonce : List UInt8) : List UInt8 :=
  let target := match url.target with
    | '/' :: rest => '/' :: rest
    | rest => '/' :: rest
  let host := (url.authority.reverse.takeWhile (· != '@')).reverse
  let lines := [
    "GET " ++ String.ofList target ++ " HTTP/1.1",
    "Host: " ++ String.ofList host,
    "Connection: Upgrade",
    "Upgrade: websocket",
    "Sec-WebSocket-Version: 13",
    "Sec-WebSocket-Key: " ++ String.ofList (base64 nonce)]
  Utf8.encode (String.join (lines.map (· ++ "\r\n")) ++ "\r\n").toList

/-! ### The answer -/

/-- The head of an answer, up to its empty line, and what comes after it; none if it has not come
yet. -/
def splitAnswer : List UInt8 → Option (List UInt8 × List UInt8)
  | 0x0d :: 0x0a :: 0x0d :: 0x0a :: rest => some ([], rest)
  | [] => none
  | b :: rest => (splitAnswer rest).map fun (head, rest) => (b :: head, rest)

/-- Whether the head of an answer says that the server changes over. -/
def agrees (head : List UInt8) : Bool := (Utf8.encode "HTTP/1.1 101 ".toList).isPrefixOf head

example : base64 [0x4d, 0x61] = "TWE=".toList := by decide

example : splitAnswer [0x61, 0x0d, 0x0a, 0x0d, 0x0a, 0x62] = some ([0x61], [0x62]) := by decide

end LiveTuner.WebSocket
