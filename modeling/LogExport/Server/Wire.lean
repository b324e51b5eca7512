import LogExport.Search.Http
import LogExport.Server.Answer

/-! HTTP messages as bytes: the requests that the server gets, its answers, and
searches that it sends. Each message is the only one of its connection. -/

namespace LogExport

/-- The first line of a message and the fields after it, under lower-case names. -/
structure MessageHead where
  line : String
  fields : List (String × String)
deriving DecidableEq, Repr

namespace MessageHead

/-- The head of a message and what follows the empty line after it. -/
def split? : Bytes → Bytes → Option (Bytes × Bytes)
  | _, [] => none
  | acc, 13 :: 10 :: 13 :: 10 :: rest => some (acc.reverse, rest)
  | acc, b :: bs => split? (b :: acc) bs

def field (line : String) : String × String :=
  let name := line.toList.takeWhile (· ≠ ':')
  let value := (line.toList.drop (name.length + 1)).dropWhile (· = ' ')
  (String.ofList (name.map Char.toLower), String.ofList value)

def ofBytes (bs : Bytes) : MessageHead :=
  let lines := (pieces '\n' (Utf8.lossy bs).toList).map fun l => String.ofList (l.filter (· ≠ '\r'))
  ⟨lines.headD "", (lines.drop 1).map field⟩

def field? (h : MessageHead) (name : String) : Option String := h.fields.lookup name

/-- The length of the body, if it is told. -/
def bodySize? (h : MessageHead) : Option Nat :=
  (h.field? "content-length").bind fun s =>
    if !s.isEmpty && s.toList.all Digits.isDigit then some (Digits.number s.toList) else none

/-- The words of the first line. -/
def words (h : MessageHead) : List String := (pieces ' ' h.line.toList).map String.ofList

end MessageHead

/-- A request, once all its bytes are there. -/
def HttpRequest.ofBytes? (bs : Bytes) : Option HttpRequest := do
  let (head, body) ← MessageHead.split? [] bs
  let head := MessageHead.ofBytes head
  let size := head.bodySize?.getD 0
  if body.length < size then none
  else
    return {
      method := head.words.headD ""
      target := (head.words.drop 1).headD ""
      user := head.field? "x-user-id"
      contentType := head.field? "content-type"
      body := Utf8.lossy (body.take size) }

/-- A message with a body, after which the connection ends. -/
def message (line : String) (fields : List (String × String)) (body : String) : Bytes :=
  let fields := fields ++ [("content-length", toString (Utf8.encode body).length), ("connection", "close")]
  Utf8.encode (line ++ "\r\n" ++ String.join (fields.map fun f => f.1 ++ ": " ++ f.2 ++ "\r\n") ++
    "\r\n" ++ body)

def HttpResponse.bytes (r : HttpResponse) : Bytes :=
  let (contentType, body) :=
    match r.body with
    | .json j => ("application/json", j.text)
    | .text s => ("text/plain; charset=utf-8", s)
  message ("HTTP/1.1 " ++ HttpSearch.statusText r.status) [("content-type", contentType)] body

/-- The host, the port and the path of an address without encryption. -/
structure SearchAddress where
  host : String
  port : Nat
  target : String
deriving DecidableEq, Repr

namespace SearchAddress

def ofUrl? (url : String) : Option SearchAddress := do
  let scheme := "http://".toList
  if !scheme.isPrefixOf url.toList then none
  let rest := url.toList.drop scheme.length
  let authority := rest.takeWhile fun c => c ≠ '/' && c ≠ '?'
  let target := String.ofList (rest.drop authority.length)
  let host := authority.takeWhile (· ≠ ':')
  let port := authority.drop (host.length + 1)
  if host.isEmpty || !port.all Digits.isDigit then none
  return {
    host := .ofList host
    port := if port.isEmpty then 80 else Digits.number port
    target := if target.startsWith "/" then target else "/" ++ target }

/-- A search as it is sent. -/
def request (a : SearchAddress) (r : SearchRequest) : Bytes :=
  message (HttpSearch.method ++ " " ++ a.target ++ " HTTP/1.0")
    [("host", a.host), ("content-type", HttpSearch.contentType)] r.text

end SearchAddress

/-- What came back, when the connection has ended. -/
def Exchange.ofBytes (bs : Bytes) : Exchange :=
  match MessageHead.split? [] bs with
  | none => .refused
  | some (head, body) =>
    let head := MessageHead.ofBytes head
    let status := Digits.number (((head.words.drop 1).headD "").toList)
    let whole := head.bodySize?.all fun n => n ≤ body.length
    .answered status (if whole then some (Utf8.lossy body) else none)

end LogExport
