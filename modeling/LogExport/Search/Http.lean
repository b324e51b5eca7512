import LogExport.Error
import LogExport.Json.Reader
import LogExport.Search.Request

/-! The search service over HTTP: a page is asked for by posting the request,
and the answer holds the events. -/

namespace LogExport

inductive Exchange where
  /-- No connection. -/
  | refused
  /-- A status and the text of the body, `none` if it broke off. -/
  | answered (status : Nat) (body : Option String)
deriving Repr

namespace HttpSearch

def method : String := "POST"

def contentType : String := "application/json"

def reasons : List (Nat × String) :=
  [ (100, "Continue"), (101, "Switching Protocols"), (102, "Processing"), (200, "OK"),
    (201, "Created"), (202, "Accepted"), (203, "Non Authoritative Information"),
    (204, "No Content"), (205, "Reset Content"), (206, "Partial Content"), (207, "Multi-Status"),
    (208, "Already Reported"), (226, "IM Used"), (300, "Multiple Choices"),
    (301, "Moved Permanently"), (302, "Found"), (303, "See Other"), (304, "Not Modified"),
    (305, "Use Proxy"), (307, "Temporary Redirect"), (308, "Permanent Redirect"),
    (400, "Bad Request"), (401, "Unauthorized"), (402, "Payment Required"), (403, "Forbidden"),
    (404, "Not Found"), (405, "Method Not Allowed"), (406, "Not Acceptable"),
    (407, "Proxy Authentication Required"), (408, "Request Timeout"), (409, "Conflict"),
    (410, "Gone"), (411, "Length Required"), (412, "Precondition Failed"),
    (413, "Payload Too Large"), (414, "URI Too Long"), (415, "Unsupported Media Type"),
    (416, "Range Not Satisfiable"), (417, "Expectation Failed"), (418, "I'm a teapot"),
    (421, "Misdirected Request"), (422, "Unprocessable Entity"), (423, "Locked"),
    (424, "Failed Dependency"), (425, "Too Early"), (426, "Upgrade Required"),
    (428, "Precondition Required"), (429, "Too Many Requests"),
    (431, "Request Header Fields Too Large"), (451, "Unavailable For Legal Reasons"),
    (500, "Internal Server Error"), (501, "Not Implemented"), (502, "Bad Gateway"),
    (503, "Service Unavailable"), (504, "Gateway Timeout"), (505, "HTTP Version Not Supported"),
    (506, "Variant Also Negotiates"), (507, "Insufficient Storage"), (508, "Loop Detected"),
    (510, "Not Extended"), (511, "Network Authentication Required") ]

def statusText (status : Nat) : String :=
  toString status ++ " " ++ ((reasons.lookup status).getD "<unknown status code>")

def isBodiless (status : Nat) : Bool := status == 204 || status == 304

open Syntax in
/-- The events of an answer; it may leave them out. -/
def readEvents : Reader (List Json) :=
  readRecord ["events"] (fun _ x _ => readList (readAny (maxDepth - 2)) x) (fun _ => .ok ()) []

/-- A text without a byte order mark in front. -/
def unmarked (s : String) : String :=
  match s.toList with
  | '\uFEFF' :: cs => String.ofList cs
  | _ => s

def page : Exchange → Except SearchError (List Json)
  | .refused => .error (.request "error sending request")
  | .answered status body =>
    let body := if isBodiless status then some "" else body
    if status = 429 then .error (.rateExceeded (unmarked (body.getD "")))
    else if status / 100 = 2 then
      match body with
      | some s =>
        match Syntax.readAll readEvents s with
        | .ok events => .ok events
        | .error _ => .error (.decode "malformed answer")
      | none => .error (.decode "broken answer")
    else .error (.request ("HTTP " ++ statusText status ++ ": " ++ unmarked (body.getD "")))

/-- A search, unless it is cancelled before. -/
def search (cancelled : Bool) (x : Exchange) : Except SearchError (List Json) :=
  if cancelled then .error .cancelled else page x

end HttpSearch

end LogExport
