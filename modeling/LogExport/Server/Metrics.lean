import LogExport.Pipeline.Engine
import LogExport.Server.Route

/-! Counters of HTTP requests, and the text in which all counters are shown. -/

namespace LogExport

/-- A count of requests with one method, route and status. -/
structure ResponseCount where
  verb : Verb
  endpoint : String
  status : Nat
  count : Nat
deriving DecidableEq, Repr

structure HttpCounters where
  responses : List ResponseCount := []
  /-- Requests that are being answered. -/
  inFlight : Nat := 0
deriving Inhabited

namespace HttpCounters

def addTo (verb : Verb) (endpoint : String) (status : Nat) : List ResponseCount → List ResponseCount
  | [] => [⟨verb, endpoint, status, 1⟩]
  | r :: rs =>
    if r.verb = verb ∧ r.endpoint = endpoint ∧ r.status = status then
      { r with count := r.count + 1 } :: rs
    else r :: addTo verb endpoint status rs

def entered (c : HttpCounters) : HttpCounters := { c with inFlight := c.inFlight + 1 }

def answered (c : HttpCounters) (verb : Verb) (endpoint : String) (status : Nat) : HttpCounters :=
  { responses := addTo verb endpoint status c.responses, inFlight := c.inFlight - 1 }

/-- Methods and routes, each once, with the number of their requests. -/
def byRoute : List ResponseCount → List ResponseCount
  | [] => []
  | r :: rs =>
    match byRoute rs with
    | later =>
      match later.find? fun x => x.verb = r.verb ∧ x.endpoint = r.endpoint with
      | some _ => later.map fun x =>
          if x.verb = r.verb ∧ x.endpoint = r.endpoint then { x with count := x.count + r.count } else x
      | none => r :: later

end HttpCounters

/-! ### Their text -/

/-- One family of numbers: its name, its kind, what it is, and a line for each
number in it. -/
structure Family where
  name : String
  kind : String
  help : String
  lines : List String

namespace Family

def text (f : Family) : List String :=
  ("# HELP " ++ f.name ++ " " ++ f.help ++ ".") :: ("# TYPE " ++ f.name ++ " " ++ f.kind) :: f.lines

def counter (name help : String) (n : Nat) : Family :=
  ⟨name, "counter", help, [name ++ "_total " ++ toString n]⟩

def gauge (name help : String) (n : Nat) : Family :=
  ⟨name, "gauge", help, [name ++ " " ++ toString n]⟩

end Family

/-- Labels in braces. -/
def labelled (name : String) (labels : List (String × String)) (n : Nat) : String :=
  let texts := labels.map fun (k, v) => k ++ "=\"" ++ v ++ "\""
  name ++ "\x7b" ++ ",".intercalate texts ++ "\x7d " ++ toString n

def HttpCounters.families (c : HttpCounters) : List Family :=
  [ ⟨"http_requests", "counter", "HTTP requests answered, by route and status",
      c.responses.map fun r =>
        labelled "http_requests_total"
          [("method", r.verb.label), ("endpoint", r.endpoint), ("status", toString r.status)] r.count⟩,
    ⟨"http_request_duration_seconds", "histogram", "HTTP request latency in seconds",
      (HttpCounters.byRoute c.responses).map fun r =>
        labelled "http_request_duration_seconds_count"
          [("method", r.verb.label), ("endpoint", r.endpoint)] r.count⟩,
    .gauge "http_requests_in_flight" "HTTP requests currently being handled" c.inFlight ]

def Counters.families (c : Counters) : List Family :=
  [ .counter "export_started" "Total number of exports started or restored" c.started,
    .counter "export_finished" "Total number of exports that finished" c.finished,
    .counter "export_failed" "Total number of exports that failed" c.failed,
    .counter "export_cancelled" "Total number of exports cancelled by a caller" c.cancelled,
    .gauge "export_running" "Number of export pipelines running in this process" c.running,
    .counter "export_parts" "Total number of partitions uploaded and confirmed" c.parts,
    .counter "export_unpacked_bytes" "Total bytes of JSON lines exported before compression" c.unpacked,
    .counter "export_packed_bytes" "Total bytes uploaded after compression" c.packed,
    .counter "export_search_requests" "Total number of search pages requested" c.requests,
    .counter "export_search_rate_limited" "Total number of search requests rejected as rate exceeded"
      c.limited ]

/-- All counters, line by line. Latencies are counted and not measured. -/
def exposition (c : Counters) (h : HttpCounters) : List String :=
  (h.families ++ c.families).flatMap Family.text ++ ["# EOF"]

end LogExport
