import LogExport.Session.Codec

/-! Requests to the search service. -/

namespace LogExport

/-- One page of the events of a window. -/
structure SearchRequest where
  sessionId : String
  query : String
  start : Instant
  stop : Instant
  limit : Nat
  offset : Nat
deriving DecidableEq, Repr

namespace SearchRequest

def json (r : SearchRequest) : Json :=
  .object
    [ ("sessionId", .string r.sessionId),
      ("query", .string r.query),
      ("from", r.start.json),
      ("to", r.stop.json),
      ("limit", .nat r.limit),
      ("offset", .nat r.offset) ]

def text (r : SearchRequest) : String := r.json.text

end SearchRequest

end LogExport
