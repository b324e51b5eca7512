import LogExport.Session.Codec
import LogExport.Session.Names

/-! What callers are shown of a session. -/

namespace LogExport

/-- A session with what follows from it and the link to its manifest. -/
structure Overview where
  session : Session
  manifestLink : String
deriving DecidableEq, Repr

namespace Overview

def json (o : Overview) : Json :=
  let s := o.session
  .object
    [ ("id", .string s.id),
      ("user", .string s.user),
      ("name", .string s.name),
      ("status", .string s.status.text),
      ("query", .string s.query),
      ("from", s.start.json),
      ("to", s.stop.json),
      ("progress", .number (.double s.progress)),
      ("partsTotal", .nat s.partCount),
      ("partsUploaded", .nat s.uploadedCount),
      ("totalSize", s.total.json),
      ("manifestLink", .string o.manifestLink),
      ("duration", .ofOption (fun d => .nat d.roundedMillis) s.duration),
      ("createdAt", s.createdAt.json),
      ("startedAt", .ofOption Instant.json s.startedAt),
      ("finishedAt", .ofOption Instant.json s.finishedAt),
      ("error", .ofOption .string s.error) ]

end Overview

end LogExport
