import LogExport.Error
import LogExport.Store.KeyRange

/-! The keys under which sessions and the export lock are stored: a version, a
type of record, and for a session its id. -/

namespace LogExport

inductive RecordType where
  | session
  | activeExport
deriving DecidableEq, Repr

namespace RecordType

def id : RecordType → UInt8
  | session => 1
  | activeExport => 2

def name : RecordType → String
  | session => "Session"
  | activeExport => "ActiveExport"

def ofId (b : UInt8) : Except EncodingFault RecordType :=
  if b = 1 then .ok session
  else if b = 2 then .ok activeExport
  else .error (.recordType b)

end RecordType

namespace SessionKey

def version : UInt8 := 1

/-- What the keys of all sessions start with. -/
def head : Bytes := [version, RecordType.session.id]

/-- The key of the record that names the session holding the lock. -/
def lock : Bytes := [version, RecordType.activeExport.id]

def encode (id : String) : Bytes := head ++ Utf8.encode id

/-- The id in a session's key. -/
def decode : Bytes → Except EncodingFault String
  | v :: t :: rest =>
    if v = version then
      match RecordType.ofId t with
      | .error e => .error e
      | .ok .activeExport => .error .notSessionKey
      | .ok .session =>
        match Utf8.decode? rest with
        | some id => .ok id
        | none => .error .idNotUtf8
    else .error (.keyVersion v)
  | k => .error (.keyTooShort k.length)

/-- The keys of all sessions. -/
def range : KeyRange := .startingWith head

theorem decode_encode (id : String) : decode (encode id) = .ok id := by
  simp [encode, head, decode, RecordType.id, RecordType.ofId, Utf8.decode?_encode]

end SessionKey

/-- The id that the lock record holds. -/
def decodeLock (bs : Bytes) : Except EncodingFault String :=
  match Utf8.decode? bs with
  | some id => .ok id
  | none => .error .lockNotUtf8

end LogExport
