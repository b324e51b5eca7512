import LogExport.Rehearsal.Stage
import LogExport.Server.Launch
import LogExport.Server.Wire
import Std.Async.DNS
import Std.Async.Signal
import Std.Async.TCP
import Std.Time.DateTime.Timestamp

/-! The server program. It listens on its port, asks the search service for what
the pipelines wait for, and writes files and session records to directories.
Buckets are not written. -/

namespace LogExport

open Std.Async

def wallClock : IO Instant := do
  let t ← Std.Time.Timestamp.now
  return .ofNanos t.toNanosecondsSinceUnixEpoch.val

/-! ### Directories -/

def pathOf (p : Place) : String := "/".intercalate p

/-- The file with the records of a database. -/
def recordsFile (s : DatabaseSettings) : Option String :=
  match s.objects with
  | .directory root => some (root ++ "/" ++ ObjectPath.key s.path ++ "/records")
  | _ => none

def saveRecords (file : String) (r : Records) : IO Unit :=
  IO.FS.writeFile file (String.join (r.entries.map fun (k, v) =>
    let hex (bs : Bytes) := String.join (bs.map (Digits.hexByte false))
    hex k ++ " " ++ hex v ++ "\n"))

def loadRecords (file : String) : IO Records := do
  let lines := pieces '\n' (← IO.FS.readFile file).toList
  return lines.foldl (fun r line =>
    match (pieces ' ' line).map Digits.bytes? with
    | [some k, some v] => r.insert k v
    | _ => r) .empty

/-- The directory above a path. -/
def above (path : String) : String :=
  joinPieces '/' (pieces '/' path.toList).dropLast |> String.ofList

def openSessions (p : SessionPlace) : IO (Except StorageError OpenRecords) := do
  match p with
  | .memory => return .ok {}
  | .database s =>
    match recordsFile s with
    | none => return .ok {}
    | some file =>
      try
        IO.FS.createDirAll (above file)
      catch _ => return .error (.storage ("cannot create " ++ s.objects.location))
      try
        return .ok { records := ← loadRecords file, place := some [file] }
      catch _ => return .ok { place := some [file] }

def openFiles (p : ObjectPlace) : IO (Except StorageError ObjectStore) := do
  match p with
  | .memory => return .ok (.memory { linkBase := "" })
  | .bucket _ _ => return .ok .bucket
  | .directory path =>
    try
      IO.FS.createDirAll path
      return .ok (.directory [path])
    catch _ => return .error (.storage ("cannot create " ++ p.location))

/-- Where the engine's records and files go. -/
structure Outlet where
  records : Option String
  files : Option String

/-- Writes what has changed since the last time. -/
def Outlet.flush (o : Outlet) (last : IO.Ref Engine) (e : Engine) : IO Unit := do
  let before ← last.swap e
  match o.records with
  | some file =>
    if before.backend.records.entries ≠ e.backend.records.entries then
      saveRecords file e.backend.records
  | none => pure ()
  match o.files with
  | some root =>
    for (k, c) in e.files.list do
      if before.files.objects.get? k ≠ some c then
        let path := root ++ "/" ++ Utf8.lossy k
        IO.FS.createDirAll (above path)
        IO.FS.writeBinFile path ⟨c.bytes.toArray⟩
  | none => pure ()

/-! ### Connections -/

/-- Receives until the bytes suffice or the connection ends. -/
partial def receive (c : TCP.Socket.Client) (enough : Bytes → Bool) (got : Bytes) : IO Bytes := do
  if enough got then return got
  match ← (c.recv? 65536).block with
  | some more => receive c enough (got ++ more.toList)
  | none => return got

/-- One search over a connection of its own. -/
def exchange (a : SearchAddress) (r : SearchRequest) : IO Exchange := do
  try
    let found ← (DNS.getAddrInfo a.host (toString a.port)).block
    match found.toList with
    | Std.Net.IPAddr.v4 ip :: _ =>
      let c ← TCP.Socket.Client.mk
      (c.connect (.v4 ⟨ip, UInt16.ofNat a.port⟩)).block
      (c.send ⟨(a.request r).toArray⟩).block
      return .ofBytes (← receive c (fun _ => false) [])
    | _ => return .refused
  catch _ => return .refused

/-- Answers the request of one connection. -/
def converse (c : TCP.Socket.Client) (answer : HttpRequest → IO HttpResponse) : IO Unit := do
  let got ← receive c (fun bs => (HttpRequest.ofBytes? bs).isSome) []
  match HttpRequest.ofBytes? got with
  | some r =>
    (c.send ⟨(← answer r).bytes.toArray⟩).block
    (c.shutdown).block
  | none => pure ()

/-! ### The server -/

/-- Searches for the request that has waited longest, after the pause that its
pacing asks for. `rejected` counts the answers in a row that came too soon. -/
partial def searchOn (a : Option SearchAddress) (stage : IO.Ref Stage) (flush : IO Unit)
    (rejected : Nat) : IO Unit := do
  let s ← stage.get
  if s.engine.stopping then return ()
  let next := s.waiting.head?.bind fun seat => ((s.download? seat).bind Download.request?)
  match next with
  | none =>
    IO.sleep 20
    searchOn a stage flush 0
  | some r =>
    let x ← match a with
      | some a => exchange a r
      | none => pure .refused
    let page := HttpSearch.search false x
    let tooSoon := match page with
      | .error (.rateExceeded _) => true
      | _ => false
    let pacing := s.source.pacing
    IO.sleep (UInt32.ofNat ((pacing.map fun p =>
      if tooSoon then min (p.initialBackoff.millis * 2 ^ rejected) p.maxBackoff.millis
      else p.delay.millis).getD 0))
    let now ← wallClock
    stage.modify fun s =>
      ({ s with engine := { s.engine with now } }.release fun s seat path _ =>
        s.deliver seat path (some page)).settle
    flush
    searchOn a stage flush (if tooSoon then rejected + 1 else 0)

partial def acceptOn (listener : TCP.Socket.Server) (answer : HttpRequest → IO HttpResponse) :
    IO Unit := do
  let c ← (listener.accept).block
  let _ ← IO.asTask (try converse c answer catch _ => pure ())
  acceptOn listener answer

/-- Serves on a port until a signal comes. -/
def serveOn (settings : ServiceSettings) (outlet : Outlet) (e : Engine) (port : Nat) :
    IO (Except Error Unit) := do
  let source : Source := { permits := some 0, pacing := some settings.search.pacing }
  let stage ← IO.mkRef ({ engine := e, source } : Stage)
  let last ← IO.mkRef e
  let flush : IO Unit := do outlet.flush last (← stage.get).engine
  let listener ← TCP.Socket.Server.mk
  try
    listener.bind (.v4 ⟨.ofParts 0 0 0 0, UInt16.ofNat port⟩)
    listener.listen 128
  catch _ => return .error (.internal (.binding port))
  let answer (r : HttpRequest) : IO HttpResponse := do
    let now ← wallClock
    let response ← stage.modifyGet fun s =>
      { s with engine := { s.engine with now } }.answerHttp r
    flush
    return response.getD (.ofText 500 "")
  let _ ← IO.asTask (acceptOn listener answer)
  let searching ← IO.asTask (searchOn (SearchAddress.ofUrl? settings.search.url) stage flush 0)
  let int ← (← Signal.Waiter.mk .sigint false).wait
  let term ← (← Signal.Waiter.mk .sigterm false).wait
  let _ ← IO.waitAny [int.map fun _ => (), term.map fun _ => ()]
  stage.modify fun s => s.shutdown.2
  let _ ← IO.wait searching
  flush
  return .ok ()

/-- The surroundings of a real program. -/
def host (filter : LogFilter) : Host IO where
  readFile path := do
    try return some (← IO.FS.readFile path) catch _ => return none
  openSessions := openSessions
  openFiles := openFiles
  warn w := do if filter.lets w.source .warn then IO.eprintln ("WARN " ++ w.text)
  serve s e port := do
    let records := match s.sessions with
      | .database d => recordsFile d
      | .memory => none
    let files := match s.files with
      | .directory path => some path
      | _ => none
    serveOn s ⟨records, files⟩ e port

def usage : String :=
  "Mass log export service\n\nUsage: export-server [OPTIONS] --config <CONFIG>\n\nOptions:\n" ++
  "  -c, --config <CONFIG>  Path to the YAML configuration file [env: EXPORT_CONFIG_FILE=]\n" ++
  "  -p, --port <PORT>      Port to listen on [env: EXPORT_PORT=] [default: 8080]\n" ++
  "  -h, --help             Print help"

end LogExport

open LogExport

def main (args : List String) : IO UInt32 := do
  let config ← IO.getEnv "EXPORT_CONFIG_FILE"
  let port ← IO.getEnv "EXPORT_PORT"
  let env (name : String) : Option String :=
    if name = "EXPORT_CONFIG_FILE" then config else if name = "EXPORT_PORT" then port else none
  let filter := LogFilter.ofSetting (← IO.getEnv "RUST_LOG")
  let ending ← (host filter).launch (← wallClock) env args
  match ending with
  | .usage .helpWanted => IO.println usage
  | .usage f => if f.showsUsage then IO.eprintln usage
  | .gaveUp s e => IO.eprintln (s.failure ++ ": " ++ e.text)
  | .stopped e => if filter.lets "export_server" .error then IO.eprintln ("ERROR server stopped: " ++ e.text)
  | .served => pure ()
  return UInt32.ofNat ending.exitCode
