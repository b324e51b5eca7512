import LogExport.Config.Read
import LogExport.Search.Url
import LogExport.Server.Arguments
import LogExport.Server.LogFilter
import LogExport.Service.Calls
import LogExport.Store.Disk

/-! How the server program comes to serve, step by step, and how it ends. What it
needs of its surroundings is given to it. -/

namespace LogExport

/-- What is said of settings that are allowed but risky. -/
inductive Warning where
  /-- Sessions are lost when the program ends. -/
  | volatileSessions
  /-- Everybody may call. -/
  | openToAll
deriving DecidableEq, Repr

namespace Warning

def text : Warning → String
  | volatileSessions => "session store is not durable, interrupted exports cannot be restored"
  | openToAll => "no allowed users configured, every caller is treated as '" ++ anonymous ++ "'"

def source : Warning → String
  | volatileSessions => "export_server"
  | openToAll => "export::service"

end Warning

/-- A step without which the program gives up. -/
inductive Step where
  | loadSettings
  | acceptSettings
  | openSessions
  | openFiles
  | createSearch
  | startService
deriving DecidableEq, Repr

def Step.failure : Step → String
  | loadSettings => "Failed to load config"
  | acceptSettings => "Invalid config"
  | openSessions => "Failed to open session storage"
  | openFiles => "Failed to open file store"
  | createSearch => "Failed to create search client"
  | startService => "Failed to start export service"

inductive Ending where
  | usage (f : UsageFault)
  | gaveUp (s : Step) (e : Error)
  | stopped (e : Error)
  | served
deriving DecidableEq, Repr

def Ending.exitCode : Ending → Nat
  | usage f => f.exitCode
  | gaveUp _ _ => 101
  | stopped _ => 1
  | served => 0

structure Host (m : Type → Type) where
  readFile : String → m (Option String)
  openSessions : SessionPlace → m (Except StorageError OpenRecords)
  openFiles : ObjectPlace → m (Except StorageError ObjectStore)
  warn : Warning → m Unit
  /-- Serves on a port until told to stop. -/
  serve : ServiceSettings → Engine → Nat → m (Except Error Unit)

variable {m : Type → Type} [Monad m]

def attempt {α : Type} (s : Step) (r : Except Error α) : ExceptT Ending m α :=
  match r with
  | .ok a => return a
  | .error e => throw (.gaveUp s e)

/-- From the arguments to the end. -/
def Host.launch (h : Host m) (now : Instant) (env : String → Option String) (args : List String) :
    m Ending := do
  let r ← go.run
  match r with
  | .ok _ => return .served
  | .error e => return e
where
  go : ExceptT Ending m Unit := do
    let args ← ExceptT.mk (pure ((Arguments.parse env args).mapError .usage))
    let text ← h.readFile args.config
    let settings ← attempt .loadSettings ((ServiceSettings.load text).mapError .config)
    let _ ← attempt .acceptSettings (settings.validate.mapError .config)
    if !settings.sessions.isDurable then h.warn .volatileSessions
    let sessions ← h.openSessions settings.sessions
    let sessions ← attempt .openSessions (sessions.mapError .ofStorage)
    let files ← h.openFiles settings.files
    let _ ← attempt .openFiles (files.mapError .ofStorage)
    attempt .createSearch ((checkSearchUrl settings.search.url).mapError .search)
    if settings.engine.allowedUsers.isEmpty then h.warn .openToAll
    let (engine, _) := Engine.create settings.engine { records := sessions.records } now
      { linkBase := settings.engine.urlBase }
    let engine ← attempt .startService engine
    let served ← h.serve settings engine args.port
    match served with
    | .ok _ => return ()
    | .error e => throw (.stopped e)

/-- Surroundings that are described: a disk, and the ports that are in use. -/
structure Scene where
  home : Place
  disk : Disk := {}
  busy : List Nat := []
  warnings : List Warning := []

def Scene.host : Host (StateM Scene) where
  readFile path := do
    let s ← get
    return (s.disk.tree.read? s.home path).bind fun c => Utf8.decode? c.bytes
  openSessions p := do
    let s ← get
    let (r, disk) := p.openRecords s.home s.disk
    set { s with disk }
    return r
  openFiles p := do
    let s ← get
    let (r, tree) := p.openStore s.home s.disk.tree
    set { s with disk := { s.disk with tree } }
    return r
  warn w := modify fun s => { s with warnings := s.warnings ++ [w] }
  serve _ _ port := do
    if (← get).busy.contains port then return .error (.internal (.binding port)) else return .ok ()

end LogExport
