import LogExport.Config.Settings
import LogExport.Pipeline.Download

/-! A search service that follows a script: fixed events, events made up for
every window, and faults that are used up. -/

namespace LogExport

/-- A fault for the requests that it matches. Without an error the one who asks
dies. -/
structure ScriptedFault where
  error : Option SearchError
  start : Option Instant
  offset : Option Nat
  times : Nat

namespace ScriptedFault

def hits (f : ScriptedFault) (r : SearchRequest) : Bool :=
  0 < f.times && (f.start.isNone || f.start == some r.start) &&
    (f.offset.isNone || f.offset == some r.offset)

end ScriptedFault

structure Source where
  events : List (Instant × Event) := []
  perWindow : Nat := 0
  /-- The most events that are returned at once. -/
  pageCap : Option Nat := none
  ignoreLimit : Bool := false
  faults : List ScriptedFault := []
  /-- How many requests are let through, if they are counted. -/
  permits : Option Nat := none
  pacing : Option Pacing := none

namespace Source

def madeUp (r : SearchRequest) (n : Nat) : Event :=
  .object [("from", r.start.json), ("n", .nat n), ("to", r.stop.json)]

def matching (s : Source) (r : SearchRequest) : List Event :=
  (s.events.filter fun e => decide (r.start ≤ e.1) && decide (e.1 < r.stop)).map (·.2) ++
    (List.range s.perWindow).map (madeUp r)

def page (s : Source) (r : SearchRequest) : List Event :=
  let rest := (s.matching r).drop r.offset
  if s.ignoreLimit then rest
  else match s.pageCap with
    | some cap => rest.take (min r.limit cap)
    | none => rest.take r.limit

/-- Uses up one use of the first fault that hits. -/
def useFault (r : SearchRequest) : List ScriptedFault → Option (Option SearchError) × List ScriptedFault
  | [] => (none, [])
  | f :: fs =>
    if f.hits r then (some f.error, { f with times := f.times - 1 } :: fs)
    else
      let (e, fs) := useFault r fs
      (e, f :: fs)

/-- The answer to a request, `none` if the one who asks dies. -/
def answer (s : Source) (r : SearchRequest) :
    Option (Except SearchError (List Event)) × Source :=
  let (fault, faults) := useFault r s.faults
  let s := { s with faults }
  match fault with
  | some none => (none, s)
  | some (some e) => (some (.error e), s)
  | none => (some (.ok (s.page r)), s)

end Source

end LogExport
