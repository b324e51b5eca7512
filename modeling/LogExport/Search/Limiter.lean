import LogExport.Config.Settings

/-! Pacing of searches. A search that succeeds is stretched to a least length.
One that is refused for its rate is repeated after a pause, and the pauses
grow; the caller never sees the refusal. Time is told from some beginning. -/

namespace LogExport

/-- One answer of the search service and how long it takes. -/
structure Answered (α : Type) where
  answer : Except SearchError α
  took : Duration

namespace Pacing

/-- The interval that follows: twice as long, up to the longest. -/
def nextInterval (p : Pacing) (interval : Duration) : Duration :=
  ⟨min (2 * interval.nanos) p.maxBackoff.nanos⟩

def interval (p : Pacing) : Nat → Duration
  | 0 => p.initialBackoff
  | n + 1 => p.nextInterval (p.interval n)

def longest (interval : Duration) : Duration := ⟨3 * interval.nanos / 2⟩

/-- A pause is drawn from within half its interval around it. -/
def Near (interval wait : Duration) : Prop :=
  interval.nanos ≤ 2 * wait.nanos ∧ 2 * wait.nanos ≤ 3 * interval.nanos

instance (a b : Duration) : Decidable (Near a b) :=
  inferInstanceAs (Decidable (a.nanos ≤ 2 * b.nanos ∧ 2 * b.nanos ≤ 3 * a.nanos))

end Pacing

def Duration.after (now span : Duration) : Duration := ⟨now.nanos + span.nanos⟩

/-- When cancellation ends a sleep from `now` on: if it comes while there is still
time to sleep. What comes just at the end may win or lose. -/
def cutSleep? (cancelAt : Option Duration) (wins : Bool) (now span : Duration) :
    Option Duration :=
  match cancelAt with
  | some c =>
    if 0 < span.nanos ∧ c < now.after span then some ⟨max now.nanos c.nanos⟩
    else if c ≤ now.after span ∧ wins then some (now.after span)
    else none
  | none => none

structure Limiter where
  pacing : Pacing
  /-- The pause drawn for an interval, by how often chance was asked before. -/
  draw : Nat → Duration → Duration
  /-- Whether cancellation wins over the end of a sleep. -/
  wins : Nat → Bool

structure PacedCall (ρ : Type) where
  request : ρ
  begun : Duration
  cancelAt : Option Duration

/-- Where a call stands when it asks the service. -/
structure Attempt where
  now : Duration
  interval : Duration
  chances : Nat
deriving DecidableEq, Repr

structure PacedRun (α ρ : Type) where
  result : Except SearchError α
  stop : Duration
  asked : List (Duration × ρ)
  /-- How much the counters of requests and of refusals have grown. -/
  requests : Nat
  limited : Nat
  waits : List Duration
  /-- The answers that were not asked for. -/
  left : List (Answered α)
  chances : Nat

namespace PacedRun

variable {α ρ : Type}

def calls (r : PacedRun α ρ) : Nat := r.asked.length

def ended (result : Except SearchError α) (stop : Duration) (left : List (Answered α))
    (chances : Nat) : PacedRun α ρ :=
  { result, stop, asked := [], requests := 0, limited := 0, waits := [], left, chances }

def called (now : Duration) (request : ρ) (r : PacedRun α ρ) : PacedRun α ρ :=
  { r with asked := (now, request) :: r.asked, requests := r.requests + 1 }

/-- One more refusal and the pause after it, before all else. -/
def refused (wait : Duration) (r : PacedRun α ρ) : PacedRun α ρ :=
  { r with limited := r.limited + 1, waits := wait :: r.waits }

end PacedRun

namespace Limiter

variable {α ρ : Type}

def fresh (l : Limiter) (begun : Duration) (chances : Nat) : Attempt :=
  ⟨begun, l.pacing.initialBackoff, chances⟩

/-- The next attempt, after a refusal that took some time and a whole pause. -/
def resume (l : Limiter) (t : Attempt) (took : Duration) : Attempt :=
  { now := (t.now.after took).after (l.draw t.chances t.interval)
    interval := l.pacing.nextInterval t.interval
    chances := t.chances + 1 }

/-- A page that took some time is held back until the least length has passed. -/
def page (l : Limiter) (c : PacedCall ρ) (t : Attempt) (took : Duration) (events : α)
    (left : List (Answered α)) : PacedRun α ρ :=
  let came := t.now.after took
  if l.pacing.delay < took then .ended (.ok events) came left t.chances
  else
    let rest : Duration := ⟨l.pacing.delay.nanos - took.nanos⟩
    match cutSleep? c.cancelAt (l.wins t.chances) came rest with
    | some stop => .ended (.error .cancelled) stop left (t.chances + 1)
    | none => .ended (.ok events) (came.after rest) left (t.chances + 1)

/-- A search over the service's next answers; after those come blank pages at
once. -/
def search (l : Limiter) (c : PacedCall ρ) (blank : α) (t : Attempt) :
    List (Answered α) → PacedRun α ρ
  | [] => (l.page c t ⟨0⟩ blank []).called t.now c.request
  | a :: rest =>
    let r : PacedRun α ρ :=
      match a.answer with
      | .ok events => l.page c t a.took events rest
      | .error (.rateExceeded _) =>
        let wait := l.draw t.chances t.interval
        let r : PacedRun α ρ :=
          match cutSleep? c.cancelAt (l.wins t.chances) (t.now.after a.took) wait with
          | some stop => .ended (.error .cancelled) stop rest (t.chances + 1)
          | none => l.search c blank (l.resume t a.took) rest
        r.refused wait
      | .error e => .ended (.error e) (t.now.after a.took) rest t.chances
    r.called t.now c.request

def call (l : Limiter) (c : PacedCall ρ) (blank : α) (chances : Nat)
    (answers : List (Answered α)) : PacedRun α ρ :=
  l.search c blank (l.fresh c.begun chances) answers

/-- Calls one after the other, each with the answers and the chances that those
before it have left. -/
def series (l : Limiter) (blank : α) :
    Nat → List (Answered α) → List (PacedCall ρ) → List (PacedRun α ρ)
  | _, _, [] => []
  | chances, answers, c :: cs =>
    let r := l.call c blank chances answers
    r :: l.series blank r.chances r.left cs

end Limiter

abbrev Paced (α : Type) := PacedRun α Unit

/-- A paced search that begins at `now` over the service's next answers, for the
intervals that are given, with the longest pauses that may be drawn, and cancelled
only before the end of a sleep. -/
def pacedSearch {α : Type} (p : Pacing) (intervals : Nat → Duration) (cancelAt : Option Duration)
    (blank : α) (i : Nat) (now : Duration) (answers : List (Answered α)) : Paced α :=
  Limiter.call ⟨p, fun k _ => Pacing.longest (intervals k), fun _ => false⟩ ⟨(), now, cancelAt⟩
    blank i answers

end LogExport
