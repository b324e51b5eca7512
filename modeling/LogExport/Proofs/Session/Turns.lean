import Mathlib.Logic.Relation
import LogExport.Proofs.Session.Serving

/-! Callers of one store, in any order and at any time. The writers take turns:
whoever holds the write lock makes its storage calls one by one, and is done
with the batch that it writes, if it writes one. A run of the store is as good
as its answered calls, served one after the other. -/

namespace LogExport

open Access

/-- What is left of a call: reads, then one batch at most. -/
inductive Script where
  | done (a : StoreAnswer)
  | read (key : Bytes) (next : Option Bytes → Script)
  | write (batch : List Write) (a : StoreAnswer)

namespace Script

/-- The computation that a script stands for. -/
def access : Script → Access Unit
  | done a => MonadExcept.ofExcept a
  | read key next => do access (next (← Backend.read key))
  | write batch a => do
    Backend.apply batch
    MonadExcept.ofExcept a

def fault (e : Error) : Script := .done (.error e)

def load (id : String) (next : Session → Script) : Script :=
  .read (SessionKey.encode id) fun
    | some bs =>
      match Session.decode? bs with
      | some s => next s
      | none => fault (.encoding .malformed)
    | none => fault (.notFound id)

def holder (next : Option String → Script) : Script :=
  .read SessionKey.lock fun
    | some bs =>
      match decodeLock bs with
      | .ok id => next (some id)
      | .error f => fault (.encoding f)
    | none => next none

def requireFree (next : Script) : Script :=
  holder fun
    | some id => fault (.conflict (.running id))
    | none => next

def conclude (now : Instant) (id : String) (status : Status) (error : Option String) : Script :=
  load id fun s => holder fun h =>
    let release := if h = some id then [SessionStore.dropLock] else []
    if s.status.isTerminal then
      if release.isEmpty then fault (.alreadyTerminal id s.status.text)
      else .write release (.error (.alreadyTerminal id s.status.text))
    else .write (release ++ [SessionStore.putSession (s.ended status error now)]) (.ok ())

def confirm (id : String) (part : Nat) (size : Sizes) : Script :=
  load id fun s =>
    match s.uploaded[part]? with
    | none => fault (.invalidRequest (.partOutOfRange part id s.partCount))
    | some true => fault (.conflict (.confirmed part id))
    | some false => .write [SessionStore.putSession (s.confirm part size)] (.ok ())

def restore (id : String) : Script :=
  load id fun s =>
    if s.status != .start then fault (.conflict (.notRestorable id s.status.text))
    else requireFree (.write [SessionStore.putLock id] (.ok ()))

end Script

/-- The storage calls of a call, with the clock at `now`. -/
def StoreCall.script (now : Instant) : StoreCall → Script
  | start s =>
    .requireFree (.write [SessionStore.putSession s, SessionStore.putLock s.id] (.ok ()))
  | cancel id => .conclude now id .cancel none
  | fail id message => .conclude now id .fail (some message)
  | finish id => .conclude now id .finish none
  | confirm id part size => .confirm id part size
  | lock id => .requireFree (.write [SessionStore.putLock id] (.ok ()))
  | restore id => .restore id
  | unlock => .write [SessionStore.dropLock] (.ok ())

namespace Script

theorem access_write (batch : List Write) : (write batch (.ok ())).access = Backend.apply batch :=
  bind_pure (m := Access) (Backend.apply batch)

theorem access_load (id : String) (next : Session → Script) :
    (load id next).access = (SessionStore.load id >>= fun s => (next s).access) := by
  rw [SessionStore.load, bind_assoc]
  refine bind_congr fun o => ?_
  cases o with
  | none => rfl
  | some bs =>
    simp only [SessionStore.decode]
    cases Session.decode? bs <;> rfl

theorem access_holder (next : Option String → Script) :
    (holder next).access = (SessionStore.holder >>= fun h => (next h).access) := by
  rw [SessionStore.holder, bind_assoc]
  refine bind_congr fun o => ?_
  cases o with
  | none => rfl
  | some bs => cases hd : decodeLock bs <;> simp only [hd] <;> rfl

theorem access_requireFree (next : Script) :
    (requireFree next).access = (SessionStore.requireFree >>= fun _ => next.access) := by
  rw [requireFree, access_holder, SessionStore.requireFree, bind_assoc]
  refine bind_congr fun h => ?_
  cases h <;> rfl

theorem access_conclude (now : Instant) (id : String) (status : Status) (error : Option String) :
    (conclude now id status error).access = SessionStore.conclude now id status error := by
  rw [conclude, access_load, SessionStore.conclude]
  refine bind_congr fun s => ?_
  rw [access_holder]
  refine bind_congr fun h => ?_
  dsimp only
  cases s.status.isTerminal with
  | false => exact access_write _
  | true => by_cases held : h = some id <;> simp only [held, if_true, if_false] <;> rfl

theorem access_confirm (id : String) (part : Nat) (size : Sizes) :
    (confirm id part size).access = SessionStore.confirm id part size := by
  rw [confirm, access_load, SessionStore.confirm]
  refine bind_congr fun s => ?_
  cases s.uploaded[part]? with
  | none => rfl
  | some flag =>
    cases flag with
    | true => rfl
    | false => exact access_write _

theorem access_restore (id : String) :
    (restore id).access = (SessionStore.lockForRestore id >>= fun _ => pure ()) := by
  rw [restore, access_load, SessionStore.lockForRestore, bind_assoc]
  refine bind_congr fun s => ?_
  cases s.status != .start with
  | true => rfl
  | false =>
    simp only [Bool.false_eq_true, if_false, bind_assoc, pure_bind]
    rw [access_requireFree, access_write]
    refine bind_congr fun _ => ?_
    exact (bind_pure (m := Access) _).symm

/-- The storage calls of a call make up the computation behind it. -/
theorem access_script (now : Instant) (c : StoreCall) : (c.script now).access = c.access now := by
  cases c with
  | start s => exact (access_requireFree _).trans (bind_congr fun _ => access_write _)
  | cancel id => exact access_conclude now id .cancel none
  | fail id message => exact access_conclude now id .fail (some message)
  | finish id => exact access_conclude now id .finish none
  | confirm id part size => exact access_confirm id part size
  | lock id => exact (access_requireFree _).trans (bind_congr fun _ => access_write _)
  | restore id => exact access_restore id
  | unlock => exact access_write _

/-- What a script comes to on records that nobody else changes. -/
def serve (r : Records) : Script → StoreAnswer × Records
  | done a => (a, r)
  | read key next => serve r (next (r.get? key))
  | write batch a => (a, r.apply batch)

theorem gives_ofExcept {a : StoreAnswer} {b : Backend} :
    Gives (MonadExcept.ofExcept a) b a b := by
  cases a <;> rfl

theorem gives_access (r : Records) (s : Script) :
    Gives s.access (SessionStore.calm r) (s.serve r).1 (SessionStore.calm (s.serve r).2) := by
  induction s with
  | done a => exact gives_ofExcept
  | read key next ih =>
    exact gives_bind.2 (.inr ⟨_, SessionStore.calm r, read_quiet rfl key, ih _⟩)
  | write batch a =>
    exact gives_bind.2 (.inr ⟨(), _, SessionStore.gives_batch batch, gives_ofExcept⟩)

/-- Its storage calls one by one give what the call is served with. -/
theorem serve_script {r : Records} (hf : r.Filed) (now : Instant) (c : StoreCall) :
    (c.script now).serve r = r.serve now c := by
  have step := gives_access r (c.script now)
  rw [access_script, Gives, SessionStore.gives_serve hf now c] at step
  obtain ⟨ha, hb⟩ := Prod.mk.inj step
  exact Prod.ext ha.symm (congrArg Backend.records hb).symm

end Script

/-- A call in the course of being served. -/
structure Turn where
  call : StoreCall
  now : Instant
  rest : Script

/-- A store and its callers. Callers that wait for the write lock are not listed:
any call may be waiting. -/
structure Desk where
  records : Records
  /-- Whoever holds the write lock. -/
  turn : Option Turn := none
  /-- The calls that were answered, latest first. -/
  log : List (StoreCall × StoreAnswer) := []

namespace Desk

/-- A store before and after one step of a caller. Calls for which `admits`
holds are made. -/
inductive Step (admits : Records → StoreCall → Prop) : Desk → Desk → Prop
  /-- A caller takes the free write lock. -/
  | enter {r : Records} {log : List (StoreCall × StoreAnswer)} {c : StoreCall} {now : Instant}
      (admitted : admits r c) (clock : now.Valid) :
    Step admits ⟨r, none, log⟩ ⟨r, some ⟨c, now, c.script now⟩, log⟩
  | read {r : Records} {log : List (StoreCall × StoreAnswer)} {c : StoreCall} {now : Instant}
      {key : Bytes} {next : Option Bytes → Script} :
    Step admits ⟨r, some ⟨c, now, .read key next⟩, log⟩ ⟨r, some ⟨c, now, next (r.get? key)⟩, log⟩
  | write {r : Records} {log : List (StoreCall × StoreAnswer)} {c : StoreCall} {now : Instant}
      {batch : List Write} {a : StoreAnswer} :
    Step admits ⟨r, some ⟨c, now, .write batch a⟩, log⟩ ⟨r.apply batch, none, (c, a) :: log⟩
  | done {r : Records} {log : List (StoreCall × StoreAnswer)} {c : StoreCall} {now : Instant}
      {a : StoreAnswer} : Step admits ⟨r, some ⟨c, now, .done a⟩, log⟩ ⟨r, none, (c, a) :: log⟩
  /-- A caller goes away before it has written anything. -/
  | leave {r : Records} {log : List (StoreCall × StoreAnswer)} {t : Turn} :
    Step admits ⟨r, some t, log⟩ ⟨r, none, log⟩

/-- Whatever the callers do, one step after the other. -/
abbrev Reaches (admits : Records → StoreCall → Prop) : Desk → Desk → Prop :=
  Relation.ReflTransGen (Step admits)

/-- What is left of the current call comes to what the whole call would come
to now: nobody has changed the records since it took the lock. -/
def InTurn (admits : Records → StoreCall → Prop) (d : Desk) : Prop :=
  ∀ t ∈ d.turn, admits d.records t.call ∧ t.now.Valid ∧
    t.rest.serve d.records = (t.call.script t.now).serve d.records

/-- A call has been answered, as if it were served at once. -/
def Answered (admits : Records → StoreCall → Prop) (d : Desk) (c : StoreCall) (now : Instant)
    (d' : Desk) : Prop :=
  admits d.records c ∧ now.Valid ∧ d'.log = (c, (d.records.serve now c).1) :: d.log ∧
    d'.records = (d.records.serve now c).2

section Steps

variable {admits : Records → StoreCall → Prop} {d d' : Desk}

theorem Step.inTurn (h : Step admits d d') (turn : d.InTurn admits) : d'.InTurn admits := by
  cases h with
  | enter admitted clock =>
    rintro _ ⟨⟩
    exact ⟨admitted, clock, rfl⟩
  | @read r log c now key next =>
    rintro _ ⟨⟩
    exact turn ⟨c, now, .read key next⟩ rfl
  | write => rintro _ ⟨⟩
  | done => rintro _ ⟨⟩
  | leave => rintro _ ⟨⟩

/-- A step answers one call, or changes neither the records nor the log. -/
theorem Step.cases (h : Step admits d d') (hf : d.records.Filed) (turn : d.InTurn admits) :
    (d'.log = d.log ∧ d'.records = d.records) ∨ ∃ c now, d.Answered admits c now d' := by
  cases h with
  | enter => exact .inl ⟨rfl, rfl⟩
  | read => exact .inl ⟨rfl, rfl⟩
  | @write r log c now batch a =>
    obtain ⟨admitted, clock, same⟩ := turn _ rfl
    rw [Script.serve_script hf] at same
    exact .inr ⟨c, now, admitted, clock, by rw [← same]; rfl, by rw [← same]; rfl⟩
  | @done r log c now a =>
    obtain ⟨admitted, clock, same⟩ := turn _ rfl
    rw [Script.serve_script hf] at same
    exact .inr ⟨c, now, admitted, clock, by rw [← same]; rfl, by rw [← same]; rfl⟩
  | leave => exact .inl ⟨rfl, rfl⟩

end Steps

/-- Whoever has taken the lock can go on to the answer. -/
theorem reaches_answer {admits : Records → StoreCall → Prop} {r : Records}
    {log : List (StoreCall × StoreAnswer)} {c : StoreCall} {now : Instant} (s : Script) :
    Reaches admits ⟨r, some ⟨c, now, s⟩, log⟩
      ⟨(s.serve r).2, none, (c, (s.serve r).1) :: log⟩ := by
  induction s with
  | done a => exact .single .done
  | read key next ih => exact .head .read (ih _)
  | write batch a => exact .single .write

/-- A call that is admitted can be served. -/
theorem reaches_serve {admits : Records → StoreCall → Prop} {r : Records}
    {log : List (StoreCall × StoreAnswer)} {c : StoreCall} {now : Instant} (hf : r.Filed)
    (admitted : admits r c) (clock : now.Valid) :
    Reaches admits ⟨r, none, log⟩ ⟨(r.serve now c).2, none, (c, (r.serve now c).1) :: log⟩ := by
  rw [← Script.serve_script hf now c]
  exact .head (.enter admitted clock) (reaches_answer _)

/-- What holds of records and log at first, and is kept by each answered call,
holds whatever the callers do. -/
theorem Reaches.induct {admits : Records → StoreCall → Prop} {r₀ : Records} {d : Desk}
    {P : List (StoreCall × StoreAnswer) → Records → Prop}
    (storable : ∀ r c, admits r c → c.Storable) (filed : r₀.Filed)
    (h : Reaches admits ⟨r₀, none, []⟩ d) (first : P [] r₀)
    (next : ∀ log r now c, P log r → r.Filed → admits r c → now.Valid →
      P ((c, (r.serve now c).1) :: log) (r.serve now c).2) :
    d.records.Filed ∧ d.InTurn admits ∧ P d.log d.records := by
  induction h with
  | refl => exact ⟨filed, by rintro _ ⟨⟩, first⟩
  | tail _ step ih =>
    obtain ⟨hf, turn, hp⟩ := ih
    rcases step.cases hf turn with ⟨hlog, hrec⟩ | ⟨c, now, admitted, clock, hlog, hrec⟩
    · rw [hlog, hrec]
      exact ⟨hf, step.inTurn turn, hp⟩
    · rw [hlog, hrec]
      refine ⟨(KeyMap.serves hf (storable _ c admitted) clock).1, step.inTurn turn, ?_⟩
      exact next _ _ now c hp hf admitted clock

theorem Reaches.inTurn {admits : Records → StoreCall → Prop} {r₀ : Records} {d : Desk}
    (storable : ∀ r c, admits r c → c.Storable) (filed : r₀.Filed)
    (h : Reaches admits ⟨r₀, none, []⟩ d) : d.records.Filed ∧ d.InTurn admits :=
  have kept := h.induct (P := fun _ _ => True) storable filed trivial fun _ _ _ _ _ _ _ _ => trivial
  ⟨kept.1, kept.2.1⟩

/-- The same for the time since a start. -/
theorem Reaches.induct_since {admits : Records → StoreCall → Prop} {r₀ : Records} {d : Desk}
    {s₀ : Session} {since before : List (StoreCall × StoreAnswer)}
    {P : List (StoreCall × StoreAnswer) → Records → Prop}
    (storable : ∀ r c, admits r c → c.Storable) (filed : r₀.Filed)
    (h : Reaches admits ⟨r₀, none, []⟩ d)
    (started : d.log = since ++ (.start s₀, .ok ()) :: before)
    (first : ∀ r now, r.Filed → admits r (.start s₀) → now.Valid →
      (r.serve now (.start s₀)).1 = .ok () → P [] (r.serve now (.start s₀)).2)
    (next : ∀ log r now c, P log r → r.Filed → admits r c → now.Valid →
      P ((c, (r.serve now c).1) :: log) (r.serve now c).2) : P since d.records := by
  refine (h.induct (P := fun log r => ∀ since before,
    log = since ++ (.start s₀, .ok ()) :: before → P since r) storable filed ?_ ?_).2.2 _ _ started
  · intro since before h
    cases since <;> cases h
  · intro log r now c ih hf admitted clock since before h
    cases since with
    | nil =>
      obtain ⟨hx, -⟩ := List.cons.inj h
      obtain ⟨rfl, ok⟩ := Prod.mk.inj hx
      exact first r now hf admitted clock ok
    | cons x since =>
      obtain ⟨rfl, hrest⟩ := List.cons.inj h
      exact next since r now c (ih since before hrest) hf admitted clock

end Desk

end LogExport
