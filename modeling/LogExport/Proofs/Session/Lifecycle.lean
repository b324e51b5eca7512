import LogExport.Proofs.Session.Turns
import LogExport.Proofs.Service.Runs

/-! The life of a session goes one way. It runs from its start until a first
caller ends it; whoever comes later is told how it ended. What was asked for
stays as it is. -/

namespace LogExport

namespace Session

/-- Two states of one export: what is fixed at its start is the same. -/
structure SameRequest (s t : Session) : Prop where
  id : s.id = t.id
  user : s.user = t.user
  name : s.name = t.name
  query : s.query = t.query
  start : s.start = t.start
  stop : s.stop = t.stop
  window : s.window = t.window
  partLength : s.partLength = t.partLength
  batchSize : s.batchSize = t.batchSize
  partCount : s.partCount = t.partCount
  pathRoot : s.pathRoot = t.pathRoot
  createdAt : s.createdAt = t.createdAt
  startedAt : s.startedAt = t.startedAt

theorem SameRequest.rfl {s : Session} : s.SameRequest s := by constructor <;> rfl

/-- Two states of an export that agree with a third agree with each other. -/
theorem SameRequest.of_common {s t u : Session} (h : s.SameRequest u) (h' : t.SameRequest u) :
    s.SameRequest t where
  id := h.id.trans h'.id.symm
  user := h.user.trans h'.user.symm
  name := h.name.trans h'.name.symm
  query := h.query.trans h'.query.symm
  start := h.start.trans h'.start.symm
  stop := h.stop.trans h'.stop.symm
  window := h.window.trans h'.window.symm
  partLength := h.partLength.trans h'.partLength.symm
  batchSize := h.batchSize.trans h'.batchSize.symm
  partCount := h.partCount.trans h'.partCount.symm
  pathRoot := h.pathRoot.trans h'.pathRoot.symm
  createdAt := h.createdAt.trans h'.createdAt.symm
  startedAt := h.startedAt.trans h'.startedAt.symm

theorem SameRequest.symm {s t : Session} (h : s.SameRequest t) : t.SameRequest s :=
  .of_common .rfl h

theorem SameRequest.trans {s t u : Session} (h : s.SameRequest t) (h' : t.SameRequest u) :
    s.SameRequest u := .of_common h h'.symm

theorem SameRequest.confirm {s t : Session} (h : s.SameRequest t) (part : Nat) (size : Sizes) :
    (s.confirm part size).SameRequest t :=
  { h with partCount := (s.partCount_confirm part size).trans h.partCount }

theorem SameRequest.ended {s t : Session} (h : s.SameRequest t) (status : Status)
    (error : Option String) (now : Instant) : (s.ended status error now).SameRequest t :=
  { h with }

/-- The session runs, or it ended with this status and error. -/
def EndedAs (s : Session) : Option (Status × Option String) → Prop
  | none => s.status = .start ∧ s.error = none ∧ s.finishedAt = none
  | some (status, error) => s.status = status ∧ s.error = error ∧ s.finishedAt.isSome

theorem EndedAs.confirm {s : Session} {o : Option (Status × Option String)} (h : s.EndedAs o)
    (part : Nat) (size : Sizes) : (s.confirm part size).EndedAs o := by
  cases o <;> exact h

end Session

/-- How a call is to end a session, if it is. -/
def StoreCall.endOf? (id : String) (c : StoreCall) : Option (Status × Option String) :=
  match c.ends? with
  | some (i, outcome) => if i = id then some outcome else none
  | none => none

theorem StoreCall.endOf?_eq_some {c : StoreCall} {id : String} {status : Status}
    {error : Option String} :
    c.endOf? id = some (status, error) ↔ c.ends? = some (id, status, error) := by
  unfold endOf?
  split
  · next i outcome h =>
    rw [h]
    split_ifs with hi
    · simp [hi]
    · simp [hi]
  · next h => simp [h]

/-- How the first call that is to end the session is to end it. -/
def firstEnd? (id : String) : List (StoreCall × StoreAnswer) → Option (Status × Option String)
  | [] => none
  | (c, _) :: older => (firstEnd? id older).or (c.endOf? id)

theorem terminal_of_firstEnd? {id : String} {log : List (StoreCall × StoreAnswer)}
    {status : Status} {error : Option String} (h : firstEnd? id log = some (status, error)) :
    status ≠ .start ∧ (error.isSome ↔ status = .fail) := by
  induction log with
  | nil => cases h
  | cons x log ih =>
    rcases Option.or_eq_some_iff.1 h with h | ⟨-, h⟩
    · exact ih h
    · exact StoreCall.terminal_of_ends? (StoreCall.endOf?_eq_some.1 h)

namespace Session.EndedAs

variable {s : Session} {id : String} {log : List (StoreCall × StoreAnswer)}

theorem running_iff (h : s.EndedAs (firstEnd? id log)) :
    s.status = .start ↔ firstEnd? id log = none := by
  cases ho : firstEnd? id log with
  | none =>
    rw [ho] at h
    exact ⟨fun _ => rfl, fun _ => h.1⟩
  | some o =>
    rw [ho] at h
    have terminal := (terminal_of_firstEnd? ho).1
    exact ⟨fun hs => absurd (h.1.symm.trans hs) terminal, fun h => by cases h⟩

theorem finishedAt_iff (h : s.EndedAs (firstEnd? id log)) :
    s.finishedAt.isSome ↔ s.status.isTerminal := by
  have running := h.running_iff
  cases ho : firstEnd? id log with
  | none =>
    rw [ho] at h
    simp [h.1, h.2.2, Status.isTerminal]
  | some o =>
    rw [ho] at h running
    have : s.status.isTerminal = true := by cases hs : s.status <;> simp_all [Status.isTerminal]
    simp [h.2.2, this]

theorem error_iff (h : s.EndedAs (firstEnd? id log)) : s.error.isSome ↔ s.status = .fail := by
  cases ho : firstEnd? id log with
  | none =>
    rw [ho] at h
    simp [h.1, h.2.1]
  | some o =>
    rw [ho] at h
    rw [h.1, h.2.1]
    exact (terminal_of_firstEnd? ho).2

end Session.EndedAs

/-- The session started as `s₀` is stored with what was asked for and ended as
given; it does not hold the lock once it has ended. -/
structure Shelf.Keeps (v : Shelf) (s₀ : Session) (o : Option (Status × Option String))
    (s : Session) : Prop where
  found : v.session s₀.id = some s
  same : s.SameRequest s₀.stored
  ended : s.EndedAs o
  left : v.holder = some s₀.id → s.status = .start

theorem Shelf.Keeps.congr {v v' : Shelf} {s₀ s : Session}
    {o : Option (Status × Option String)} (h : v.Keeps s₀ o s)
    (session : v'.session s₀.id = v.session s₀.id)
    (left : v'.holder = some s₀.id → s.status = .start) : v'.Keeps s₀ o s :=
  ⟨session.trans h.found, h.same, h.ended, left⟩

/-- Serving a call keeps what is kept, and the session ends with the first call
that is to end it. -/
theorem Shelf.Served.keeps {v v' : Shelf} {now : Instant} {c : StoreCall} {a : StoreAnswer}
    {s₀ s : Session} {o : Option (Status × Option String)} (h : v.Served now c a v')
    (keeps : v.Keeps s₀ o s) (running_iff : s.status = .start ↔ o = none)
    (fresh : ∀ t, c = .start t → t.id ≠ s₀.id) (unlocked : ∀ id, c ≠ .lock id)
    (accepted : s.status = .start → c.endOf? s₀.id ≠ none → a = .ok ()) :
    ∃ s', v'.Keeps s₀ (o.or (c.endOf? s₀.id)) s' := by
  have other {t : StoreCall} (h : t.ends? = none) : o.or (t.endOf? s₀.id) = o := by
    simp only [StoreCall.endOf?, h, Option.or_none]
  cases h with
  | refused =>
    refine ⟨s, ?_⟩
    cases hc : c.endOf? s₀.id with
    | none => rwa [Option.or_none]
    | some end' =>
      cases o with
      | some _ => exact keeps
      | none =>
        have := accepted (running_iff.2 rfl) (by simp [hc])
        cases this
  | @late _ id status error t ends found ended held =>
    have hid : id ≠ s₀.id := by
      rintro rfl
      rw [keeps.found] at found
      cases found
      exact ended (keeps.left held)
    refine ⟨s, ?_⟩
    simp only [StoreCall.endOf?, ends, hid, if_false, Option.or_none]
    exact keeps.congr rfl fun h => by cases h
  | @started t free =>
    have hid := fresh t rfl
    refine ⟨s, ?_⟩
    rw [other rfl]
    exact keeps.congr (Function.update_of_ne hid.symm _ _) fun h => absurd (Option.some.inj h) hid
  | @ended _ id status error t ends found running =>
    by_cases hid : id = s₀.id
    · subst hid
      rw [keeps.found] at found
      cases found
      cases running_iff.1 running
      refine ⟨s.ended status error now.reread, Function.update_self .., keeps.same.ended _ _ _, ?_,
        fun h => ?_⟩
      · rw [StoreCall.endOf?_eq_some.2 ends]
        exact ⟨rfl, rfl, rfl⟩
      · dsimp only at h
        split at h
        · cases h
        · contradiction
    · refine ⟨s, ?_⟩
      simp only [StoreCall.endOf?, ends, hid, if_false, Option.or_none]
      refine keeps.congr (Function.update_of_ne (Ne.symm hid) _ _) fun h => ?_
      dsimp only at h
      split at h
      · cases h
      · exact keeps.left h
  | @confirmed id part size t found missing =>
    rw [other rfl]
    by_cases hid : id = s₀.id
    · subst hid
      rw [keeps.found] at found
      cases found
      exact ⟨s.confirm part size, Function.update_self .., keeps.same.confirm _ _,
        keeps.ended.confirm _ _, keeps.left⟩
    · exact ⟨s, keeps.congr (Function.update_of_ne (Ne.symm hid) _ _) keeps.left⟩
  | locked => exact absurd rfl (unlocked _)
  | @restored id t found running free =>
    refine ⟨s, ?_⟩
    rw [other rfl]
    refine keeps.congr rfl fun h => ?_
    cases Option.some.inj h
    rw [keeps.found] at found
    cases found
    exact running
  | unlocked =>
    refine ⟨s, ?_⟩
    rw [other rfl]
    exact keeps.congr rfl fun h => by cases h

/-- A session as a service builds it for a request that it accepts. -/
def Session.Built (s : Session) : Prop :=
  ∃ (e : Engine) (user : Option String) (r : ExportRequest), e.now.Valid ∧
    e.settings.pageSize ≤ Numeral.maxUInt64 ∧ r.Exact ∧ e.prepare user r = some (.ok s)

theorem Session.Built.storable {s : Session} (h : s.Built) : s.Storable := by
  obtain ⟨e, user, r, hn, hp, exact', prepared⟩ := h
  obtain ⟨name, a, b, parts, -, sound, bounds, -, rfl⟩ := Engine.prepare_eq_ok prepared
  exact Engine.storable_newSession hn hp exact' sound bounds

/-- It begins as one that runs. -/
theorem Session.Built.endedAs {s : Session} (h : s.Built) : s.stored.EndedAs none := by
  obtain ⟨e, user, r, hn, hp, exact', prepared⟩ := h
  obtain ⟨name, a, b, parts, -, sound, bounds, -, rfl⟩ := Engine.prepare_eq_ok prepared
  exact ⟨rfl, rfl, rfl⟩

/-- Calls as services make them, with a new id for each export. -/
structure StoreCall.Proper (r : Records) (c : StoreCall) : Prop where
  built : ∀ s, c = .start s → s.Built
  fresh : ∀ s, c = .start s → r.shelf.session s.id = none
  unlocked : ∀ id, c ≠ .lock id

namespace Desk

theorem storable_of_proper (r : Records) (c : StoreCall) (h : c.Proper r) : c.Storable :=
  fun s hs => (h.built s hs).storable

variable {r₀ : Records} {d : Desk}

/-- Since its start, a session is kept. -/
theorem Reaches.keeps {s₀ : Session} {since before : List (StoreCall × StoreAnswer)}
    (filed : r₀.Filed) (run : Reaches StoreCall.Proper ⟨r₀, none, []⟩ d)
    (started : d.log = since ++ (.start s₀, .ok ()) :: before) :
    ∃ s, d.records.shelf.Keeps s₀ (firstEnd? s₀.id since) s := by
  refine run.induct_since (P := fun since r => ∃ s, r.shelf.Keeps s₀ (firstEnd? s₀.id since) s)
    storable_of_proper filed started ?_ ?_
  · intro r now hf proper clock ok
    obtain ⟨-, served⟩ := KeyMap.serves hf (storable_of_proper r _ proper) clock
    rw [ok] at served
    obtain ⟨-, hv⟩ := served.of_started
    have built := (proper.built s₀ rfl).endedAs
    refine ⟨s₀.stored, ?_, .rfl, built, fun _ => built.1⟩
    rw [hv]
    exact Function.update_self ..
  · rintro log r now c ⟨s, keeps⟩ hf proper clock
    have served := (KeyMap.serves hf (storable_of_proper r c proper) clock).2
    refine served.keeps keeps ?_ (fun t ht hid => ?_) proper.unlocked fun running hc => ?_
    · exact keeps.ended.running_iff
    · have hnone := proper.fresh t ht
      rw [hid, keeps.found] at hnone
      cases hnone
    · obtain ⟨⟨status, error⟩, hc⟩ := Option.ne_none_iff_exists'.1 hc
      exact KeyMap.serve_ends (StoreCall.endOf?_eq_some.1 hc) keeps.found running

/-- What is stored was there from the beginning, or it was started. -/
theorem Reaches.started {id : String} {t : Session} (filed : r₀.Filed)
    (run : Reaches StoreCall.Proper ⟨r₀, none, []⟩ d)
    (found : d.records.shelf.session id = some t) :
    r₀.shelf.session id ≠ none ∨ ∃ s₀, s₀.id = id ∧ (.start s₀, .ok ()) ∈ d.log := by
  refine (run.induct (P := fun log r => ∀ t, r.shelf.session id = some t →
    r₀.shelf.session id ≠ none ∨ ∃ s₀, s₀.id = id ∧ (.start s₀, .ok ()) ∈ log)
    storable_of_proper filed ?_ ?_).2.2 t found
  · intro t found
    exact .inl (by rw [found]; exact Option.some_ne_none t)
  · intro log r now c ih hf proper clock t found
    have served := (KeyMap.serves hf (storable_of_proper r c proper) clock).2
    rcases served.session_cases found with ⟨t, old⟩ | ⟨s₀, rfl, ok, hid⟩
    · exact (ih t old).imp_right fun ⟨s₀, hid, hs⟩ => ⟨s₀, hid, List.mem_cons_of_mem _ hs⟩
    · exact .inr ⟨s₀, hid, by rw [ok]; exact List.mem_cons_self⟩

/-- One call ends a session, the first that is to end it. At any time
(a) what is stored and was not there from the beginning has been started;
(b) a session that was started is stored with what was asked for, and has the
status and the error of the first call since that was to end it, or runs if
there is none; it has a time of its end exactly if it has ended, and an error
exactly if it failed;
(c) the next step leaves its status unless the session runs and the step
answers a call that ends it;
(d) of the calls that are to end it the first works out, and every later one is
told how the session has ended and changes nothing stored. -/
theorem ends_once (filed : r₀.Filed)
    (run : Reaches StoreCall.Proper ⟨r₀, none, []⟩ d) :
    (∀ id t, d.records.shelf.session id = some t →
      r₀.shelf.session id ≠ none ∨ ∃ s₀, s₀.id = id ∧ (.start s₀, .ok ()) ∈ d.log) ∧
    ∀ s₀ since before, d.log = since ++ (.start s₀, .ok ()) :: before →
      ∃ s, d.records.shelf.session s₀.id = some s ∧ s.SameRequest s₀.stored ∧
        s.EndedAs (firstEnd? s₀.id since) ∧ (s.finishedAt.isSome ↔ s.status.isTerminal) ∧
        (s.error.isSome ↔ s.status = .fail) ∧
        ∀ d', Step StoreCall.Proper d d' →
          ∃ s', d'.records.shelf.session s₀.id = some s' ∧ s'.SameRequest s ∧
            (s'.status ≠ s.status → s.status = .start ∧ ∃ c, d'.log = (c, .ok ()) :: d.log ∧
              c.ends? = some (s₀.id, s'.status, s'.error)) ∧
            ∀ c a status error, d'.log = (c, a) :: d.log →
              c.ends? = some (s₀.id, status, error) →
              (firstEnd? s₀.id since = none →
                a = .ok () ∧ s'.status = status ∧ s'.error = error) ∧
              (firstEnd? s₀.id since ≠ none →
                a = .error (.alreadyTerminal s₀.id s.status.text) ∧ d'.records = d.records) := by
  refine ⟨fun id t => run.started filed, fun s₀ since before started => ?_⟩
  obtain ⟨s, keeps⟩ := run.keeps filed started
  refine ⟨s, keeps.found, keeps.same, keeps.ended, keeps.ended.finishedAt_iff,
    keeps.ended.error_iff, fun d' step => ?_⟩
  obtain ⟨hf, turn⟩ := run.inTurn storable_of_proper filed
  rcases step.cases hf turn with ⟨hlog, hrec⟩ | ⟨c, now, -, -, hlog, hrec⟩
  · refine ⟨s, hrec ▸ keeps.found, .rfl, fun h => absurd rfl h, fun c a status error h => ?_⟩
    exact absurd (hlog.symm.trans h) (List.cons_ne_self _ _).symm
  have started' : d'.log =
      ((c, (d.records.serve now c).1) :: since) ++ (.start s₀, .ok ()) :: before :=
    hlog.trans (congrArg _ started)
  obtain ⟨s', keeps'⟩ := Reaches.keeps filed (run.tail step) started'
  have running := keeps.ended.running_iff
  have ended' : s'.EndedAs ((firstEnd? s₀.id since).or (c.endOf? s₀.id)) := keeps'.ended
  refine ⟨s', keeps'.found, keeps'.same.of_common keeps.same, fun changed => ?_, ?_⟩
  · cases ho : firstEnd? s₀.id since with
    | some o =>
      -- It had ended before, and whoever was first stays first.
      have ended := keeps.ended
      rw [ho] at ended ended'
      exact absurd (ended'.1.trans ended.1.symm) changed
    | none =>
      have first := running.2 ho
      rw [ho, Option.none_or] at ended'
      cases hc : c.endOf? s₀.id with
      | none =>
        rw [hc] at ended'
        exact absurd (ended'.1.trans first.symm) changed
      | some o =>
        rw [hc] at ended'
        obtain ⟨status, error⟩ := o
        have ends := StoreCall.endOf?_eq_some.1 hc
        refine ⟨first, c, ?_, ?_⟩
        · rw [hlog, KeyMap.serve_ends ends keeps.found first]
        · rw [ends, ended'.1, ended'.2.1]
  · intro c' a status error hlog' ends
    obtain ⟨hx, -⟩ := List.cons.inj (hlog.symm.trans hlog')
    obtain ⟨rfl, rfl⟩ := Prod.mk.inj hx
    refine ⟨fun ho => ?_, fun ho => ?_⟩
    · rw [ho, Option.none_or, StoreCall.endOf?_eq_some.2 ends] at ended'
      exact ⟨KeyMap.serve_ends ends keeps.found (running.2 ho), ended'.1, ended'.2.1⟩
    · have ended : s.status ≠ .start := fun h => ho (running.1 h)
      rw [hrec, KeyMap.serve_late ends keeps.found ended fun held => ended (keeps.left held)]
      exact ⟨rfl, rfl⟩

/-- The sample is such a session. -/
theorem built_audit : ∃ s : Session, s.Built ∧ s.id = Engine.auditId ∧
    s.uploaded = [false] ∧ s.total = .zero := by
  obtain ⟨e, b, s, -, hn, hp, prepared, hs⟩ :
      ∃ e b s, Engine.create Engine.hourly {} Engine.newYear { linkBase := "" } = (.ok e, b) ∧
        e.now.Valid ∧ e.settings.pageSize ≤ Numeral.maxUInt64 ∧
        e.prepare none Engine.audit = some (.ok s) ∧ s.id = Engine.auditId ∧
        s.uploaded = [false] ∧ s.total = .zero :=
    ⟨_, _, _, rfl, by decide, by decide, rfl, rfl, rfl, rfl⟩
  exact ⟨s, ⟨e, none, Engine.audit, hn, hp, Engine.exact_audit, prepared⟩, hs⟩

theorem filed_empty : KeyMap.Filed (.empty : Records) :=
  ⟨fun _ _ h => (by cases h), fun _ h => (by cases h)⟩

/-- The sample is started and fails, and then comes a caller who would cancel it. -/
theorem ends_once_audit :
    ∃ (s₀ : Session) (d : Desk) (a : StoreAnswer) (s : Session), s₀.id = Engine.auditId ∧
      Reaches StoreCall.Proper ⟨.empty, none, []⟩ d ∧
      d.log = [(.fail Engine.auditId "disk full", a), (.start s₀, .ok ())] ∧
      d.records.shelf.session Engine.auditId = some s ∧ s.status = .fail ∧
      s.error = some "disk full" ∧
      ∀ d' a', Step StoreCall.Proper d d' →
        d'.log = (.cancel Engine.auditId, a') :: d.log →
        a' = .error (.alreadyTerminal Engine.auditId "fail") ∧ d'.records = d.records := by
  obtain ⟨s₀, built, hid, -⟩ := built_audit
  have clock : Engine.newYear.Valid := by decide
  have proper (r : Records) : (StoreCall.fail Engine.auditId "disk full").Proper r :=
    ⟨fun _ h => (by cases h), fun _ h => (by cases h), fun _ h => (by cases h)⟩
  have start : (StoreCall.start s₀).Proper .empty :=
    ⟨fun _ h => (by cases h; exact built), fun _ _ => rfl, fun _ h => (by cases h)⟩
  have served := KeyMap.serves filed_empty (storable_of_proper _ _ start) clock
  have started : Reaches StoreCall.Proper ⟨.empty, none, []⟩ ⟨_, none, [(.start s₀, .ok ())]⟩ :=
    reaches_serve filed_empty start clock
  have failed : Reaches StoreCall.Proper ⟨_, none, [(.start s₀, .ok ())]⟩ _ :=
    reaches_serve served.1 (proper _) clock
  obtain ⟨s, found, -, ended, -, -, next⟩ :=
    (ends_once filed_empty (started.trans failed)).2 s₀ [(_, _)] [] rfl
  have first (a : StoreAnswer) :
      firstEnd? Engine.auditId [(.fail Engine.auditId "disk full", a)] =
        some (.fail, some "disk full") := rfl
  rw [hid] at found ended next
  rw [first] at ended
  refine ⟨s₀, _, _, s, hid, started.trans failed, rfl, found, ended.1, ended.2.1,
    fun d' a' step hlog => ?_⟩
  obtain ⟨s', -, -, -, late⟩ := next d' step
  have := (late _ _ _ _ hlog rfl).2 (by rw [first]; exact Option.some_ne_none _)
  rwa [ended.1] at this

end Desk

end LogExport
