import LogExport.Proofs.Service.Identity
import LogExport.Proofs.Session.Frame

/-! Errors leave no trace. Once a service has been constructed, a request to the
store or a call of a service that gives an error has changed nothing stored,
whichever storage call fails, and one that works out has kept to the record of
its own session and the lock. -/

namespace LogExport

open Access

namespace Engine

variable {e e' : Engine} {ev : Event}

/-- A call that is answered with an error. -/
inductive Event.Rejected : Event → Prop
  | start (user : Option String) (r : ExportRequest) (err : Error) :
    Rejected (.start user r (.error err))
  | restore (user : Option String) (id : String) (err : Error) :
    Rejected (.restore user id (.error err))
  | cancel (user : Option String) (id : String) (err : Error) :
    Rejected (.cancel user id (.error err))

/-- A call to the store that gives an error has changed nothing. -/
theorem records_of_error (c : StoreCall) (now : Instant) {err : Error} {b : Backend}
    (hf : e.backend.records.Filed) (runs : e.backend.records.HolderRuns)
    (h : Gives (c.access now) e.backend (.error err) b) : b.records = e.backend.records :=
  (StoreRequest.contained (q := .call c) hf runs h).1 err rfl

theorem records_of_rejected_start {user : Option String} {r : ExportRequest} {err : Error}
    (hf : e.backend.records.Filed) (runs : e.backend.records.HolderRuns)
    (h : e.start user r = some (.error err, e')) : e'.backend.records = e.backend.records := by
  unfold Engine.start at h
  obtain ⟨prepared, -, h⟩ := Option.map_eq_some_iff.1 h
  cases prepared with
  | error _ =>
    cases h
    rfl
  | ok s =>
    rcases hg : (SessionStore.start s).run.run e.backend with ⟨answer, b⟩
    dsimp only at h
    rw [access_eq hg] at h
    cases answer with
    | ok _ => cases h
    | error f =>
      cases h
      exact records_of_error (.start s) e.now hf runs hg

theorem records_of_rejected_restore {user : Option String} {id : String} {err : Error}
    (hf : e.backend.records.Filed) (runs : e.backend.records.HolderRuns)
    (h : e.restore user id = (.error err, e')) : e'.backend.records = e.backend.records := by
  unfold Engine.restore at h
  split at h
  · cases h
    rfl
  rcases hg : (SessionStore.lockForRestore id).run.run e.backend with ⟨answer, b⟩
  rw [access_eq hg] at h
  cases answer with
  | ok _ => cases h
  | error f =>
    cases h
    have whole : Gives (StoreCall.access e.now (.restore id)) e.backend (.error err) b :=
      gives_bind.2 (.inl ⟨err, hg, rfl⟩)
    exact records_of_error (.restore id) e.now hf runs whole

theorem records_of_rejected_cancel {user : Option String} {id : String} {err : Error}
    (hf : e.backend.records.Filed) (runs : e.backend.records.HolderRuns)
    (h : e.cancel user id = (.error err, e')) : e'.backend.records = e.backend.records := by
  unfold Engine.cancel at h
  split at h
  · cases h
    rfl
  rcases hg : (SessionStore.cancel e.now id).run.run e.backend with ⟨answer, b⟩
  rw [access_eq hg] at h
  cases answer with
  | ok _ => cases h
  | error f =>
    cases h
    exact records_of_error (.cancel id) e.now hf runs hg

/-- A call of the service that is answered with an error has changed nothing
stored. -/
theorem Step.records_of_rejected (hf : e.backend.records.Filed)
    (runs : e.backend.records.HolderRuns) (rejected : ev.Rejected) (step : Step e ev e') :
    e'.backend.records = e.backend.records := by
  cases rejected with
  | start =>
    cases step with
    | start _ h => exact records_of_rejected_start hf runs h
  | restore =>
    cases step with
    | restore h => exact records_of_rejected_restore hf runs h
  | cancel =>
    cases step with
    | cancel h => exact records_of_rejected_cancel hf runs h

end Engine

namespace Site

/-- Once a service is there, whoever holds the lock runs. -/
structure Steady (w : Site) : Prop where
  orderly : w.Orderly
  guarded : w.services ≠ [] → w.backend.records.shelf.Guarded fun _ => False

variable {w₀ w w' : Site} {ev : Event}

theorem steady_of_untouched (h : w.Untouched) : w.Steady :=
  ⟨orderly_of_untouched h, fun hne => absurd h.services hne⟩

theorem Steady.holderRuns (h : w.Steady) (constructed : w.services ≠ []) :
    w.backend.records.HolderRuns := by
  intro id s held found
  obtain ⟨t, ht, running⟩ := (h.guarded constructed).held id held
  rw [found] at ht
  cases ht
  exact running

theorem guarded_of_free {v : Shelf} (free : v.holder = none) : v.Guarded fun _ => False := by
  refine ⟨fun id held => ?_, fun _ _ no => no.elim⟩
  rw [free] at held
  cases held

/-- A construction clears the lock, and no event of a service takes it for a
session that does not run. -/
theorem Steady.step (h : w.Steady) (step : Step w ev w') : w'.Steady := by
  refine ⟨h.orderly.step step, fun constructed => ?_⟩
  cases step with
  | constructed _ _ hc =>
    obtain ⟨rfl, -, -, -, -, -, free, -⟩ := Engine.created hc
    exact guarded_of_free free
  | refused hc =>
    rcases Engine.refused hc with hb | hb
    · exact hb ▸ h.guarded constructed
    · refine guarded_of_free ?_
      rw [hb, KeyMap.shelf_dropLock]
  | @served i x e e' found hx =>
    obtain ⟨c, he⟩ := h.orderly.effect found hx
    have old := h.guarded (List.ne_nil_of_mem (List.mem_of_getElem? found))
    exact old.step he.records.2 he.acquired?.2 fun _ no => no.elim

theorem Steady.reaches {allowed : Site → Event → Prop} (h : w₀.Steady)
    (run : Reaches allowed w₀ w) : w.Steady :=
  run.keeps (fun h _ => h.step) h

/-- Errors leave no trace: at every site with a service,
(a) whatever the store is asked, and whichever of its storage calls fail, an
error means that all records are as before, and an answer that no record has
changed but that of the session asked about and the lock, which is taken for
this session, released from it, or cleared on demand;
(b) a start, a restore or a cancel that a service rejects, for whatever reason,
leaves all records as before. -/
theorem errors_leave_no_trace (untouched : w₀.Untouched)
    (run : Reaches (fun _ _ => True) w₀ w) (constructed : w.services ≠ []) :
    (∀ (plan : FaultPlan) (now : Instant) (q : StoreRequest) (a : StoreAnswer) (b : Backend),
      Gives (q.access now) { w.backend with faults := plan } a b →
        (∀ err, a = .error err → b.records = w.backend.records) ∧
          (a = .ok () → q.Frame w.backend.records b.records)) ∧
    ∀ i x w', x.Rejected → Step w (.serve i x) w' → w'.backend.records = w.backend.records := by
  have steady := (steady_of_untouched untouched).reaches run
  have hf := steady.orderly.filed constructed
  have runs := steady.holderRuns constructed
  refine ⟨fun plan now q a b => StoreRequest.contained hf runs, ?_⟩
  intro i x w' rejected step
  cases step with
  | served found hx => exact hx.records_of_rejected hf runs rejected

/-- Who tries to finish the cancelled audit is turned away and changes nothing. -/
theorem errors_leave_no_trace_audit :
    ∃ (w : Site) (s : Session) (err : Error) (b : Backend),
      Reaches (fun _ _ => True) ⟨{}, .empty, [], [], []⟩ w ∧
      w.backend.records.shelf.session Engine.auditId = some s ∧ s.status = .cancel ∧
      Gives (SessionStore.finish Engine.newYear Engine.auditId) { w.backend with faults := {} }
        (.error err) b ∧
      b.records = w.backend.records := by
  obtain ⟨w, -, e, s, run, -, found, -, stored, cancelled⟩ := audit_can_repeat
  have constructed : w.services ≠ [] := List.ne_nil_of_mem (List.mem_of_getElem? found)
  have filed := ((steady_of_untouched ⟨rfl, rfl, rfl⟩).reaches run).orderly.filed constructed
  have gives := SessionStore.gives_serve filed Engine.newYear (.finish Engine.auditId)
  have refused : ∃ err, (w.backend.records.serve Engine.newYear (.finish Engine.auditId)).1 =
      .error err := by
    refine ⟨.alreadyTerminal Engine.auditId s.status.text, ?_⟩
    simp only [KeyMap.serve, KeyMap.conclude, KeyMap.withSession_of_found stored, cancelled,
      reduceCtorEq, if_false]
  obtain ⟨err, herr⟩ := refused
  rw [herr] at gives
  have same := (errors_leave_no_trace ⟨rfl, rfl, rfl⟩ run constructed).1 {} Engine.newYear
    (.call (.finish Engine.auditId)) _ _ gives
  exact ⟨w, s, err, _, run, stored, cancelled, gives, same.1 err rfl⟩

end Site

end LogExport
