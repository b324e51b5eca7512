import LogExport.Proofs.Service.Site
import LogExport.Proofs.Session.Names

/-! Which starts meet a session that is already stored. An id is made of user,
name and the millisecond of the clock, and nothing else keeps a new session
from being stored in place of an old one. -/

namespace LogExport

open Access

/-- Sessions are stored by starts only, and never removed. -/
theorem Shelf.Step.isSome_session {v v' : Shelf} {c : Change} (h : v.Step c v') (id : String) :
    (v'.session id).isSome = true ↔
      (v.session id).isSome = true ∨ ∃ s, c.started? = some s ∧ s.id = id := by
  have nothing {c : Change} (hc : c.started? = none) : ¬ ∃ s, c.started? = some s ∧ s.id = id := by
    rintro ⟨s, hs, -⟩
    rw [hc] at hs
    cases hs
  have updated {i : String} {s t : Session} (hs : v.session i = some s) :
      (Function.update v.session i (some t) id).isSome = true ↔ (v.session id).isSome = true := by
    by_cases hid : id = i
    · rw [hid, Function.update_self, hs]
      exact ⟨fun _ => rfl, fun _ => rfl⟩
    · rw [Function.update_of_ne hid]
  cases h with
  | @start s =>
    by_cases hid : id = s.id
    · subst hid
      exact ⟨fun _ => .inr ⟨s, rfl, rfl⟩, fun _ => by dsimp only; rw [Function.update_self]; rfl⟩
    · dsimp only
      rw [Function.update_of_ne hid]
      refine ⟨.inl, fun hor => hor.resolve_right ?_⟩
      rintro ⟨_, ⟨⟩, he⟩
      exact hid he.symm
  | keep => exact (or_iff_left (nothing rfl)).symm
  | restore => exact (or_iff_left (nothing rfl)).symm
  | release => exact (or_iff_left (nothing rfl)).symm
  | unlock => exact (or_iff_left (nothing rfl)).symm
  | conclude found => exact (updated found).trans (or_iff_left (nothing rfl)).symm
  | confirm found => exact (updated found).trans (or_iff_left (nothing rfl)).symm

/-- In good order, every session on record can be read. -/
theorem KeyMap.Filed.isSome_get? {r : Records} (hf : r.Filed) (id : String) :
    (r.get? (SessionKey.encode id)).isSome = true ↔ (r.shelf.session id).isSome = true := by
  simp only [KeyMap.shelf]
  cases hg : r.get? (SessionKey.encode id) with
  | none => rfl
  | some bs =>
    obtain ⟨s, hs, -⟩ := hf.session id bs hg
    simp only [Option.bind_some, hs, Option.isSome_some]

namespace Engine

variable {e e' : Engine} {ev : Event} {c : Change}

theorem slash_notMem_of_sound {length : Duration} {r : ExportRequest}
    (sound : requestFault? length r = none) : '/' ∉ r.name.toList := by
  intro hm
  have hc : r.name.toList.contains '/' = true := List.contains_iff_mem.2 hm
  simp only [requestFault?, hc, if_true] at sound
  split_ifs at sound

/-- A session is stored anew with an accepted start, and under its id. -/
theorem Effect.acceptance? (h : Effect e ev c e') :
    ev.acceptance? e = none ∧ c.started? = none ∨
      ∃ a s, ev.acceptance? e = some a ∧ c.started? = some s ∧ s.id = a.id ∧
        a.id = Session.idOf a.user a.request.name a.now ∧ '/' ∉ a.request.name.toList := by
  cases h with
  | quiet free still mild =>
    refine .inl ⟨?_, by cases mild <;> rfl⟩
    cases ev with
    | start user r answer =>
      cases answer with
      | error err => rfl
      | ok id => cases free
    | _ => rfl
  | @started user name r a b parts e' allowed exact sound =>
    refine .inr ⟨⟨Session.idOf name r.name e.now, name, r, e.now, e.settings.partLength⟩, _,
      by simp only [Event.acceptance?, allowed], rfl, rfl, rfl, ?_⟩
    exact slash_notMem_of_sound sound
  | restored => exact .inl ⟨rfl, rfl⟩
  | moved h =>
    refine .inl ⟨rfl, ?_⟩
    have hc := h.step.acquired?.1
    cases c <;> first | rfl | cases hc

end Engine

namespace Site

/-- Stored are the sessions that were found and those that were accepted. -/
structure Accounted (w₀ w : Site) : Prop where
  orderly : w.Orderly
  stored : ∀ id, (w.backend.records.get? (SessionKey.encode id)).isSome = true ↔
    (w₀.backend.records.get? (SessionKey.encode id)).isSome = true ∨ ∃ a ∈ w.accepted, a.id = id
  ids : ∀ a ∈ w.accepted,
    a.id = Session.idOf a.user a.request.name a.now ∧ '/' ∉ a.request.name.toList

variable {w₀ w w' : Site} {ev : Event}

theorem accounted_of_untouched (h : w.Untouched) : w.Accounted w :=
  { orderly := orderly_of_untouched h
    stored := fun id => by simp [h.accepted]
    ids := fun a ha => by rw [h.accepted] at ha; cases ha }

theorem Accounted.step (h : w₀.Accounted w) (step : Step w ev w') : w₀.Accounted w' := by
  have orderly := h.orderly.step step
  cases step with
  | constructed clock pages hc =>
    obtain ⟨rfl, -, -, -, -, -, -, hrec⟩ := Engine.created hc
    exact ⟨orderly, fun id => by rw [hrec, KeyMap.get?_dropLock]; exact h.stored id, h.ids⟩
  | refused hc =>
    refine ⟨orderly, fun id => ?_, h.ids⟩
    dsimp only
    rcases Engine.refused hc with hb | hb
    · rw [hb]
      exact h.stored id
    · rw [hb, KeyMap.get?_dropLock]
      exact h.stored id
  | @served i x e e' found hx =>
    obtain ⟨c, he⟩ := h.orderly.effect found hx
    have filed := h.orderly.filed (List.ne_nil_of_mem (List.mem_of_getElem? found))
    have dom (id : String) : (e'.backend.records.get? (SessionKey.encode id)).isSome = true ↔
        (w.backend.records.get? (SessionKey.encode id)).isSome = true ∨
          ∃ s, c.started? = some s ∧ s.id = id := by
      rw [he.records.1.isSome_get?, filed.isSome_get?]
      exact he.records.2.isSome_session id
    rcases he.acceptance? with ⟨ha, hc⟩ | ⟨a, s, ha, hc, hs, hid, hslash⟩
    · refine ⟨orderly, fun id => ?_, ?_⟩
      · dsimp only
        rw [dom, ha, hc, h.stored]
        simp
      · dsimp only
        rw [ha]
        exact h.ids
    · refine ⟨orderly, fun id => ?_, ?_⟩
      · dsimp only
        rw [dom, ha, hc, h.stored]
        simp only [Option.some.injEq, exists_eq_left', Option.toList_some, List.singleton_append,
          List.mem_cons, exists_eq_or_imp, hs]
        exact or_assoc.trans (or_congr_right or_comm)
      · dsimp only
        rw [ha]
        intro b hb
        rcases List.mem_cons.1 hb with rfl | hb
        · exact ⟨hid, hslash⟩
        · exact h.ids b hb

theorem Accounted.reaches {allowed : Site → Event → Prop} (h : w₀.Accounted w)
    (run : Reaches allowed w w') : w₀.Accounted w' :=
  run.keeps (fun h _ => h.step) h

/-- When an accepted start meets a session that is stored under its id: exactly
if the id was on record from the beginning, or an earlier start was accepted
for the same user, name and millisecond. The new session then stands in its
place, without flags, total or error. No other session is touched. -/
theorem start_meets_stored_iff {i : Nat} {user : Option String} {r : ExportRequest} {id : String}
    (untouched : w₀.Untouched) (run : Reaches (fun _ _ => True) w₀ w)
    (step : Step w (.serve i (.start user r (.ok id))) w') :
    ∃ e name, w.services[i]? = some e ∧ e.authorize user = .ok name ∧
      id = Session.idOf name r.name e.now ∧
      ((w.backend.records.get? (SessionKey.encode id)).isSome = true ↔
        (w₀.backend.records.get? (SessionKey.encode id)).isSome = true ∨
          ∃ a ∈ w.accepted, a.user = name ∧ a.request.name = r.name ∧
            a.now.millis = e.now.millis) ∧
      (∃ s, w'.backend.records.shelf.session id = some s ∧ s.status = .start ∧
        (∀ flag ∈ s.uploaded, flag = false) ∧ s.total = .zero ∧ s.error = none ∧
        s.finishedAt = none) ∧
      ∀ other, other ≠ id →
        w'.backend.records.shelf.session other = w.backend.records.shelf.session other := by
  have h := (accounted_of_untouched untouched).reaches run
  cases step with
  | @served _ _ e e' found hx =>
    obtain ⟨c, he⟩ := h.orderly.effect found hx
    cases he with
    | quiet free => cases free
    | @started _ name _ a b parts _ allowed exact sound bounds count pipelines files settings now
        records =>
      have hslash := Engine.slash_notMem_of_sound sound
      refine ⟨e, name, found, allowed, rfl, ?_, ?_⟩
      · rw [h.stored]
        refine or_congr_right ⟨?_, ?_⟩
        · rintro ⟨a, ha, hid⟩
          rw [(h.ids a ha).1] at hid
          exact ⟨a, ha, Session.idOf_inj (h.ids a ha).2 hslash hid⟩
        · rintro ⟨a, ha, rfl, hname, hmillis⟩
          refine ⟨a, ha, ?_⟩
          rw [(h.ids a ha).1, Session.idOf, Session.idOf, hname, hmillis]
          rfl
      · have hshelf := records.2
        generalize e'.backend.records.shelf = v at hshelf
        cases hshelf with
        | start running free =>
          refine ⟨⟨_, Function.update_self .., rfl, ?_, rfl, rfl, rfl⟩, fun other hne => ?_⟩
          · intro flag hflag
            exact List.eq_of_mem_replicate hflag
          · exact Function.update_of_ne hne ..

/-- The sample can be repeated at a site. -/
theorem audit_can_repeat :
    ∃ w w' e s, Reaches (fun _ _ => True) ⟨{}, .empty, [], [], []⟩ w ∧
      Step w (.serve 0 (.start none Engine.audit (.ok Engine.auditId))) w' ∧
      w.services[0]? = some e ∧ e.now = Engine.newYear ∧
      w.backend.records.shelf.session Engine.auditId = some s ∧ s.status = .cancel := by
  obtain ⟨e₀, b, e₁, e₂, e₃, s, created, start, cancel, again, now, stored, cancelled⟩ :=
    Engine.audit_can_repeat
  have run₀ : Reaches (fun _ _ => True) ⟨{}, .empty, [], [], []⟩ ⟨b, .empty, [e₀], [], []⟩ :=
    .tail (.refl _) trivial (.constructed (by decide) (by decide) created)
  have same₀ : enter ⟨b, .empty, [e₀], [], []⟩ e₀ = e₀ := by
    obtain ⟨rfl, -, hfiles, -⟩ := Engine.created created
    cases e₀
    cases hfiles
    rfl
  obtain ⟨w₁, step₁, found₁, same₁, -⟩ :=
    step_of_found (rfl : [e₀][0]? = some e₀) same₀ start
  obtain ⟨w₂, step₂, found₂, same₂, -⟩ := step_of_found found₁ same₁ cancel
  obtain ⟨w₃, step₃, -, -, -⟩ := step_of_found found₂ same₂ again
  rw [← same₂] at stored
  exact ⟨w₂, w₃, e₂, s, (run₀.tail trivial step₁).tail trivial step₂, step₃, found₂, now,
    stored, cancelled⟩

/-- Started again, the audit loses the session that was cancelled. -/
theorem start_meets_stored_iff_audit :
    ∃ w w' : Site, Reaches (fun _ _ => True) ⟨{}, .empty, [], [], []⟩ w ∧
      Step w (.serve 0 (.start none Engine.audit (.ok Engine.auditId))) w' ∧
      (∃ s, w.backend.records.shelf.session Engine.auditId = some s ∧ s.status = .cancel) ∧
      (∃ a ∈ w.accepted, a.request.name = "audit" ∧ a.now.millis = Engine.newYear.millis) ∧
      ∃ s, w'.backend.records.shelf.session Engine.auditId = some s ∧ s.status = .start := by
  obtain ⟨w, w', e, s, run, step, found, now, stored, cancelled⟩ := audit_can_repeat
  obtain ⟨e', name, found', -, -, meets, ⟨t, fresh, begun, -⟩, -⟩ :=
    start_meets_stored_iff ⟨rfl, rfl, rfl⟩ run step
  rw [found] at found'
  cases found'
  obtain ⟨bs, hbs, -⟩ := Option.bind_eq_some_iff.1 stored
  have isSome : (w.backend.records.get? (SessionKey.encode Engine.auditId)).isSome = true := by
    rw [hbs]
    rfl
  obtain ⟨a, ha, -, hname, hmillis⟩ := (meets.1 isSome).resolve_left (by decide)
  exact ⟨w, w', run, step, ⟨s, stored, cancelled⟩, ⟨a, ha, hname, now ▸ hmillis⟩, t, fresh, begun⟩

end Site

end LogExport
