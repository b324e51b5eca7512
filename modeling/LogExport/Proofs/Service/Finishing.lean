import LogExport.Proofs.Partition.Count
import LogExport.Proofs.Pipeline.Undisturbed
import LogExport.Proofs.Service.Site

/-! Every accepted export can finish, unless its range begins with the calendar
or its bounds change when they are stored. -/

namespace LogExport

open Relation

/-- Lengths of partitions are stored as they are. -/
theorem PartLength.stored_length (p : PartLength) : p.length.stored = p.length := by
  have hs := p.step_mod_second
  unfold step at hs
  show (⟨1000000 * ((p.length.nanos + 500000) / 1000000)⟩ : Duration) = ⟨p.length.nanos⟩
  congr 1
  omega

namespace Engine

variable {e e' : Engine} {c : Change} {user : Option String} {r : ExportRequest} {id : String}

/-- A window that is not longer than a part is not stored as one that is. -/
theorem stored_step_le {p : PartLength} {d : Duration} (h : d.nanos ≤ p.length.nanos) :
    d.stored.step ≤ p.step := by
  have hs := p.step_mod_second
  unfold PartLength.step at hs ⊢
  have hm : maxInt64 = 9223372036854775807 := rfl
  simp only [Duration.step, Duration.stored, Duration.ofMillis, Duration.roundedMillis, hm]
  omega

/-- An accepted start launches a pipeline that can lay out its tasks and their
windows. -/
theorem Effect.lays_out (h : Effect e (.start user r (.ok id)) c e') (hn : e.now.Valid)
    (quiet : e'.backend.faults = {}) (pages : 0 < e.settings.pageSize) {lo hi : Instant}
    (bounds : e.settings.partLength.normalize? r.start r.stop = some (lo, hi))
    (kept : lo.reread = lo ∧ hi.reread = hi) (room : lo.HasRoom e.settings.partLength.step) :
    ∃ s tasks, e'.At e.pipelines.length s .opening ∧ s.id = id ∧ s.status = .start ∧
      0 < e'.limitFor s ∧ s.tasks? = some (.ok tasks) ∧
      ∀ t ∈ tasks, ∃ ws, windows? t.start t.stop t.window = some ws := by
  cases h with
  | quiet free => cases free
  | @started _ name _ a b parts _ allowed exact sound bounds' count pipelines files settings now
      records =>
    rw [bounds] at bounds'
    cases bounds'
    generalize hs : (e.newSession name r lo hi parts).stored = s at records
    have found : e'.backend.records.shelf.session s.id = some s := records.2.started
    have hstart : s.start = lo := by rw [← hs]; exact kept.1
    have hstop : s.stop = hi := by rw [← hs]; exact kept.2
    have hlength : s.partLength = e.settings.partLength.length := by
      rw [← hs]
      exact PartLength.stored_length _
    have hwindow : s.window.step ≤ e.settings.partLength.step := by
      rw [← hs]
      exact stored_step_le (window_le_of_sound sound)
    have hcount : s.partCount = parts := by rw [← hs]; exact List.length_replicate
    have hle : lo ≤ hi := by
      obtain ⟨-, -, hlo, hhi⟩ := PartLength.normalize?_spec exact.start exact.stop bounds
      exact (hlo.trans (lt_of_sound sound).le).trans hhi
    have at' : e'.At e.pipelines.length s .opening := by
      refine ⟨?_, ⟨quiet, records.1, found⟩, now ▸ hn⟩
      rw [pipelines, List.getElem?_append_right le_rfl, Nat.sub_self, ← hs]
      rfl
    obtain ⟨tasks, laidOut, windows⟩ := exists_tasks (KeyMap.settled_of_shelf found)
      (by rw [hstart, hstop]; exact hle) (by rw [hstart, hstop, hlength, hcount]; exact count)
      (by rw [hstart, hlength, PartLength.step_eq]; exact room)
      (by rw [hstart]; unfold Instant.HasRoom at room ⊢; omega)
    have limit : 0 < e'.limitFor s := by
      rw [← hs, limitFor, settings]
      split
      · exact pages
      · next hne => exact Nat.pos_of_ne_zero hne
    exact ⟨s, tasks, at', by rw [← hs]; rfl, by rw [← hs]; rfl, limit, laidOut, windows⟩

/-- No part of a session is uploaded when it is started. -/
theorem Effect.uploaded_of_start (h : Effect e (.start user r (.ok id)) c e')
    {lo hi : Instant} {parts : Nat} {s : Session}
    (bounds : e.settings.partLength.normalize? r.start r.stop = some (lo, hi))
    (count : partitionCount? lo hi e.settings.partLength.length = some parts)
    (found : e'.backend.records.shelf.session id = some s) :
    s.uploaded = List.replicate parts false := by
  cases h with
  | quiet free => cases free
  | started _ _ _ bounds' count' _ _ _ _ records =>
    rw [bounds] at bounds'
    cases bounds'
    rw [count] at count'
    cases count'
    cases found.symm.trans records.2.started
    rfl

/-- If the export has a part, the first worker can come to search for one. -/
theorem Effect.begins_part (h : Effect e (.start user r (.ok id)) c e') (hn : e.now.Valid)
    (quiet : e'.backend.faults = {}) (pages : 0 < e.settings.pageSize)
    (fits : e.settings.queueSize ≤ Pool.maxCapacity) {lo hi : Instant} {n : Nat}
    (bounds : e.settings.partLength.normalize? r.start r.stop = some (lo, hi))
    (kept : lo.reread = lo ∧ hi.reread = hi) (room : lo.HasRoom e.settings.partLength.step)
    (count : partitionCount? lo hi e.settings.partLength.length = some (n + 1)) :
    ∃ e'' s pool t d, e'.Leads e'' ∧
      e''.Works e.pipelines.length s pool (.busy t (.moving d)) ∧ 0 < d.limit ∧ s.id = id ∧
      s.status = .start ∧ pool.closed = false ∧
      pool.workers = List.replicate (max 1 e.settings.workers) .idle := by
  obtain ⟨s, tasks, at', hid, running, limit, laidOut, windows⟩ :=
    h.lays_out hn quiet pages bounds kept room
  have first : s.uploaded[0]? = some false := by
    rw [h.uploaded_of_start bounds count (hid ▸ at'.holds.stored)]
    rfl
  obtain ⟨t, rest, rfl⟩ : ∃ t rest, tasks = t :: rest := by
    have missing := (missing_of_tasks? laidOut).1.rest false 0 first
    refine List.exists_cons_of_ne_nil ?_
    rintro rfl
    cases missing.resolve_left Bool.false_ne_true
  obtain ⟨ws, hws⟩ := windows t List.mem_cons_self
  obtain ⟨e₁, leads₁, at₁⟩ := at'.opens running laidOut (h.settings ▸ fits)
  obtain ⟨e₂, leads₂, works₂⟩ :=
    at₁.takes rfl rfl (by simp [Pool.ofTasks]) (by simp [Pool.ofTasks]) rfl
  have begins : Download.begin? s.id t (e₂.limitFor s) = some
      { session := s.id, task := t, limit := e₂.limitFor s, windows := ws, offset := 0,
        events := [] } := by
    simp only [Download.begin?, hws, Option.map_some]
  have limit₂ : 0 < e₂.limitFor s := by
    simp only [limitFor, (leads₁.trans leads₂).2]
    exact limit
  obtain ⟨e₃, leads₃, works₃⟩ := works₂.begins running begins
  exact ⟨e₃, s, _, t, _, leads₁.trans (leads₂.trans leads₃), works₃, limit₂, hid, running, rfl,
    by rw [← h.settings]; rfl⟩

/-- After an accepted start, its pipeline can take the session to its end. -/
theorem Effect.can_finish (h : Effect e (.start user r (.ok id)) c e') (hn : e.now.Valid)
    (quiet : e'.backend.faults = {}) (pages : 0 < e.settings.pageSize)
    (fits : e.settings.queueSize ≤ Pool.maxCapacity) {lo hi : Instant}
    (bounds : e.settings.partLength.normalize? r.start r.stop = some (lo, hi))
    (kept : lo.reread = lo ∧ hi.reread = hi) (room : lo.HasRoom e.settings.partLength.step) :
    ∃ e'' s, e'.Leads e'' ∧ e''.At e.pipelines.length s (.ended (.ok ())) ∧ s.id = id ∧
      s.status = .finish := by
  obtain ⟨s, tasks, at', hid, running, limit, laidOut, windows⟩ :=
    h.lays_out hn quiet pages bounds kept room
  obtain ⟨e'', s', leads, ended, grown, finished⟩ :=
    at'.finishes running limit (h.settings ▸ fits) laidOut windows
  exact ⟨e'', s', leads, ended, grown.id.trans hid, finished⟩

end Engine

namespace Site

variable {allowed : Site → Event → Prop} {w : Site} {i : Nat} {e e' : Engine}

theorem Reaches.trans {w' w'' : Site} (h : Reaches allowed w w') (g : Reaches allowed w' w'') :
    Reaches allowed w w'' := by
  induction g with
  | refl => exact h
  | tail _ ok step ih => exact ih.tail ok step

theorem Reaches.imp {allowed' : Site → Event → Prop} {w' : Site} (h : Reaches allowed w w')
    (himp : ∀ w ev, allowed w ev → allowed' w ev) : Reaches allowed' w w' := by
  induction h with
  | refl => exact .refl w
  | tail _ ok step ih => exact ih.tail (himp _ _ ok) step

theorem reaches_of_leads (moves : ∀ w i m, allowed w (.serve i (.move m)))
    (found : w.services[i]? = some e) (same : w.enter e = e) (leads : e.Leads e') :
    ∃ w', Reaches allowed w w' ∧ w'.services[i]? = some e' ∧ w'.enter e' = e' ∧
      w'.accepted = w.accepted := by
  obtain ⟨run, -⟩ := leads
  induction run with
  | refl => exact ⟨w, .refl w, found, same, rfl⟩
  | @tail b c _ step ih =>
    obtain ⟨w', before, found', same', accepted⟩ := ih
    obtain ⟨m, hm⟩ := step
    obtain ⟨w'', step, found'', same'', accepted'⟩ := step_of_found found' same' (.move hm)
    exact ⟨w'', before.tail (moves w' i m) step, found'', same'', accepted'.trans accepted⟩

/-- The start of the sample, as it is accepted. -/
def auditAccepted : Acceptance :=
  { id := Engine.auditId, user := anonymous, request := Engine.audit,
    now := Engine.newYear, length := ⟨.ofSecs 3600, by decide, by decide, by decide⟩ }

/-- The first hour of 2024 can be exported. -/
theorem audit_can_finish :
    ∃ w s, Reaches (NewIds Set.univ) ⟨{}, .empty, [], [], []⟩ w ∧
      w.backend.records.shelf.session auditAccepted.id = some s ∧ s.status = .finish ∧
      w.accepted = [auditAccepted] := by
  obtain ⟨e₀, b, e₁, created, same₀, start, quiet, pages, fits, bounds, room, accepted⟩ :
      ∃ e₀ b e₁,
        Engine.create Engine.hourly {} Engine.newYear { linkBase := "" } = (.ok e₀, b) ∧
          enter ⟨b, .empty, [e₀], [], []⟩ e₀ = e₀ ∧
          Engine.Step e₀ (.start none Engine.audit (.ok Engine.auditId)) e₁ ∧
          e₁.backend.faults = {} ∧ 0 < e₀.settings.pageSize ∧
          e₀.settings.queueSize ≤ Pool.maxCapacity ∧
          e₀.settings.partLength.normalize? Engine.audit.start Engine.audit.stop =
            some (Engine.newYear, ⟨1704070800, 0⟩) ∧
          Engine.newYear.HasRoom e₀.settings.partLength.step ∧
          Engine.Event.acceptance? e₀ (.start none Engine.audit (.ok Engine.auditId)) =
            some auditAccepted :=
    ⟨_, _, _, rfl, rfl, .start Engine.exact_audit rfl, rfl, by decide, by decide, rfl, by decide,
      rfl⟩
  have construct : Step ⟨{}, .empty, [], [], []⟩ .construct ⟨b, .empty, [e₀], [], []⟩ :=
    .constructed (by decide) (by decide) created
  have run₀ : Reaches (NewIds Set.univ) ⟨{}, .empty, [], [], []⟩ ⟨b, .empty, [e₀], [], []⟩ :=
    .tail (.refl _) (by trivial) construct
  have free : NewIds Set.univ ⟨b, .empty, [e₀], [], []⟩
      (.serve 0 (.start none Engine.audit (.ok Engine.auditId))) := by
    intro _
    obtain ⟨hb, -, -, -, -, -, -, hrec⟩ := Engine.created created
    show b.records.get? _ = none
    rw [← hb, hrec, KeyMap.get?_dropLock]
    rfl
  obtain ⟨w₁, step₁, found₁, same₁, accepted₁⟩ :=
    step_of_found (rfl : [e₀][0]? = some e₀) same₀ start
  have sound₀ := Engine.sound_of_create (by decide) (by decide) created
  obtain ⟨c, effect⟩ := sound₀.effect start
  obtain ⟨e₂, s, leads, ended, hid, finished⟩ :=
    effect.can_finish sound₀.now quiet pages fits bounds ⟨by decide, by decide⟩ room
  have moves : ∀ w i m, NewIds Set.univ w (.serve i (.move m)) := fun _ _ _ => trivial
  obtain ⟨w, run, -, same, accepted'⟩ := reaches_of_leads moves found₁ same₁ leads
  have stored := ended.holds.stored
  rw [← same, hid] at stored
  refine ⟨w, s, (run₀.tail free step₁).trans run, stored, finished, ?_⟩
  rw [accepted', accepted₁, accepted]
  rfl

end Site

end LogExport
