import LogExport.Proofs.Service.Coverage
import LogExport.Proofs.Session.Paths

/-! Where all that is stored comes from. On storage that was empty at first every
session is that of an accepted start, whoever has taken it up since, and every
file is one of such a session. -/

namespace LogExport

/-- What is stored after a change has grown from what was stored before, or is
stored anew. -/
theorem Shelf.Step.grown_from {v v' : Shelf} {c : Change} {id : String} {s' : Session}
    (h : v.Step c v') (hs : v'.session id = some s') :
    (∃ s, v.session id = some s ∧ s.Grown s') ∨ c = .start s' ∧ s'.id = id := by
  have kept (hv : v.session id = some s') : ∃ s, v.session id = some s ∧ s.Grown s' :=
    ⟨s', hv, .refl s'⟩
  have updated {i : String} {s t : Session} (found : v.session i = some s) (g : s.Grown t)
      (ht : Function.update v.session i (some t) id = some s') :
      ∃ s, v.session id = some s ∧ s.Grown s' := by
    by_cases hid : id = i
    · subst hid
      rw [Function.update_self] at ht
      cases ht
      exact ⟨s, found, g⟩
    · rw [Function.update_of_ne hid] at ht
      exact kept ht
  cases h with
  | @start s =>
    dsimp only at hs
    by_cases hid : id = s.id
    · subst hid
      rw [Function.update_self] at hs
      cases hs
      exact .inr ⟨rfl, rfl⟩
    · rw [Function.update_of_ne hid] at hs
      exact .inl (kept hs)
  | conclude found => exact .inl (updated found (Session.grown_ended _ _ _ _) hs)
  | confirm found => exact .inl (updated found (Session.grown_confirm _ _ _) hs)
  | _ => exact .inl (kept hs)

namespace Acceptance

variable {a : Acceptance} {lo hi : Instant} {s : Session} {ps : List Partition}

/-- The parts of an accepted export begin and end with whole seconds. -/
theorem Agrees.aligned (h : a.Agrees lo hi s) : s.Aligned := by
  obtain ⟨lower, upper, -, -⟩ := PartLength.normalize?_spec h.exact.start h.exact.stop h.bounds
  refine ⟨h.start ▸ Instant.isExact_reread lower, h.stop ▸ Instant.isExact_reread upper, ?_⟩
  rw [h.partLength, PartLength.step_eq]
  exact a.length.step_mod_second

/-- And no part of it is empty. -/
theorem Agrees.start_lt_stop (h : a.Agrees lo hi s) (parts : s.parts? = some ps) :
    ∀ p ∈ ps, p.start < p.stop := by
  rw [Session.parts?, h.partLength] at parts
  exact start_lt_stop_of_partitions? h.aligned.start.whole h.aligned.stop.whole parts

end Acceptance

namespace Engine

variable {e e' : Engine} {ev : Event} {c : Change}

/-- A session is stored anew with a start that was accepted. -/
theorem Effect.agrees_of_start {s : Session} (h : Effect e ev (.start s) e') :
    ∃ a, ev.acceptance? e = some a ∧ ∃ lo hi, a.id = s.id ∧ a.Agrees lo hi s := by
  rcases h.acceptance? with ⟨-, none⟩ | ⟨a, -, ha, -⟩
  · cases none
  · obtain ⟨t, lo, hi, ht, same, agrees⟩ := h.agrees ha
    cases ht
    exact ⟨a, ha, lo, hi, same.symm, agrees⟩

/-- A pipeline works for the session that one of the service worked for before,
for one that was just accepted, or for one that is stored. -/
theorem Effect.pipeline_from (h : Effect e ev c e') {p : Pipeline} (hp : p ∈ e'.pipelines) :
    (∃ q ∈ e.pipelines, q.session = p.session) ∨
      (∃ a, ev.acceptance? e = some a ∧ a.id = p.session) ∨
      ∃ s, e.backend.records.shelf.session p.session = some s := by
  cases h with
  | quiet _ _ _ pipelines => exact .inl ⟨p, pipelines ▸ hp, rfl⟩
  | @started _ name r _ _ _ _ allowed _ _ _ _ pipelines =>
    rw [pipelines] at hp
    rcases List.mem_append.1 hp with hp | hp
    · exact .inl ⟨p, hp, rfl⟩
    · obtain rfl := List.mem_singleton.1 hp
      refine .inr (.inl ⟨⟨Session.idOf name r.name e.now, name, r, e.now,
        e.settings.partLength⟩, ?_, rfl⟩)
      simp only [Event.acceptance?, allowed]
  | restored pipelines _ _ _ records =>
    rw [pipelines] at hp
    rcases List.mem_append.1 hp with hp | hp
    · exact .inl ⟨p, hp, rfl⟩
    · obtain rfl := List.mem_singleton.1 hp
      obtain ⟨⟨s, found, -⟩, -⟩ := records.2.of_restore
      exact .inr (.inr ⟨s, found⟩)
  | moved hm =>
    rw [hm.pipelines] at hp
    rcases List.mem_or_eq_of_mem_set hp with hp | rfl
    · exact .inl ⟨p, hp, rfl⟩
    · exact .inl ⟨_, List.mem_of_getElem? hm.found, rfl⟩

/-- What is done outside is done for the session of a pipeline. -/
theorem Effect.deed_from (h : Effect e ev c e') (rooted : e.backend.records.shelf.Rooted)
    (tame : ∀ p ∈ e.pipelines, p.stage.Tame p.session) :
    ∀ d ∈ ev.deed? e, ∃ p ∈ e.pipelines, d.Belongs p.session := by
  intro d hd
  cases h with
  | quiet _ still =>
    rw [still] at hd
    cases hd
  | started => cases hd
  | restored => cases hd
  | @moved m i id stage stage' c _ h =>
    have hmem := List.mem_of_getElem? h.found
    exact ⟨_, hmem, (h.step.tame (rooted id) (tame _ hmem)).2.1 d hd⟩

end Engine

namespace Site

/-- Sessions, pipelines and files all go back to an accepted start. -/
structure Traced (w : Site) : Prop where
  sessions : ∀ id s, w.backend.records.shelf.session id = some s →
    ∃ a ∈ w.accepted, ∃ lo hi, a.id = id ∧ a.Agrees lo hi s
  pipelines : ∀ e ∈ w.services, ∀ p ∈ e.pipelines, ∃ a ∈ w.accepted, a.id = p.session
  files : ∀ path content, .put path content ∈ w.deeds → ∃ a ∈ w.accepted, IsOutputPath a.id path

variable {w₀ w w' : Site} {ev : Event}

theorem newIds_empty (w : Site) (ev : Event) : NewIds ∅ w ev := by
  cases ev with
  | construct => trivial
  | serve i x =>
    cases x with
    | start user r answer =>
      cases answer with
      | error err => trivial
      | ok id => exact fun h => h.elim
    | _ => trivial

theorem traced_of_untouched (h : w.Untouched) (empty : w.backend.records = .empty) : w.Traced where
  sessions id s hs := by
    rw [empty] at hs
    cases hs
  pipelines e he := by
    rw [h.services] at he
    cases he
  files path content hd := by
    rw [h.deeds] at hd
    cases hd

theorem Traced.dropLock {b : Backend} {new : List Engine} (h : w.Traced)
    (hb : b.records = w.backend.records ∨
      b.records = w.backend.records.write SessionStore.dropLock)
    (idle : ∀ e ∈ new, e.pipelines = []) :
    Traced { w with backend := b, services := w.services ++ new } where
  sessions id s hs := by
    refine h.sessions id s ?_
    rcases hb with hb | hb
    · exact hb ▸ hs
    · rw [hb, KeyMap.shelf_dropLock] at hs
      exact hs
  pipelines e he p hp := by
    rcases List.mem_append.1 he with he | he
    · exact h.pipelines e he p hp
    · rw [idle e he] at hp
      cases hp
  files := h.files

/-- A service adds to what can be traced only with an accepted start. -/
theorem Traced.step (h : w.Traced) (sound : w.Sound ∅) (step : Step w ev w') : w'.Traced := by
  cases step with
  | constructed clock pages hc =>
    obtain ⟨rfl, -, -, hp, -, -, -, hrec⟩ := Engine.created hc
    refine h.dropLock (.inr hrec) fun x hx => ?_
    obtain rfl := List.mem_singleton.1 hx
    exact hp
  | refused hc =>
    have hd := @Traced.dropLock w _ [] h (Engine.refused hc) fun x hx => by cases hx
    rwa [List.append_nil] at hd
  | @served i x e e' found hx =>
    obtain ⟨c, he, -, -, -⟩ := sound.effect (newIds_empty w _) found hx
    have hmem := List.mem_of_getElem? found
    have sub : w.accepted ⊆ (x.acceptance? (w.enter e)).toList ++ w.accepted :=
      List.subset_append_right _ _
    refine ⟨fun id s hs => ?_, fun y hy p hp => ?_, fun path content hd => ?_⟩
    · rcases he.records.2.grown_from hs with ⟨t, ht, g⟩ | ⟨rfl, hid⟩
      · obtain ⟨a, ha, lo, hi, hid, agrees⟩ := h.sessions id t ht
        exact ⟨a, sub ha, lo, hi, hid, agrees.mono g⟩
      · obtain ⟨a, ha, lo, hi, same, agrees⟩ := he.agrees_of_start
        exact ⟨a, List.mem_append_left _ (Option.mem_toList.2 ha), lo, hi, same.trans hid, agrees⟩
    · rcases List.mem_or_eq_of_mem_set hy with hy | rfl
      · obtain ⟨a, ha, hid⟩ := h.pipelines y hy p hp
        exact ⟨a, sub ha, hid⟩
      rcases he.pipeline_from hp with ⟨q, hq, same⟩ | ⟨a, ha, hid⟩ | ⟨s, hs⟩
      · obtain ⟨a, ha, hid⟩ := h.pipelines e hmem q hq
        exact ⟨a, sub ha, hid.trans same⟩
      · exact ⟨a, List.mem_append_left _ (Option.mem_toList.2 ha), hid⟩
      · obtain ⟨a, ha, -, -, hid, -⟩ := h.sessions p.session s hs
        exact ⟨a, sub ha, hid⟩
    · rcases List.mem_append.1 hd with hd | hd
      · obtain ⟨p, hp, belongs⟩ := he.deed_from sound.account.own
          (fun p hp => (sound.fits e hmem p hp).1) _ (Option.mem_toList.1 hd)
        obtain ⟨a, ha, hid⟩ := h.pipelines e hmem p hp
        exact ⟨a, sub ha, hid ▸ belongs⟩
      · obtain ⟨a, ha, hpath⟩ := h.files path content hd
        exact ⟨a, sub ha, hpath⟩

/-- On storage that was empty at first, all that is stored can be traced. -/
theorem traced_of_reaches (untouched : w₀.Untouched) (empty : w₀.backend.records = .empty)
    (run : Reaches (fun _ _ => True) w₀ w) : w.Sound ∅ ∧ w.Traced := by
  have rooted : w₀.backend.records.shelf.Rooted := fun i t ht => by rw [empty] at ht; cases ht
  refine run.keeps (P := fun w => w.Sound ∅ ∧ w.Traced) (fun h _ step => ?_)
    ⟨sound_of_untouched untouched rooted fun id h => h.elim, traced_of_untouched untouched empty⟩
  exact ⟨h.1.step (newIds_empty _ _) step, h.2.step h.1 step⟩

end Site

end LogExport
