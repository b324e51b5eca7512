import LogExport.Proofs.Service.Account
import LogExport.Proofs.Service.Identity

/-! Which moments a finished export has searched. The windows are those of the
stored session, so they tile the range that was asked for if the session keeps
the window and the bounds, and if its parts reach the start. -/

namespace LogExport

/-- The session is one that the accepted start has stored, however far it has
come since. -/
structure Acceptance.Agrees (a : Acceptance) (lo hi : Instant) (s : Session) : Prop where
  exact : a.request.Exact
  sound : Engine.requestFault? a.length.length a.request = none
  bounds : a.length.normalize? a.request.start a.request.stop = some (lo, hi)
  count : partitionCount? lo hi a.length.length = some s.partCount
  start : s.start = lo.reread
  stop : s.stop = hi.reread
  window : s.window = a.request.window.stored
  partLength : s.partLength = a.length.length

namespace Acceptance

variable {a : Acceptance} {lo hi : Instant} {s s' : Session}

theorem Agrees.mono (h : a.Agrees lo hi s) (g : s.Grown s') : a.Agrees lo hi s' :=
  { h with
    count := g.partCount ▸ h.count
    start := g.start ▸ h.start
    stop := g.stop ▸ h.stop
    window := g.window ▸ h.window
    partLength := g.partLength ▸ h.partLength }

end Acceptance

theorem Duration.stored_step_pos (d : Duration) : 0 < d.stored.step ↔ 0 < d.roundedMillis := by
  have hm : maxInt64 = 9223372036854775807 := rfl
  simp only [step, stored, ofMillis, hm]
  omega

namespace Engine

variable {e e' : Engine} {ev : Event} {c : Change} {a : Acceptance}

/-- An accepted start stores a session that agrees with it. -/
theorem Effect.agrees (h : Effect e ev c e') (ha : ev.acceptance? e = some a) :
    ∃ s lo hi, c = .start s ∧ s.id = a.id ∧ a.Agrees lo hi s := by
  cases h with
  | quiet free =>
    cases ev with
    | start user r answer =>
      cases answer with
      | error err => cases ha
      | ok id => cases free
    | _ => cases ha
  | @started user name r lo hi parts _ allowed exact sound bounds count =>
    simp only [Event.acceptance?, allowed, Option.some.injEq] at ha
    subst ha
    refine ⟨_, lo, hi, rfl, rfl, ?_⟩
    exact
      { exact, sound, bounds
        count := by rw [count, Session.partCount]; exact congrArg some (List.length_replicate).symm
        start := rfl
        stop := rfl
        window := rfl
        partLength := PartLength.stored_length _ }
  | restored => cases ha
  | moved => cases ha

/-- The id of an accepted start is that of the answer. -/
theorem Effect.acceptance_start {user : Option String} {r : ExportRequest} {id : String}
    (h : Effect e (.start user r (.ok id)) c e') :
    ∃ b, Event.acceptance? e (.start user r (.ok id)) = some b ∧ b.id = id := by
  cases h with
  | quiet free => cases free
  | @started _ name _ _ _ _ _ allowed =>
    exact ⟨⟨Session.idOf name r.name e.now, name, r, e.now, e.settings.partLength⟩,
      by simp only [Event.acceptance?, allowed], rfl⟩

end Engine

namespace Site

variable {ids : Set String} {w₀ w w' : Site} {ev : Event}

/-- Under the ids, every accepted start has left the session that it stored. -/
def Booked (ids : Set String) (w : Site) : Prop :=
  ∀ a ∈ w.accepted, a.id ∈ ids →
    ∃ s lo hi, w.backend.records.shelf.session a.id = some s ∧ a.Agrees lo hi s

theorem Booked.step (h : w.Booked ids) (sound : w.Sound ids) (new : NewIds ids w ev)
    (step : Step w ev w') : w'.Booked ids := by
  have grows := sound.grows new step
  have old : ∀ a ∈ w.accepted, a.id ∈ ids →
      ∃ s lo hi, w'.backend.records.shelf.session a.id = some s ∧ a.Agrees lo hi s := by
    intro a ha hid
    obtain ⟨s, lo, hi, hs, agrees⟩ := h a ha hid
    obtain ⟨s', hs', g⟩ := grows a.id hid s hs
    exact ⟨s', lo, hi, hs', agrees.mono g⟩
  cases step with
  | constructed => exact old
  | refused => exact old
  | @served i x e e' found hx =>
    intro a ha hid
    rcases List.mem_append.1 ha with ha | ha
    · obtain ⟨c, he⟩ := sound.orderly.effect found hx
      obtain ⟨s, lo, hi, rfl, hs, agrees⟩ := he.agrees (Option.mem_toList.1 ha)
      exact ⟨s, lo, hi, hs ▸ he.records.2.started, agrees⟩
    · exact old a ha hid

theorem Booked.reaches (h : w.Booked ids) (sound : w.Sound ids)
    (run : Reaches (NewIds ids) w w') : w'.Booked ids := by
  have both {w w' : Site} {ev : Event} (h : w.Booked ids ∧ w.Sound ids) (new : NewIds ids w ev)
      (step : Step w ev w') : w'.Booked ids ∧ w'.Sound ids :=
    ⟨h.1.step h.2 new step, h.2.step new step⟩
  exact (run.keeps both ⟨h, sound⟩).1

/-- The starts that were accepted under an id. -/
def under (w : Site) (id : String) : List Acceptance := w.accepted.filter (·.id = id)

/-- A start under an id adds to those accepted under it. -/
theorem under_step (orderly : w.Orderly) (step : Step w ev w') (id : String) :
    (w.under id).length ≤ (w'.under id).length ∧
      ∀ i user r, ev = .serve i (.start user r (.ok id)) →
        (w.under id).length < (w'.under id).length := by
  cases step with
  | constructed => exact ⟨le_rfl, by rintro _ _ _ ⟨⟩⟩
  | refused => exact ⟨le_rfl, by rintro _ _ _ ⟨⟩⟩
  | @served i x e e' found hx =>
    simp only [under, List.filter_append, List.length_append]
    refine ⟨Nat.le_add_left _ _, ?_⟩
    rintro _ user r ⟨⟩
    obtain ⟨c, he⟩ := orderly.effect found hx
    obtain ⟨b, hb, hid⟩ := he.acceptance_start
    simp only [hb, Option.toList_some, List.filter_cons, hid, decide_true, if_true,
      List.filter_nil, List.length_singleton]
    omega

/-- A single start under an id that was free has met no session. -/
theorem newIds_of_under {id : String} (untouched : w₀.Untouched)
    (free : w₀.backend.records.get? (SessionKey.encode id) = none)
    (run : Reaches (fun _ _ => True) w₀ w) (single : (w.under id).length ≤ 1) :
    Reaches (NewIds {id}) w₀ w := by
  induction run with
  | refl => exact .refl _
  | @tail w w' ev before _ step ih =>
    have h := (accounted_of_untouched untouched).reaches before
    obtain ⟨hle, hlt⟩ := under_step h.orderly step id
    refine .tail (ih (hle.trans single)) ?_ step
    cases ev with
    | construct => trivial
    | serve i x =>
      cases x with
      | start user r answer =>
        cases answer with
        | error err => trivial
        | ok id' =>
          rintro rfl
          by_contra hsome
          have hon := (h.stored id').1 (Option.isSome_iff_ne_none.2 hsome)
          rw [free] at hon
          obtain ⟨a, ha, hid⟩ := hon.resolve_left Bool.false_ne_true
          have hmem : a ∈ w.under id' := List.mem_filter.2 ⟨ha, decide_eq_true hid⟩
          have hpos := List.length_pos_of_mem hmem
          have hmore := hlt i user r rfl
          omega
      | _ => trivial

/-- All windows that were searched to their last page for a session. -/
def searched (w : Site) (id : String) : Set (Instant × Instant) :=
  {v | Searched w.deeds id v}

/-- For a session that has finished, the windows of its parts were searched, and
no others. -/
theorem Sound.searched_eq {id : String} {s : Session} (h : w.Sound ids) (hid : id ∈ ids)
    (found : w.backend.records.shelf.session id = some s) (finished : s.status = .finish) :
    ∃ ps, s.LaidOut ps ∧ (∀ p ∈ ps, ∃ ws, windows? p.start p.stop s.window = some ws) ∧
      w.searched id = windowsOver ps s.window ∧
      ∀ r events, .page r events ∈ w.deeds → r.sessionId = id →
        (r.start, r.stop) ∈ w.searched id := by
  obtain ⟨full, ps, -, laidOut, -⟩ := h.account.finish id hid s found finished
  have own := (h.account.own id s found).1
  have parts := fun i => h.account.parts id hid s i found
  have asked : ∀ r events, .page r events ∈ w.deeds → r.sessionId = id →
      (r.start, r.stop) ∈ windowsOver ps s.window := by
    rintro r events hr rfl
    obtain ⟨t, qs, p, ws, ht, laidOut', hp, hws, hmem⟩ := h.account.proper _ hr hid
    rw [found] at ht
    cases ht
    obtain rfl : qs = ps := Option.some.inj (laidOut'.parts.symm.trans laidOut.parts)
    exact ⟨p, hp, ws, hws, hmem⟩
  have done : windowsOver ps s.window ⊆ w.searched id := by
    rintro v ⟨p, hp, ws, hws, hv⟩
    obtain ⟨ws', hws', all⟩ := (laidOut.delivered full parts hp).searched
    obtain rfl : ws = ws' := Option.some.inj (hws.symm.trans hws')
    rw [own] at all
    exact all v hv
  refine ⟨ps, laidOut, fun p hp => ?_, ?_, fun r events hr hid => done (asked r events hr hid)⟩
  · obtain ⟨ws, hws, -⟩ := (laidOut.delivered full parts hp).searched
    exact ⟨ws, hws⟩
  · refine Set.Subset.antisymm ?_ done
    rintro _ ⟨r, events, hr, hid, rfl, -⟩
    exact asked r events hr hid

/-- When an export that has finished has searched every moment of the range
exactly once. The range is widened to the bounds of parts before. There has to
be a window, once it is rounded to milliseconds; the bounds must be what is read
back of them; and leap seconds at the bounds must not throw off the count of
parts. Nothing else can make an export leave a moment out. -/
theorem searched_tiles_iff {a : Acceptance} {s : Session} (untouched : w₀.Untouched)
    (rooted : w₀.backend.records.shelf.Rooted)
    (free : w₀.backend.records.get? (SessionKey.encode a.id) = none)
    (run : Reaches (fun _ _ => True) w₀ w) (only : w.under a.id = [a])
    (found : w.backend.records.shelf.session a.id = some s) (finished : s.status = .finish) :
    ∃ lo hi, a.length.normalize? a.request.start a.request.stop = some (lo, hi) ∧
      lo ≤ a.request.start.utc ∧ a.request.stop.utc ≤ hi ∧
      (∀ r events, .page r events ∈ w.deeds → r.sessionId = a.id →
        (r.start, r.stop) ∈ w.searched a.id) ∧
      (Tiles (w.searched a.id) lo hi ↔
        0 < a.request.window.roundedMillis ∧ lo.reread = lo ∧ hi.reread = hi ∧
          ¬ Instant.Skips lo hi a.length.step) := by
  have single : (w.under a.id).length ≤ 1 := by rw [only]; exact le_rfl
  have run' := newIds_of_under untouched free run single
  have sound₀ : w₀.Sound {a.id} := by
    refine sound_of_untouched untouched rooted ?_
    rintro _ rfl
    simp only [KeyMap.shelf, free, Option.bind_none]
  have booked₀ : w₀.Booked {a.id} := fun b hb => by rw [untouched.accepted] at hb; cases hb
  have sound := sound₀.reaches run'
  have hmem : a ∈ w.accepted := (List.mem_filter.1 (only ▸ List.mem_singleton_self a)).1
  obtain ⟨t, lo, hi, ht, agrees⟩ := booked₀.reaches sound₀ run' a hmem rfl
  rw [found] at ht
  cases ht
  obtain ⟨ps, laidOut, hws, hsearched, hall⟩ := sound.searched_eq rfl found finished
  obtain ⟨hlo, hhi, hle, hge⟩ :=
    PartLength.normalize?_spec agrees.exact.start agrees.exact.stop agrees.bounds
  refine ⟨lo, hi, agrees.bounds, hle, hge, hall, ?_⟩
  have hlt : lo < hi := (hle.trans_lt (Engine.lt_of_sound agrees.sound)).trans_le hge
  have parts := laidOut.parts
  rw [Session.parts?, agrees.start, agrees.stop, agrees.partLength] at parts
  rw [hsearched, tiles_iff hlo hhi hlt (laidOut.length ▸ agrees.count) parts hws, agrees.window,
    Duration.stored_step_pos]

theorem searched_tiles_iff_audit :
    ∃ w, Reaches (fun _ _ => True) ⟨{}, .empty, [], [], []⟩ w ∧
      Tiles (w.searched auditAccepted.id) Engine.newYear ⟨1704070800, 0⟩ := by
  obtain ⟨w, s, run, found, finished, accepted⟩ := audit_can_finish
  have run' : Reaches (fun _ _ => True) ⟨{}, .empty, [], [], []⟩ w :=
    run.imp fun _ _ _ => trivial
  have only : w.under auditAccepted.id = [auditAccepted] := by
    rw [under, accepted]
    rfl
  obtain ⟨lo, hi, bounds, -, -, -, tiles⟩ :=
    searched_tiles_iff ⟨rfl, rfl, rfl⟩ (fun _ _ h => by cases h) rfl run' only found finished
  have known : auditAccepted.length.normalize? auditAccepted.request.start
      auditAccepted.request.stop = some (Engine.newYear, ⟨1704070800, 0⟩) := rfl
  rw [known] at bounds
  cases bounds
  exact ⟨w, run', tiles.2 ⟨by decide, by decide, by decide, by unfold Instant.Skips; decide⟩⟩

end Site

end LogExport
