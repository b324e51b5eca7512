import LogExport.Proofs.Service.Lock

/-! Storage and a file store with all the services that were ever constructed
over them. The services share what is stored and nothing else. What they do
outside and which starts they accept is written down as it happens. -/

namespace LogExport

open Access

/-- A start that was accepted. -/
structure Acceptance where
  id : String
  user : String
  request : ExportRequest
  now : Instant
  length : PartLength

namespace Engine

/-- What an event says of an accepted start. -/
def Event.acceptance? (e : Engine) : Event → Option Acceptance
  | start user r (.ok id) =>
    match e.authorize user with
    | .ok name =>
      some { id, user := name, request := r, now := e.now, length := e.settings.partLength }
    | .error _ => none
  | _ => none

end Engine

structure Site where
  backend : Backend
  objects : KeyMap Content
  /-- All services, oldest first. One that is no longer in use takes no steps. -/
  services : List Engine
  /-- All deeds, newest first. -/
  deeds : List Deed
  /-- All accepted starts, newest first. -/
  accepted : List Acceptance

namespace Site

inductive Event where
  /-- A service is constructed, or its construction fails. -/
  | construct
  | serve (i : Nat) (ev : Engine.Event)

/-- A service that finds what the others have stored. -/
def enter (w : Site) (e : Engine) : Engine :=
  { e with backend := w.backend, files.objects := w.objects }

/-- The site before and after an event. -/
inductive Step (w : Site) : Event → Site → Prop
  | constructed {s : ExportSettings} {now : Instant} {linkBase : String} {coder : Gzip.Coder}
      {e : Engine} {b : Backend} (clock : now.Valid) (pages : s.pageSize ≤ Numeral.maxUInt64)
      (h : Engine.create s w.backend now ⟨w.objects, linkBase, coder⟩ = (.ok e, b)) :
    Step w .construct { w with backend := b, services := w.services ++ [e] }
  | refused {s : ExportSettings} {now : Instant} {linkBase : String} {coder : Gzip.Coder}
      {err : Error} {b : Backend}
      (h : Engine.create s w.backend now ⟨w.objects, linkBase, coder⟩ = (.error err, b)) :
    Step w .construct { w with backend := b }
  | served {i : Nat} {ev : Engine.Event} {e e' : Engine} (found : w.services[i]? = some e)
      (step : Engine.Step (w.enter e) ev e') :
    Step w (.serve i ev)
      { backend := e'.backend
        objects := e'.files.objects
        services := w.services.set i e'
        deeds := (ev.deed? (w.enter e)).toList ++ w.deeds
        accepted := (ev.acceptance? (w.enter e)).toList ++ w.accepted }

/-- Events one after the other, each of them allowed where it happens. -/
inductive Reaches (allowed : Site → Event → Prop) : Site → Site → Prop
  | refl (w : Site) : Reaches allowed w w
  | tail {w w' w'' : Site} {ev : Event} (before : Reaches allowed w w') (ok : allowed w' ev)
      (step : Step w' ev w'') : Reaches allowed w w''

/-- What allowed events keep is true after any number of them. -/
theorem Reaches.keeps {allowed : Site → Event → Prop} {P : Site → Prop} {w w' : Site}
    (run : Reaches allowed w w')
    (step : ∀ {w w' ev}, P w → allowed w ev → Step w ev w' → P w') (h : P w) : P w' := by
  induction run with
  | refl => exact h
  | tail _ ok taken ih => exact step ih ok taken

/-- A service that finds its own state takes its steps at the site, and finds its
own state again. -/
theorem step_of_found {w : Site} {i : Nat} {e e' : Engine} {x : Engine.Event}
    (found : w.services[i]? = some e) (same : w.enter e = e) (step : Engine.Step e x e') :
    ∃ w', Step w (.serve i x) w' ∧ w'.services[i]? = some e' ∧ w'.enter e' = e' ∧
      w'.accepted = (x.acceptance? e).toList ++ w.accepted := by
  rw [← same] at step
  refine ⟨_, .served found step, ?_, rfl, ?_⟩
  · obtain ⟨hlt, -⟩ := List.getElem?_eq_some_iff.1 found
    exact List.getElem?_set_self hlt
  · rw [same]

/-- Nothing has happened yet. -/
structure Untouched (w : Site) : Prop where
  services : w.services = []
  deeds : w.deeds = []
  accepted : w.accepted = []

/-- No start is accepted under one of the ids while it is stored. -/
def NewIds (ids : Set String) (w : Site) : Event → Prop
  | .serve _ (.start _ _ (.ok id)) =>
    id ∈ ids → w.backend.records.get? (SessionKey.encode id) = none
  | _ => True

/-- What is true of a service at any time. -/
structure Fit (e : Engine) : Prop where
  now : e.now.Valid
  pageSize : e.settings.pageSize ≤ Numeral.maxUInt64

/-- The records are in good order once a service could be constructed. -/
structure Orderly (w : Site) : Prop where
  filed : w.services ≠ [] → w.backend.records.Filed
  fit : ∀ e ∈ w.services, Fit e

variable {w w' : Site} {ev : Event}

theorem orderly_of_untouched (h : w.Untouched) : w.Orderly :=
  ⟨fun hne => absurd h.services hne, fun e he => by rw [h.services] at he; cases he⟩

end Site

namespace Engine

/-- A construction that fails clears the lock at most. -/
theorem refused {s : ExportSettings} {b b' : Backend} {now : Instant} {files : Files} {err : Error}
    (h : create s b now files = (.error err, b')) :
    b'.records = b.records ∨ b'.records = b.records.write SessionStore.dropLock := by
  unfold create at h
  split at h
  · cases h
    exact .inl rfl
  rcases hg : (do
      SessionStore.unlock
      let _ ← SessionStore.all : Access Unit).run.run b with ⟨r, b₁⟩
  simp only [access, hg] at h
  obtain ⟨-, rfl⟩ := Prod.mk.inj h
  rcases gives_bind.1 hg with ⟨_, hu, -⟩ | ⟨_, b₂, hu, hg⟩
  · rcases SessionStore.gives_unlock hu with ⟨_, -, hb⟩ | ⟨he, -⟩
    · exact .inl hb
    · cases he
  rcases SessionStore.gives_unlock hu with ⟨_, he, -⟩ | ⟨-, hb₂⟩
  · cases he
  right
  rcases gives_bind.1 hg with ⟨_, ha, -⟩ | ⟨ss, b₃, ha, hp⟩
  · exact (SessionStore.gives_all ha).1.trans hb₂
  · obtain ⟨-, rfl⟩ := gives_pure.1 hp
    exact (SessionStore.gives_all ha).1.trans hb₂

end Engine

namespace Site

variable {w w' : Site} {ev : Event}

theorem Orderly.effect {i : Nat} {x : Engine.Event} {e e' : Engine} (h : w.Orderly)
    (found : w.services[i]? = some e) (step : Engine.Step (w.enter e) x e') :
    ∃ c, Engine.Effect (w.enter e) x c e' := by
  have hmem := List.mem_of_getElem? found
  obtain ⟨hn, hp⟩ := h.fit e hmem
  exact step.effect (h.filed (List.ne_nil_of_mem hmem)) hn hp

theorem Orderly.step (h : w.Orderly) (step : Step w ev w') : w'.Orderly := by
  cases step with
  | @constructed s now linkBase coder e b clock pages hc =>
    obtain ⟨rfl, rfl, -, -, hpage, filed, -⟩ := Engine.created hc
    refine ⟨fun _ => filed, fun x hx => ?_⟩
    rcases List.mem_append.1 hx with hx | hx
    · exact h.fit x hx
    · obtain rfl := List.mem_singleton.1 hx
      exact ⟨clock, hpage ▸ pages⟩
  | refused hc =>
    refine ⟨fun hne => ?_, h.fit⟩
    rcases Engine.refused hc with hb | hb
    · exact hb ▸ h.filed hne
    · exact hb ▸ (h.filed hne).dropLock
  | @served i x e e' found hx =>
    obtain ⟨c, he⟩ := h.effect found hx
    obtain ⟨hn, hp⟩ := h.fit e (List.mem_of_getElem? found)
    refine ⟨fun _ => he.records.1, fun y hy => ?_⟩
    rcases List.mem_or_eq_of_mem_set hy with hy | rfl
    · exact h.fit y hy
    · exact ⟨he.now hn, he.settings ▸ hp⟩

end Site

end LogExport
