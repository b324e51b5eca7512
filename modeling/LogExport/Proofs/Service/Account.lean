import LogExport.Proofs.Pipeline.Ownership
import LogExport.Proofs.Service.Finishing

/-! What is stored is backed by deeds. Whatever the order of calls, moves and
constructions, as long as no start is accepted under an id that is stored, the
flags of a session, its status and its manifest all tell what has been done. -/

namespace LogExport

namespace Shelf

/-- Every session is stored under its id and has the path root that is made of
it. -/
def Rooted (v : Shelf) : Prop :=
  ∀ id s, v.session id = some s → s.id = id ∧ s.pathRoot = "exports/" ++ id

theorem rooted_empty : ({} : Backend).records.shelf.Rooted := fun _ _ found => nomatch found

/-- What is stored under one of the ids is backed by deeds, and the deeds are
backed by what is stored. -/
structure Account (ids : Set String) (v : Shelf) (deeds : List Deed) : Prop where
  own : v.Rooted
  parts : ∀ id ∈ ids, ∀ s (i : Nat), v.session id = some s → s.uploaded[i]? = some true →
    s.PartDone deeds i
  finish : ∀ id ∈ ids, ∀ s, v.session id = some s → s.status = .finish → s.Complete deeds
  proper : ∀ d ∈ deeds, d.Proper ids v

variable {ids : Set String} {v v' : Shelf} {c : Change} {deeds : List Deed}

theorem grows_of_eq (h : v'.session = v.session) : v.Grows ids v' :=
  fun _ _ s hs => ⟨s, h ▸ hs, .refl s⟩

theorem Grows.proper (h : v.Grows ids v') {d : Deed} (hd : d.Proper ids v) : d.Proper ids v' := by
  cases d with
  | put path content =>
    intro id hid hpath
    obtain ⟨s, hs, hf⟩ := hd id hid hpath
    obtain ⟨s', hs', g⟩ := h id hid s hs
    exact ⟨s', hs', g.full hf⟩
  | page r events =>
    intro hid
    obtain ⟨s, ps, p, ws, hs, laidOut, hp, hws, hmem⟩ := hd hid
    obtain ⟨s', hs', g⟩ := h _ hid s hs
    exact ⟨s', ps, p, ws, hs', g.laidOut laidOut, hp, g.window ▸ hws, hmem⟩

/-- No earned change takes a session away or sets it back. -/
theorem Step.grows (h : v.Step c v') (earned : c.Earned ids v deeds) : v.Grows ids v' := by
  intro id hid s hs
  have kept : ∃ s', v.session id = some s' ∧ s.Grown s' := ⟨s, hs, .refl s⟩
  cases h with
  | @start t running free =>
    have hne : id ≠ t.id := by
      rintro rfl
      rw [earned.2.2 hid] at hs
      cases hs
    exact ⟨s, (Function.update_of_ne hne ..).trans hs, .refl s⟩
  | @conclude i _ _ _ _ found =>
    by_cases hi : id = i
    · subst hi
      rw [found] at hs
      cases hs
      exact ⟨_, Function.update_self .., Session.grown_ended _ _ _ _⟩
    · exact ⟨s, (Function.update_of_ne hi ..).trans hs, .refl s⟩
  | @confirm i _ _ _ found =>
    by_cases hi : id = i
    · subst hi
      rw [found] at hs
      cases hs
      exact ⟨_, Function.update_self .., Session.grown_confirm _ _ _⟩
    · exact ⟨s, (Function.update_of_ne hi ..).trans hs, .refl s⟩
  | _ => exact kept

theorem Account.more {more : List Deed} (h : v.Account ids deeds)
    (hm : ∀ d ∈ more, d.Proper ids v) : v.Account ids (more ++ deeds) := by
  have sub : deeds ⊆ more ++ deeds := List.subset_append_right _ _
  exact
    { own := h.own
      parts := fun id hid s i hs hi => (h.parts id hid s i hs hi).mono (.refl s) sub
      finish := fun id hid s hs hst => (h.finish id hid s hs hst).mono (.refl s) sub
      proper := fun d hd => (List.mem_append.1 hd).elim (hm d) (h.proper d) }

theorem Account.congr (h : v.Account ids deeds) (hv : v'.session = v.session) :
    v'.Account ids deeds :=
  { own := fun id s => by rw [hv]; exact h.own id s
    parts := fun id hid s i => by rw [hv]; exact h.parts id hid s i
    finish := fun id hid s => by rw [hv]; exact h.finish id hid s
    proper := fun d hd => (grows_of_eq hv).proper (h.proper d hd) }

/-- One session takes the place of what was stored under its id. -/
theorem Account.update {id : String} {t : Session} (h : v.Account ids deeds)
    (grows : v.Grows ids v') (own : t.id = id ∧ t.pathRoot = "exports/" ++ id)
    (parts : id ∈ ids → ∀ i : Nat, t.uploaded[i]? = some true → t.PartDone deeds i)
    (finish : id ∈ ids → t.status = .finish → t.Complete deeds)
    (hv : v'.session = Function.update v.session id (some t)) : v'.Account ids deeds := by
  have known {P : String → Session → Prop} (ht : P id t)
      (hold : ∀ i s, v.session i = some s → P i s) : ∀ i s, v'.session i = some s → P i s := by
    intro i s hs
    rw [hv] at hs
    by_cases hid : i = id
    · subst hid
      rw [Function.update_self] at hs
      cases hs
      exact ht
    · rw [Function.update_of_ne hid] at hs
      exact hold i s hs
  have allParts := known (P := fun i s => i ∈ ids →
    ∀ k : Nat, s.uploaded[k]? = some true → s.PartDone deeds k) parts
    fun i s hs hi k => h.parts i hi s k hs
  have allFinish := known (P := fun i s => i ∈ ids → s.status = .finish → s.Complete deeds) finish
    fun i s hs hi => h.finish i hi s hs
  exact
    { own := known own h.own
      parts := fun i hi s k hs => allParts i s hs hi k
      finish := fun i hi s hs => allFinish i s hs hi
      proper := fun d hd => grows.proper (h.proper d hd) }

/-- An earned change keeps the account. -/
theorem Account.step (h : v.Account ids deeds) (step : v.Step c v')
    (earned : c.Earned ids v deeds) : v'.Account ids deeds := by
  have grows := step.grows earned
  cases step with
  | start running free =>
    obtain ⟨hroot, hflags, -⟩ := earned
    refine h.update grows ⟨rfl, hroot⟩ (fun _ i hi => ?_) (fun _ hst => ?_) rfl
    · cases hflags true (List.mem_of_getElem? hi)
    · rw [running] at hst
      cases hst
  | @conclude i t status error now found running ends =>
    have g := Session.grown_ended t status error now
    refine h.update (t := t.ended status error now) grows (h.own i t found) (fun hid k hk => ?_)
      (fun hid hst => ?_) rfl
    · exact (h.parts i hid t k found hk).mono g (List.Subset.refl _)
    · cases (hst : status = .finish)
      obtain ⟨s, hs, complete⟩ := earned hid
      rw [found] at hs
      cases hs
      exact complete.mono g (List.Subset.refl _)
  | @confirm i t part size found missing =>
    have g := Session.grown_confirm t part size
    refine h.update (t := t.confirm part size) grows (h.own i t found) (fun hid k hk => ?_)
      (fun hid hst => ?_) rfl
    · obtain ⟨s, hs, done⟩ := earned hid
      rw [found] at hs
      cases hs
      by_cases hkp : part = k
      · subst hkp
        exact done.mono g (List.Subset.refl _)
      · simp only [Session.confirm, List.getElem?_set, hkp, if_false] at hk
        exact (h.parts i hid t k found hk).mono g (List.Subset.refl _)
    · exact (h.finish i hid t found hst).mono g (List.Subset.refl _)
  | keep => exact h
  | restore => exact h.congr rfl
  | release => exact h.congr rfl
  | unlock => exact h.congr rfl

/-- A change together with the deed that goes with it keeps the account. -/
theorem Account.advance {deed : Option Deed} (h : v.Account ids deeds) (step : v.Step c v')
    (earned : c.Earned ids v deeds) (proper : ∀ d ∈ deed, d.Proper ids v) :
    v'.Account ids (deed.toList ++ deeds) :=
  (h.step step earned).more fun d hd =>
    (step.grows earned).proper (proper d (Option.mem_toList.1 hd))

/-- Nothing has to be backed as long as nothing is stored under the ids. -/
theorem account_of_free (own : v.Rooted) (free : ∀ id ∈ ids, v.session id = none) :
    v.Account ids [] :=
  { own
    parts := fun id hid s i hs => by rw [free id hid] at hs; cases hs
    finish := fun id hid s hs => by rw [free id hid] at hs; cases hs
    proper := fun d hd => by cases hd }

end Shelf

/-- The flags of all parts are backed by a file for each of them. -/
theorem Session.LaidOut.delivered {s : Session} {ps : List Partition} {deeds : List Deed}
    (laidOut : s.LaidOut ps) (full : s.Full)
    (parts : ∀ i : Nat, s.uploaded[i]? = some true → s.PartDone deeds i) {p : Partition}
    (hp : p ∈ ps) : Delivered deeds s.id (s.taskOf p) := by
  obtain ⟨i, hi⟩ := List.getElem?_of_mem hp
  have hlt : i < s.uploaded.length := by
    obtain ⟨hlt, -⟩ := List.getElem?_eq_some_iff.1 hi
    exact Nat.lt_of_lt_of_eq hlt laidOut.length
  have flag : s.uploaded[i]? = some true := by
    rw [List.getElem?_eq_getElem hlt, full _ (List.getElem_mem hlt)]
  obtain ⟨qs, q, laidOut', hq, hqi, delivered⟩ := parts i flag
  -- The part that carries the number `i` is the one in place `i`.
  obtain rfl : qs = ps := Option.some.inj (laidOut'.parts.symm.trans laidOut.parts)
  obtain ⟨j, hj⟩ := List.getElem?_of_mem hq
  have hji : q.index = j := index_of_partitions? laidOut.parts hj
  obtain rfl : j = i := hji.symm.trans hqi
  rw [hi] at hj
  cases hj
  exact delivered

namespace Pipeline

/-- A pipeline keeps to its session. If that is one of the sessions, more is
known. -/
def Fits (ids : Set String) (v : Shelf) (deeds : List Deed) (p : Pipeline) : Prop :=
  p.stage.Tame p.session ∧ (p.session ∈ ids → p.stage.Fits v deeds p.session)

theorem Fits.mono {ids : Set String} {v v' : Shelf} {deeds deeds' : List Deed} {p : Pipeline}
    (hp : p.Fits ids v deeds) (h : v.Grows ids v') (hd : deeds ⊆ deeds') : p.Fits ids v' deeds' :=
  ⟨hp.1, fun hid => (hp.2 hid).mono h hid hd⟩

end Pipeline

namespace Engine

variable {e e' : Engine} {ev : Event} {c : Change} {ids : Set String} {deeds : List Deed}

/-- What an event does outside is done to the files. -/
theorem Effect.files (h : Effect e ev c e') : e'.files = filesAfter e.files (ev.deed? e) := by
  cases h with
  | quiet _ still _ _ files =>
    rw [still]
    exact files
  | started _ _ _ _ _ _ files => exact files
  | restored _ files => exact files
  | moved h => exact h.files

theorem isSome_filesAfter {files : Files} {path : String} (deed : Option Deed)
    (h : (files.object? path).isSome = true) :
    ((filesAfter files deed).object? path).isSome = true := by
  cases deed with
  | none => exact h
  | some d =>
    cases d with
    | page r events => exact h
    | put path' content =>
      simp only [filesAfter, Files.put, Files.object?, KeyMap.get?_insert]
      split
      · rfl
      · exact h

/-- Whatever a service does, it has earned. -/
theorem Effect.sound (h : Effect e ev c e') (account : e.backend.records.shelf.Account ids deeds)
    (fits : ∀ p ∈ e.pipelines, p.Fits ids e.backend.records.shelf deeds)
    (unused : ∀ user r id, ev = .start user r (.ok id) → id ∈ ids →
      e.backend.records.shelf.session id = none) :
    c.Earned ids e.backend.records.shelf deeds ∧
      (∀ d ∈ ev.deed? e, d.Proper ids e.backend.records.shelf) ∧
      ∀ p ∈ e'.pipelines,
        p.Fits ids e.backend.records.shelf ((ev.deed? e).toList ++ deeds) := by
  have none : ∀ d ∈ (none : Option Deed), d.Proper ids e.backend.records.shelf := by rintro _ ⟨⟩
  have opening {id : String} (hp : e'.pipelines = e.pipelines ++ [⟨id, .opening⟩]) :
      ∀ p ∈ e'.pipelines, p.Fits ids e.backend.records.shelf deeds := by
    intro p hmem
    rw [hp] at hmem
    rcases List.mem_append.1 hmem with hmem | hmem
    · exact fits p hmem
    · obtain rfl := List.mem_singleton.1 hmem
      exact ⟨.opening, fun _ => .opening⟩
  cases h with
  | quiet _ still mild pipelines =>
    rw [still, pipelines]
    exact ⟨by cases mild <;> trivial, none, fits⟩
  | @started user name r a b parts _ _ _ _ _ _ pipelines =>
    refine ⟨⟨rfl, ?_, unused user r _ rfl⟩, none, opening pipelines⟩
    intro flag hflag
    exact List.eq_of_mem_replicate hflag
  | restored pipelines => exact ⟨trivial, none, opening pipelines⟩
  | @moved m i id stage stage' c _ h =>
    obtain ⟨tame, known⟩ := fits _ (List.mem_of_getElem? h.found)
    obtain ⟨change, deed, tame'⟩ := h.step.tame (account.own id) tame
    have other : ∀ p ∈ e.pipelines, p.Fits ids e.backend.records.shelf
        ((e.deed? m).toList ++ deeds) := fun p hp =>
      (fits p hp).mono (Shelf.grows_of_eq rfl) (List.subset_append_right _ _)
    rw [h.pipelines]
    by_cases hid : id ∈ ids
    · obtain ⟨earned, proper, fits'⟩ := h.step.fits (account.own id) (known hid)
      refine ⟨earned, proper, fun p hp => ?_⟩
      rcases List.mem_or_eq_of_mem_set hp with hp | rfl
      · exact other p hp
      · exact ⟨tame', fun _ => fits'⟩
    · refine ⟨change.earned hid _ _, fun d hd => (deed d hd).proper hid _, fun p hp => ?_⟩
      rcases List.mem_or_eq_of_mem_set hp with hp | rfl
      · exact other p hp
      · exact ⟨tame', fun hi => absurd hi hid⟩

end Engine

namespace Site

/-- Sessions, pipelines and files agree with what was done outside. -/
structure Sound (ids : Set String) (w : Site) : Prop where
  orderly : w.Orderly
  account : w.backend.records.shelf.Account ids w.deeds
  fits : ∀ e ∈ w.services, ∀ p ∈ e.pipelines, p.Fits ids w.backend.records.shelf w.deeds
  kept : ∀ path content, .put path content ∈ w.deeds →
    (w.objects.get? (Files.keyOf path)).isSome = true

variable {ids : Set String} {w₀ w w' : Site} {ev : Event}

theorem sound_of_untouched (h : w.Untouched) (rooted : w.backend.records.shelf.Rooted)
    (free : ∀ id ∈ ids, w.backend.records.shelf.session id = none) : w.Sound ids :=
  { orderly := orderly_of_untouched h
    account := h.deeds ▸ Shelf.account_of_free rooted free
    fits := fun e he => by rw [h.services] at he; cases he
    kept := fun path content hd => by rw [h.deeds] at hd; cases hd }

theorem Sound.dropLock {b : Backend} {new : List Engine} (h : w.Sound ids)
    (hb : b.records = w.backend.records ∨
      b.records = w.backend.records.write SessionStore.dropLock)
    (orderly : Orderly { w with backend := b, services := w.services ++ new })
    (idle : ∀ e ∈ new, e.pipelines = []) :
    Sound ids { w with backend := b, services := w.services ++ new } := by
  have hs : b.records.shelf.session = w.backend.records.shelf.session := by
    rcases hb with hb | hb
    · rw [hb]
    · rw [hb, KeyMap.shelf_dropLock]
  refine ⟨orderly, h.account.congr hs, fun e he p hp => ?_, h.kept⟩
  rcases List.mem_append.1 he with he | he
  · exact (h.fits e he p hp).mono (Shelf.grows_of_eq hs) (List.Subset.refl _)
  · rw [idle e he] at hp
    cases hp

/-- What a service does at a sound site is earned. -/
theorem Sound.effect {i : Nat} {x : Engine.Event} {e e' : Engine} (h : w.Sound ids)
    (new : NewIds ids w (.serve i x)) (found : w.services[i]? = some e)
    (step : Engine.Step (w.enter e) x e') :
    ∃ c, Engine.Effect (w.enter e) x c e' ∧ c.Earned ids w.backend.records.shelf w.deeds ∧
      (∀ d ∈ x.deed? (w.enter e), d.Proper ids w.backend.records.shelf) ∧
      ∀ p ∈ e'.pipelines,
        p.Fits ids w.backend.records.shelf ((x.deed? (w.enter e)).toList ++ w.deeds) := by
  obtain ⟨c, he⟩ := h.orderly.effect found step
  have hmem := List.mem_of_getElem? found
  refine ⟨c, he, he.sound h.account (h.fits e hmem) ?_⟩
  rintro user r id rfl hid
  have free : w.backend.records.get? (SessionKey.encode id) = none := new hid
  show (w.backend.records.get? (SessionKey.encode id)).bind Session.decode? = none
  rw [free, Option.bind_none]

/-- Sessions grow at most, as long as no start takes their place. -/
theorem Sound.grows (h : w.Sound ids) (new : NewIds ids w ev) (step : Step w ev w') :
    w.backend.records.shelf.Grows ids w'.backend.records.shelf := by
  have dropped {r : Records} (hr : r = w.backend.records ∨
      r = w.backend.records.write SessionStore.dropLock) :
      w.backend.records.shelf.Grows ids r.shelf := by
    apply Shelf.grows_of_eq
    rcases hr with rfl | rfl
    · rfl
    · rw [KeyMap.shelf_dropLock]
  cases step with
  | constructed clock pages hc =>
    obtain ⟨rfl, -, -, -, -, -, -, hrec⟩ := Engine.created hc
    exact dropped (.inr hrec)
  | refused hc => exact dropped (Engine.refused hc)
  | served found hx =>
    obtain ⟨c, he, earned, -, -⟩ := h.effect new found hx
    exact he.records.2.grows earned

theorem Sound.step (h : w.Sound ids) (new : NewIds ids w ev) (step : Step w ev w') :
    w'.Sound ids := by
  have orderly := h.orderly.step step
  have grows := h.grows new step
  cases step with
  | @constructed s now linkBase coder e b clock pages hc =>
    obtain ⟨rfl, -, -, hp, -, -, -, hrec⟩ := Engine.created hc
    refine h.dropLock (.inr hrec) orderly fun x hx => ?_
    obtain rfl := List.mem_singleton.1 hx
    exact hp
  | @refused _ _ _ _ _ b hc =>
    have hd := @dropLock _ w b [] h (Engine.refused hc)
    rw [List.append_nil] at hd
    exact hd orderly fun x hx => by cases hx
  | @served i x e e' found hx =>
    obtain ⟨c, he, earned, proper, fits⟩ := h.effect new found hx
    refine ⟨orderly, h.account.advance he.records.2 earned proper, ?_, ?_⟩
    · intro y hy p hp
      rcases List.mem_or_eq_of_mem_set hy with hy | rfl
      · exact (h.fits y hy p hp).mono grows (List.subset_append_right _ _)
      · exact (fits p hp).mono grows (List.Subset.refl _)
    · intro path content hd
      show (e'.files.object? path).isSome = true
      rw [he.files]
      rcases List.mem_append.1 hd with hd | hd
      · rw [Option.mem_toList.1 hd]
        simp only [Engine.filesAfter, Files.put, Files.object?, KeyMap.get?_insert, if_true,
          Option.isSome_some]
      · exact Engine.isSome_filesAfter _ (h.kept path content hd)

theorem Sound.reaches (h : w.Sound ids) (run : Reaches (NewIds ids) w w') : w'.Sound ids :=
  run.keeps (fun h => h.step) h

/-- A file was stored at the path, and there is still one. -/
def Stored (w : Site) (path : String) : Prop :=
  (∃ content, .put path content ∈ w.deeds) ∧ (w.objects.get? (Files.keyOf path)).isSome = true

theorem Sound.stored (h : w.Sound ids) {path : String} {content : Content}
    (hd : .put path content ∈ w.deeds) : w.Stored path :=
  ⟨⟨content, hd⟩, h.kept path content hd⟩

end Site

end LogExport
