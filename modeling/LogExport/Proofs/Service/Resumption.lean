import LogExport.Proofs.Pipeline.Descent
import LogExport.Proofs.Service.Lives

/-! Interruptions do not show. However often the service is shut down or ends, if
an export that runs is taken up again and then left alone, it ends as it would
have ended at once. -/

namespace LogExport

open Relation

/-- Whatever steps are taken, they lead to a state as described, and until then
there is a next step. -/
inductive Inevitable {σ : Type} (R : σ → σ → Prop) (P : σ → Prop) : σ → Prop
  | now {x : σ} (h : P x) : Inevitable R P x
  | later {x : σ} (possible : ∃ y, R x y) (all : ∀ y, R x y → Inevitable R P y) : Inevitable R P x

namespace Inevitable

variable {σ : Type} {R : σ → σ → Prop} {P Q : σ → Prop} {x : σ}

theorem mono (h : Inevitable R P x) (himp : ∀ y, P y → Q y) : Inevitable R Q x := by
  induction h with
  | now h => exact .now (himp _ h)
  | later possible _ ih => exact .later possible ih

theorem exists_path (h : Inevitable R P x) : ∃ y, ReflTransGen R x y ∧ P y := by
  induction h with
  | now h => exact ⟨_, .refl, h⟩
  | later possible _ ih =>
    obtain ⟨y, step⟩ := possible
    obtain ⟨z, path, hz⟩ := ih y step
    exact ⟨z, .head step path, hz⟩

end Inevitable

/-- Two ends of an export that cannot be told apart: it has finished with the same
flags and the same size before packing, with the same list of links, and with the same
lines in the same files, one for each part at least. -/
structure Session.SameResult (s s' : Session) (files files' : Files) : Prop where
  finished : s.status = .finish
  request : s.SameRequest s'
  uploaded : s.uploaded = s'.uploaded
  unpacked : s.total.unpacked = s'.total.unpacked
  listed : ∃ list, files.object? s.manifestPath = some list ∧
    files'.object? s'.manifestPath = some list
  lines : ∀ path, IsPartPath s.id path → files.lines? path = files'.lines? path
  parts : ∀ t, s.Owns t → (files.lines? t.path).isSome

namespace Archive.Keeps

variable {a : Archive} {base : Files} {e e' : Engine} {p : Nat} {s s' : Session}
  {stage : PipelineStage}

/-- No pipeline is at work for a session that has ended. -/
theorem not_working (h : a.Keeps base s e) (ended : s.status ≠ .start) : ¬ e.Working s.id := by
  rintro ⟨⟨_, stage⟩, mem, rfl, going⟩
  obtain ⟨p, found⟩ := List.getElem?_of_mem mem
  exact ended (h.faithful p stage ⟨found, going⟩).1

/-- A pipeline that was launched is at work until the session has finished. -/
theorem finished_of_idle (h : a.Keeps base s e) (going : e.stopping = false) (opens : e.CanOpen s)
    (launched : e.Launched s.id) (idle : ¬ e.Working s.id) : s.status = .finish := by
  by_cases running : s.status = .start
  · obtain ⟨p, stage, busy, -⟩ := h.attended launched going running opens
    exact absurd busy.working idle
  · exact (h.ended running).1

/-- The pipeline of a session that can be searched takes it to its end. -/
theorem inevitable_of_busy (h : a.Keeps base s e) (searchable : s.Searchable)
    (going : e.stopping = false) (fits : e.settings.queueSize ≤ Pool.maxCapacity)
    (busy : e.Busy s.id p stage) :
    Inevitable (a.Proceeds s.id)
      (fun e' => ∃ s', a.Keeps base s' e' ∧ s'.SameRequest s ∧ s'.status = .finish) e := by
  induction hc : a.stageCost stage using WellFoundedLT.induction generalizing e s stage with
  | ind cost ih =>
    obtain ⟨running, faithful⟩ := h.faithful p stage busy
    refine .later ?_ fun e' proceeds => ?_
    · obtain ⟨m, acts, allowed, step⟩ :=
        Engine.exists_move (a := a) busy.found busy.going fun pool hp => by
          subst hp
          exact faithful.2.room
      obtain ⟨e', step⟩ := Option.isSome_iff_exists.1 step
      exact ⟨e', e, m, .refl, Engine.mover?_eq_some acts busy.found, allowed, step⟩
    · obtain ⟨e₁, m, aside, own, allowed, step⟩ := proceeds
      obtain ⟨h₁, passed, stopping⟩ := h.aside aside
      obtain ⟨q, stage₁, c, stage', strode, busy₁, -, faithful₁⟩ := h₁.strides own step
      -- The pipeline that moves is still where it was.
      have found₁ := (passed.own q stage₁).1 busy₁.found
      obtain rfl := h.single p q stage stage₁ busy ⟨found₁, busy₁.going⟩
      cases busy.found.symm.trans found₁
      have falls := stageCost_lt strode.stride allowed busy₁.found h.pages faithful₁
      have going' : e'.stopping = false := (strode.stopping.trans stopping).trans going
      have fits' : e'.settings.queueSize ≤ Pool.maxCapacity := by
        rwa [strode.settings, passed.settings]
      have found' : e'.pipelines[p]? = some ⟨s.id, stage'⟩ := by
        rw [strode.pipelines, List.getElem?_set_self (List.getElem?_eq_some_iff.1 busy₁.found).1]
      rcases h₁.move own allowed step with ⟨s', h', grown, same⟩ | ⟨never, -⟩
      · have searchable' := grown.searchable_iff.2 searchable
        cases busy' : stage'.isEnded with
        | false =>
          rw [← grown.id] at found' ⊢
          exact (ih _ (hc ▸ falls) h' searchable' going' fits' ⟨found', busy'⟩ rfl).mono
            fun y ⟨s'', h'', same', finished⟩ => ⟨s'', h'', same'.trans same, finished⟩
        | true =>
          have idle : ¬ e'.Working s'.id := by
            rintro ⟨⟨_, x⟩, mem, rfl, going⟩
            obtain ⟨r, found⟩ := List.getElem?_of_mem mem
            rw [grown.id] at found
            obtain ⟨-, rfl⟩ := h₁.busy_of_strode strode busy₁ ⟨found, going⟩
            rw [going] at busy'
            cases busy'
          have launched : e'.Launched s'.id := grown.id ▸ Engine.launched_iff.2 ⟨p, stage', found'⟩
          exact .now ⟨s', h', same,
            h'.finished_of_idle going' ⟨searchable'.layable, fits'⟩ launched idle⟩
      · exact absurd searchable never

/-- A session that was taken up, or has ended, comes to its end. -/
theorem inevitable (h : a.Keeps base s e) (searchable : s.Searchable) (going : e.stopping = false)
    (fits : e.settings.queueSize ≤ Pool.maxCapacity)
    (launched : s.status = .start → e.Launched s.id) :
    Inevitable (a.Proceeds s.id)
      (fun e' => ∃ s', a.Keeps base s' e' ∧ s'.SameRequest s ∧ s'.status = .finish) e := by
  by_cases running : s.status = .start
  · obtain ⟨p, stage, busy, -⟩ :=
      h.attended (launched running) going running ⟨searchable.layable, fits⟩
    exact h.inevitable_of_busy searchable going fits busy
  · exact .now ⟨s, h, .rfl, (h.ended running).1⟩

/-- The part that a worker searches is missing. -/
theorem missing_of_search {k : Nat} {d : Download} (h : a.Keeps base s e)
    (found : e.pipelines[p]? = some ⟨s.id, stage⟩) (search : e.search? p k = some d) :
    s.uploaded[d.task.part]? = some false := by
  unfold Engine.search? at search
  split at search
  · next there =>
    cases found.symm.trans there
    split at search
    · next at_work =>
      cases search
      obtain ⟨-, -, faithful⟩ := h.faithful p _ ⟨found, rfl⟩
      have missing := faithful.missing at_work rfl
      cases faithful.each.workers _ (List.mem_of_getElem? at_work) with
      | moving owns follows => rwa [follows.task]
    · cases search
  · cases search

/-- A session that runs can be taken up if that has not been done. -/
theorem restorable {user : Option String} {name : String} (h : a.Keeps base s e)
    (running : s.status = .start) (left : ¬ e.Launched s.id)
    (allowed : e.authorize user = .ok name) : (e.restore user s.id).1 = .ok () := by
  refine (h.sound.restore allowed h.quiet).1.2 ⟨⟨s, h.found, running⟩, h.sound.filed.free_iff.1 ?_⟩
  cases held : e.backend.records.shelf.holder with
  | none => rfl
  | some i => exact absurd (h.launched s.id (h.held i held ▸ held)) left

/-- Two exports of one session that have finished have the same result. -/
theorem sameResult (h : a.Keeps base s e) (h' : a.Keeps base s' e') (same : s.SameRequest s')
    (finished : s.status = .finish) (finished' : s'.status = .finish) :
    s.SameResult s' e.files e'.files := by
  have complete := (h.ended (by rw [finished]; nofun)).2
  have complete' := (h'.ended (by rw [finished']; nofun)).2
  obtain ⟨uploaded, unpacked, objects⟩ := h'.ledger.agree complete' h.ledger complete same
  have coder : e.files.coder = e'.files.coder := h.ledger.coder.trans h'.ledger.coder.symm
  obtain ⟨ps, laidOut, listed⟩ := complete.listed
  rw [← same.id] at objects
  refine
    { finished, request := same, uploaded, unpacked
      listed := ⟨_, listed, ?_⟩
      lines := fun path part => ?_
      parts := fun t owns => by
        rw [(h.ledger.stored_of_full complete.full owns).lines, Option.isSome_some] }
  · have path : s'.manifestPath = s.manifestPath :=
      congrArg Session.manifestPathUnder same.pathRoot.symm
    rw [path, ← objects _ h.rooted.isOutputPath_manifest, listed]
  · rw [Files.lines?, Files.lines?, objects path (.inl part), coder]

/-- A run that finishes shows that the session can be searched. -/
theorem of_finished {done : Session} (h : a.Keeps base s e)
    (run : ReflTransGen (a.Proceeds s.id) e e')
    (found : e'.backend.records.shelf.session s.id = some done) (finished : done.status = .finish) :
    s.Searchable ∧ done.SameRequest s ∧ a.Keeps base done e' := by
  rcases h.lives (run.lift' (fun e => e) fun _ _ step => step.lives) with
    ⟨s', h', grown, same⟩ | ⟨-, -, t, found', failed⟩
  · have found' := h'.found
    rw [grown.id, found] at found'
    cases found'
    have complete := (h'.ended (by rw [finished]; nofun)).2
    exact ⟨grown.searchable_iff.1 (h'.ledger.searchable complete), same, h'⟩
  · rw [found] at found'
    cases found'
    rw [finished] at failed
    cases failed

end Archive.Keeps

namespace Engine

variable {a : Archive} {e e' : Engine} {user : Option String} {r : ExportRequest} {id : String}

theorem Run.settings {evs : List Event} (sound : e.Sound) (run : Run e evs e') :
    e'.settings = e.settings := by
  induction run with
  | nil => rfl
  | cons step _ ih =>
    obtain ⟨c, effect⟩ := sound.effect step
    exact (ih (sound.step step)).trans effect.settings

/-- The books of an export that was just accepted are empty. -/
theorem keeps_of_start (watched : e.Watched) (keyed : e.backend.records.Keyed) (tame : e.Tame)
    (pages : 0 < e.settings.pageSize) (quiet : e.backend.faults = {})
    (alone : ∀ i, e.Working i → RootsApart i id) (start : Step e (.start user r (.ok id)) e') :
    ∃ s, s.id = id ∧ s.status = .start ∧ e'.Launched id ∧ a.Keeps e'.files s e' := by
  obtain ⟨c, effect⟩ := watched.sound.effect start
  have calm := start.calm nofun nofun
  have held := (effect.records.2.free_of_acquired effect.acquired?.1.symm).2
  have healthy' : e'.Healthy :=
    { watched.step start with
      quiet := calm.quiet quiet, keyed := calm.keyed keyed, tame := tame.effect effect }
  have apart {i : String} (hi : e'.Working i) : i = id ∨ RootsApart i id := by
    rcases effect.working hi with hi | acquired
    · exact .inr (alone i hi)
    · exact .inl (Option.some.inj (effect.acquired?.1.trans acquired)).symm
  cases effect with
  | quiet free => cases free
  | @started _ name _ lo hi parts _ allowed exact sound bounds count pipelines files settings now
      records =>
    obtain ⟨lower, upper, -, -⟩ := PartLength.normalize?_spec exact.start exact.stop bounds
    let id := Session.idOf name r.name e.now
    have fresh {p : Nat} {stage : PipelineStage} (hp : e'.Busy id p stage) :
        p = e.pipelines.length ∧ stage = .opening := by
      rcases getElem?_append pipelines hp.found with old | ⟨rfl, same⟩
      · have busy : e.Busy id p stage := ⟨old, hp.going⟩
        exact absurd rfl (alone id busy.working)
      · cases same
        exact ⟨rfl, rfl⟩
    have opened : e'.Busy id e.pipelines.length .opening :=
      ⟨by rw [pipelines, List.getElem?_concat_length], rfl⟩
    refine ⟨(e.newSession name r lo hi parts).stored, rfl, rfl,
      launched_iff.2 ⟨_, _, opened.found⟩, ?_⟩
    refine
      { healthy' with
        found := records.2.started, pages, ended := absurd rfl, aligned := ?_
        held := fun i h => Option.some.inj (h.symm.trans held)
        ledger := Archive.ledger_of_fresh (fun flag hf => List.eq_of_mem_replicate hf) rfl
        apart := fun i hi => apart hi
        single := fun p q stage stage' hp hq => (fresh hp).1.trans (fresh hq).1.symm
        faithful := fun p stage hp => ?_
        attended := fun _ _ _ _ => ⟨_, _, opened, trivial⟩ }
    · refine ⟨Instant.isExact_reread lower, Instant.isExact_reread upper, ?_⟩
      show Duration.step e.settings.partLength.length.stored % 1000000000 = 0
      rw [PartLength.stored_length, PartLength.step_eq]
      exact e.settings.partLength.step_mod_second
    · obtain ⟨-, rfl⟩ := fresh hp
      exact ⟨rfl, trivial⟩

/-- An accepted export whose range keeps away from the begin of the calendar can be
searched, if its bounds do not change when they are stored. -/
theorem Effect.searchable {c : Change} (h : Effect e (.start user r (.ok id)) c e')
    (clock : e.now.Valid) (quiet : e'.backend.faults = {}) (pages : 0 < e.settings.pageSize)
    {lo hi : Instant} (bounds : e.settings.partLength.normalize? r.start r.stop = some (lo, hi))
    (kept : lo.reread = lo ∧ hi.reread = hi) (room : lo.HasRoom e.settings.partLength.step) :
    ∃ s, e'.backend.records.shelf.session id = some s ∧ s.Searchable := by
  have effect := h
  cases h with
  | quiet free => cases free
  | started _ _ _ _ _ _ _ _ _ records =>
    obtain ⟨s, tasks, at', hid, -, -, laidOut, windows⟩ :=
      effect.lays_out clock quiet pages bounds kept room
    have found := at'.holds.stored
    rw [hid] at found
    refine ⟨s, found, ?_⟩
    have new := found.symm.trans records.2.started
    cases new
    -- At its start every part of a session is among its tasks.
    obtain ⟨ps, parts, htasks⟩ := Option.map_eq_some_iff.1 laidOut
    split_ifs at htasks with length
    cases htasks
    refine ⟨ps, ⟨parts, length⟩, fun p hp => windows _ (List.mem_map_of_mem ?_)⟩
    refine List.mem_filter.2 ⟨hp, bne_iff_ne.2 fun uploaded => ?_⟩
    cases List.eq_of_mem_replicate (List.mem_of_getElem? uploaded)

end Engine

/-- Interruptions do not show. Let an export be accepted while no pipeline is at work
whose files could be stored in place of its own, and let it, answered from an archive
and with files that can always be stored, finish in some run without interruptions.
However often the service was shut down, or ended between two steps and began anew, and
whatever the pipelines of other sessions did, at any moment
(a) the export runs, or has finished with the result of that run;
(b) a new service can begin, and if the export runs and has not been taken up by
the service, it can be;
(c) if it was taken up, the service can make its queue and is not interrupted any more,
it finishes with the result of that run, whatever the order of the steps;
(d) no pipeline ever again searches a part of it that is uploaded. -/
theorem Archive.interruptions_vanish {a : Archive} {t : ExportSettings} {b b' : Backend}
    {now : Instant} {files : Files} {e e₀ e₁ e₂ e₃ : Engine} {evs : List Engine.Event}
    {user : Option String} {r : ExportRequest} {id : String} {done : Session} (clock : now.Valid)
    (pages : t.pageSize ≤ Numeral.maxUInt64) (rooted : b.records.shelf.Rooted)
    (create : Engine.create t b now files = (.ok e, b')) (run : Engine.Run e evs e₀)
    (quiet : e₀.backend.faults = {}) (alone : ∀ i, e₀.Working i → RootsApart i id)
    (start : Engine.Step e₀ (.start user r (.ok id)) e₁)
    (uninterrupted : ReflTransGen (a.Proceeds id) e₁ e₂)
    (found : e₂.backend.records.shelf.session id = some done) (finished : done.status = .finish)
    (life : ReflTransGen (a.Next id) e₁ e₃) :
    ∃ s, e₃.backend.records.shelf.session id = some s ∧
      (s.status = .start ∨ s.SameResult done e₃.files e₂.files) ∧
      ((∀ t' length now', t'.validate = .ok length →
          ∃ e' b, Engine.create t' e₃.backend now' e₃.files = (.ok e', b)) ∧
        (s.status = .start → ¬ e₃.Launched id → ∀ user' name,
          e₃.authorize user' = .ok name → (e₃.restore user' id).1 = .ok ())) ∧
      (e₃.stopping = false → e₃.settings.queueSize ≤ Pool.maxCapacity →
        (s.status = .start → e₃.Launched id) →
          Inevitable (a.Proceeds id)
            (fun e' => ¬ e'.Working id ∧
              ∃ s', e'.backend.records.shelf.session id = some s' ∧
                s'.SameResult done e'.files e₂.files) e₃) ∧
      ∀ e₄, ReflTransGen (a.Next id) e₃ e₄ → ∀ i : Nat, s.uploaded[i]? = some true →
        ∀ (p : Nat) (stage : PipelineStage) (k : Nat) (d : Download),
          e₄.pipelines[p]? = some ⟨id, stage⟩ → e₄.search? p k = some d → d.task.part ≠ i := by
  have sound := Engine.sound_of_create clock pages create
  have watched := (Engine.watched_of_create clock pages create).run run
  have keyed := run.keyed (Engine.keyed_of_create create)
  have tame := (Engine.tame_of_create rooted create).run sound run
  have positive : 0 < e₀.settings.pageSize := by
    obtain ⟨-, -, -, -, settings, -⟩ := Engine.created create
    rw [run.settings sound, settings]
    exact Engine.pageSize_pos_of_create create
  obtain ⟨s₁, rfl, running, -, h₁⟩ :=
    Engine.keeps_of_start (a := a) watched keyed tame positive quiet alone start
  obtain ⟨searchable, same₂, h₂⟩ := h₁.of_finished uninterrupted found finished
  have alive : ∀ {s e e'}, a.Keeps e₁.files s e → s.Searchable →
      ReflTransGen (a.Next s.id) e e' →
        ∃ s', a.Keeps e₁.files s' e' ∧ s.Grown s' ∧ s'.SameRequest s := by
    intro s e e' h searchable life
    rcases h.lives life with kept | ⟨never, -⟩
    · exact kept
    · exact absurd searchable never
  obtain ⟨s, h, grown, same⟩ := alive h₁ searchable life
  have searchable' := grown.searchable_iff.2 searchable
  have like (e' : Engine) (s' : Session) (h' : a.Keeps e₁.files s' e') (same' : s'.SameRequest s₁)
      (finished' : s'.status = .finish) : s'.SameResult done e'.files e₂.files :=
    h'.sameResult h₂ (same'.trans same₂.symm) finished' finished
  refine ⟨s, grown.id ▸ h.found, ?_, ⟨?_, ?_⟩, ?_, ?_⟩
  · by_cases running : s.status = .start
    · exact .inl running
    · exact .inr (like e₃ s h same (h.ended running).1)
  · intro t' length now' valid
    exact Engine.exists_create valid h.sound.filed h.keyed h.quiet now' e₃.files
  · intro running left user' name allowed
    rw [← grown.id] at left ⊢
    exact h.restorable running left allowed
  · intro going fits launched
    have ends := h.inevitable searchable' going fits (grown.id ▸ launched)
    rw [grown.id] at ends
    refine ends.mono fun e' ⟨s', h', same', finished'⟩ => ?_
    have same₁ := same'.trans same
    have idle := h'.not_working (by rw [finished']; nofun)
    have found' := h'.found
    rw [same₁.id] at found' idle
    exact ⟨idle, s', found', like e' s' h' same₁ finished'⟩
  · intro e₄ life' i uploaded p stage k d there search part
    rw [← grown.id] at life' there
    obtain ⟨s', h', grown', -⟩ := alive h searchable' life'
    have missing := h'.missing_of_search (grown'.id ▸ there) search
    rw [part, grown'.flags i uploaded] at missing
    cases missing

/-- A search service that holds one event for every window. -/
def Archive.pulse : Archive where
  events query start _ := [.object [("query", .string query), ("at", .string start.compact)]]

section Sample

open Archive Engine

/-- The sample finishes if it is left alone. -/
theorem audit_proceeds :
    ∃ e₀ b e₁ s e₂ done, Engine.create hourly {} newYear { linkBase := "" } = (.ok e₀, b) ∧
      Engine.Step e₀ (.start none audit (.ok auditId)) e₁ ∧ e₀.backend.faults = {} ∧
      e₁.backend.records.shelf.session auditId = some s ∧ s.status = .start ∧
      ReflTransGen (pulse.Proceeds auditId) e₁ e₂ ∧
      e₂.backend.records.shelf.session auditId = some done ∧ done.status = .finish := by
  obtain ⟨e₀, b, e₁, created, start, quiet, going, quiet₁, fits, pages, bounds, room⟩ :
      ∃ e₀ b e₁, Engine.create hourly {} newYear { linkBase := "" } = (.ok e₀, b) ∧
        Engine.Step e₀ (.start none audit (.ok auditId)) e₁ ∧
        e₀.backend.faults = {} ∧ e₁.stopping = false ∧ e₁.backend.faults = {} ∧
        e₁.settings.queueSize ≤ Pool.maxCapacity ∧ 0 < e₀.settings.pageSize ∧
        e₀.settings.partLength.normalize? audit.start audit.stop =
          some (newYear, ⟨1704070800, 0⟩) ∧
        newYear.HasRoom e₀.settings.partLength.step :=
    ⟨_, _, _, rfl, .start exact_audit rfl, rfl, rfl, rfl, by decide, by decide, rfl, by decide⟩
  have watched := watched_of_create (by decide) (by decide) created
  obtain ⟨c, effect⟩ := watched.sound.effect start
  obtain ⟨s, found, searchable⟩ := effect.searchable watched.sound.now quiet₁ pages bounds
    ⟨by decide, by decide⟩ room
  obtain ⟨s', hid, running, launched, keeps⟩ := keeps_of_start (a := pulse) watched
    (keyed_of_create created) (tame_of_create Shelf.rooted_empty created) pages quiet
    (fun i busy => absurd busy (idle_of_create created i)) start
  have stored := keeps.found
  rw [hid, found] at stored
  cases stored
  obtain ⟨e₂, run, done, keeps₂, same, finished⟩ :=
    (keeps.inevitable searchable going fits fun _ => hid.symm ▸ launched).exists_path
  have found₂ := keeps₂.found
  rw [hid] at run
  rw [same.id, hid] at found₂
  exact ⟨e₀, b, e₁, s, e₂, done, created, start, quiet, found, running, run, found₂, finished⟩

/-- The service of the sample ends at once, and another one takes it up. -/
theorem interruptions_vanish_audit :
    ∃ e₀ b e₁ e₂ done e₃ b' e₄, Engine.create hourly {} newYear { linkBase := "" } = (.ok e₀, b) ∧
      Engine.Step e₀ (.start none audit (.ok auditId)) e₁ ∧
      ReflTransGen (pulse.Proceeds auditId) e₁ e₂ ∧
      e₂.backend.records.shelf.session auditId = some done ∧ done.status = .finish ∧
      Engine.create hourly e₁.backend newYear e₁.files = (.ok e₃, b') ∧
      Engine.Step e₃ (.restore none auditId (.ok ())) e₄ ∧
      Inevitable (pulse.Proceeds auditId)
        (fun e => ¬ e.Working auditId ∧
          ∃ s, e.backend.records.shelf.session auditId = some s ∧
            s.SameResult done e.files e₂.files) e₄ := by
  obtain ⟨e₀, b, e₁, s, e₂, done, created, start, quiet, found, running, run, found₂, finished⟩ :=
    audit_proceeds
  have alone (i : String) (busy : e₀.Working i) : RootsApart i auditId :=
    absurd busy (idle_of_create created i)
  obtain ⟨-, -, -, ⟨anew, -⟩, -⟩ := interruptions_vanish (by decide) (by decide)
    Shelf.rooted_empty created (.nil e₀) quiet alone start run found₂ finished .refl
  obtain ⟨e₃, b', again⟩ := anew hourly _ newYear rfl
  have reborn : pulse.Next auditId e₁ e₃ := .reborn (by decide) (by decide) again
  obtain ⟨s₃, found₃, -, ⟨-, restorable⟩, -⟩ := interruptions_vanish (by decide) (by decide)
    Shelf.rooted_empty created (.nil e₀) quiet alone start run found₂ finished (.single reborn)
  have same : s₃ = s := by
    obtain ⟨-, -, -, -, -, -, -, records⟩ := Engine.created again
    rw [records, KeyMap.shelf_dropLock, found] at found₃
    exact (Option.some.inj found₃).symm
  have allowed : e₃.authorize none = .ok anonymous := by
    rw [authorize, allowedUsers_of_create again]
    rfl
  have taken := restorable (same ▸ running) (unlaunched_of_create again auditId).1 none anonymous
    allowed
  have step : Engine.Step e₃ (.restore none auditId (.ok ())) (e₃.restore none auditId).2 :=
    .restore (Prod.ext taken rfl)
  have permitted : pulse.Permits auditId e₃ (.restore none auditId (.ok ())) := .restore _ _
  obtain ⟨s₄, -, -, -, ends, -⟩ := interruptions_vanish (by decide) (by decide)
    Shelf.rooted_empty created (.nil e₀) quiet alone start run found₂ finished
    (.tail (.single reborn) (.served permitted step))
  obtain ⟨c, effect⟩ := (watched_of_create (by decide) (by decide) again).sound.effect step
  have launched : (e₃.restore none auditId).2.Launched auditId :=
    effect.launched_iff.2 (.inr effect.acquired?.1.symm)
  have calm := step.calm (by rintro ⟨⟩) (by rintro _ ⟨⟩)
  have fits : (e₃.restore none auditId).2.settings.queueSize ≤ Pool.maxCapacity := by
    obtain ⟨_, -, settings⟩ := settings_of_create again
    rw [effect.settings, settings]
    show hourly.taskQueueSize ≤ Pool.maxCapacity
    decide
  exact ⟨e₀, b, e₁, e₂, done, e₃, b', _, created, start, run, found₂, finished, again, step,
    ends (calm.stopping.trans (calm_create again).1) fits fun _ => launched⟩

end Sample

end LogExport
