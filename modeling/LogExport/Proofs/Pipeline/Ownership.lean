import LogExport.Proofs.Files.Links
import LogExport.Proofs.Pipeline.Progress
import LogExport.Proofs.Session.Paths

/-! What a pipeline does concerns its own session: the pages it asks for, the
paths it stores to, and the changes it makes. This is so however often an id has
been used. -/

namespace LogExport

/-- The path of a part file of the session stored under `id`. -/
def IsPartPath (id path : String) : Prop := ∃ p, path = Partition.pathUnder ("exports/" ++ id) p

/-- The path of a file of the session stored under `id`. -/
def IsOutputPath (id path : String) : Prop :=
  IsPartPath id path ∨ path = Session.manifestPathUnder ("exports/" ++ id)

/-- Files of the one session are never stored in place of files of the other. -/
def RootsApart (id i : String) : Prop :=
  Files.keyOf ("exports/" ++ id) ≠ Files.keyOf ("exports/" ++ i)

theorem IsOutputPath.exists_name {id path : String} (h : IsOutputPath id path) :
    ∃ name, ObjectPath.IsName name ∧ path = "exports/" ++ id ++ "/" ++ String.ofList name := by
  rcases h with ⟨p, rfl⟩ | rfl
  · exact ⟨_, p.isName_fileName, p.pathUnder_eq _⟩
  · exact ⟨_, Session.isName_manifest, Session.manifestPathUnder_eq _⟩

theorem RootsApart.keyOf_ne {id i path path' : String} (apart : RootsApart id i)
    (h : IsOutputPath id path) (h' : IsOutputPath i path') :
    Files.keyOf path ≠ Files.keyOf path' := by
  obtain ⟨name, hname, rfl⟩ := h.exists_name
  obtain ⟨name', hname', rfl⟩ := h'.exists_name
  exact fun same => apart (Files.keyOf_root_eq hname hname' same)

/-- A deed for the session stored under `id`. -/
def Deed.Belongs (id : String) : Deed → Prop
  | put path _ => IsOutputPath id path
  | page r _ => r.sessionId = id

/-- A change that a pipeline for the session stored under `id` may make. -/
def Change.Belongs (id : String) : Change → Prop
  | keep => True
  | release i => i = id
  | conclude i _ _ _ => i = id
  | confirm i _ _ => i = id
  | _ => False

/-- A worker that keeps to its session and its part. -/
inductive WorkerStage.Tame (id : String) : WorkerStage → Prop
  | idle : Tame id .idle
  | busy {t : Task} {part : PartStage} (path : IsPartPath id t.path)
      (moving : ∀ d, part = .moving d → d.task = t ∧ d.session = id) : Tame id (.busy t part)
  | drained : Tame id (.ended .drained)
  | lost {w : WorkerStage} (h : w.IsLost) : Tame id w

/-- A pipeline that keeps to its session. -/
inductive PipelineStage.Tame (id : String) : PipelineStage → Prop
  | opening : Tame id .opening
  | draining {pool : Pool} (each : pool.Each (IsPartPath id ·.path) (WorkerStage.Tame id)) :
    Tame id (.draining pool)
  | closing : Tame id .closing
  | listing {s : Session} {m : String} (own : s.id = id)
      (root : s.pathRoot = "exports/" ++ id) : Tame id (.listing s m)
  | finishing : Tame id (.finishing id)
  | lost {stage : PipelineStage} (h : stage.IsLost) : Tame id stage

theorem Change.GivesUp.belongs {c : Change} {id : String} (h : c.GivesUp id) : c.Belongs id := by
  cases h <;> trivial

/-- A session does not change with what belongs to another one. -/
theorem Change.Belongs.spares {id i : String} {c : Change} {v v' : Shelf} (h : c.Belongs i)
    (other : i ≠ id) (step : v.Step c v') : v'.session id = v.session id := by
  cases step with
  | start => exact h.elim
  | restore => exact h.elim
  | conclude =>
    obtain rfl : _ = i := h
    exact Function.update_of_ne other.symm _ _
  | confirm =>
    obtain rfl : _ = i := h
    exact Function.update_of_ne other.symm _ _
  | _ => rfl

/-- What belongs to another session needs no reason. -/
theorem Change.Belongs.earned {id : String} {c : Change} {ids : Set String} (h : c.Belongs id)
    (hid : id ∉ ids) (v : Shelf) (deeds : List Deed) : c.Earned ids v deeds := by
  cases c with
  | conclude i status error now =>
    obtain rfl : i = id := h
    cases status with
    | finish => exact fun hi => absurd hi hid
    | _ => trivial
  | confirm i part size =>
    obtain rfl : i = id := h
    exact fun hi => absurd hi hid
  | keep => trivial
  | release => trivial
  | start => exact h.elim
  | restore => exact h.elim
  | unlock => exact h.elim

theorem Deed.Belongs.proper {id : String} {d : Deed} {ids : Set String} (h : d.Belongs id)
    (hid : id ∉ ids) (v : Shelf) : d.Proper ids v := by
  cases d with
  | put path content =>
    intro i hi hpath
    rcases h with ⟨p, hp⟩ | hm
    · rw [hp] at hpath
      exact absurd hpath (Session.pathUnder_ne_manifestPathUnder _ _ p)
    · rw [hm] at hpath
      have he := Session.manifestPathUnder_inj hpath
      have hii : id = i := by simpa using he
      exact absurd (hii ▸ hi) hid
  | page r events =>
    intro hi
    obtain rfl : r.sessionId = id := h
    exact absurd hi hid

section Steps

variable {v : Shelf} {files : Files} {id : String} {c : Change} {deed : Option Deed}

theorem WorkerStep.tame {w w' : WorkerStage} (step : WorkerStep v files id w c deed w')
    (tame : w.Tame id) : c.Belongs id ∧ (∀ d ∈ deed, d.Belongs id) ∧ w'.Tame id := by
  have none : ∀ d ∈ (none : Option Deed), d.Belongs id := by rintro _ ⟨⟩
  cases step with
  | begun found running begins =>
    cases tame with
    | lost h => cases h
    | busy path =>
      obtain ⟨ws, -, rfl⟩ := Option.map_eq_some_iff.1 begins
      refine ⟨trivial, none, .busy path ?_⟩
      rintro _ ⟨⟩
      exact ⟨rfl, rfl⟩
  | @page t d r asked events =>
    cases tame with
    | lost h => cases h
    | busy path moving =>
      obtain ⟨ht, hs⟩ := moving d rfl
      obtain ⟨ws, -, hr, -⟩ := Download.request?_eq_some asked
      refine ⟨trivial, ?_, .busy path ?_⟩
      · rintro _ ⟨⟩
        exact hr.trans hs
      · rintro _ ⟨⟩
        unfold Download.take
        split <;> exact ⟨ht, hs⟩
  | @stored t d isDone =>
    cases tame with
    | lost h => cases h
    | busy path moving =>
      obtain ⟨rfl, -⟩ := moving d rfl
      refine ⟨trivial, ?_, .busy path (by rintro _ ⟨⟩)⟩
      rintro _ ⟨⟩
      exact .inl path
  | confirmed =>
    cases tame with
    | lost h => cases h
    | busy path => exact ⟨rfl, none, .busy path (by rintro _ ⟨⟩)⟩
  | settled => exact ⟨trivial, none, .idle⟩
  | lost gives lost => exact ⟨gives.belongs, none, .lost lost⟩

/-- A step keeps to the session, and so do the change and the deed. -/
theorem PipelineStep.tame {stage stage' : PipelineStage}
    (step : PipelineStep v files id stage c deed stage')
    (own : ∀ s, v.session id = some s → s.id = id ∧ s.pathRoot = "exports/" ++ id)
    (tame : stage.Tame id) : c.Belongs id ∧ (∀ d ∈ deed, d.Belongs id) ∧ stage'.Tame id := by
  have none : ∀ d ∈ (none : Option Deed), d.Belongs id := by rintro _ ⟨⟩
  cases step with
  | @opened s tasks workers capacity found running laidOut =>
    obtain ⟨ps, -, htasks⟩ := Option.map_eq_some_iff.1 laidOut
    split_ifs at htasks
    cases htasks
    refine ⟨trivial, none, .draining (Pool.each_ofTasks ?_ .idle)⟩
    intro t ht
    obtain ⟨p, -, rfl⟩ := List.mem_map.1 ht
    exact ⟨p, by rw [← (own s found).2]; rfl⟩
  | fed feeds =>
    cases tame with
    | lost h => cases h
    | draining each => exact ⟨trivial, none, .draining (each.feed feeds)⟩
  | received idle receives =>
    cases tame with
    | lost h => cases h
    | draining each =>
      refine ⟨trivial, none, .draining (each.receive ?_ .drained receives)⟩
      intro t path
      exact .busy path (by rintro _ ⟨⟩)
  | worked at_work works =>
    cases tame with
    | lost h => cases h
    | draining each =>
      obtain ⟨change, deeds, hw'⟩ := works.tame (each.workers _ (List.mem_of_getElem? at_work))
      exact ⟨change, deeds, .draining (each.setWorker hw')⟩
  | drained clean => exact ⟨trivial, none, .closing⟩
  | checked found =>
    obtain ⟨hid, hroot⟩ := own _ found
    exact ⟨trivial, none, .listing hid hroot⟩
  | listed =>
    cases tame with
    | lost h => cases h
    | listing hid hroot =>
      refine ⟨trivial, ?_, hid ▸ .finishing⟩
      rintro _ ⟨⟩
      exact .inr (by rw [Session.manifestPath, hroot])
  | finished =>
    cases tame with
    | lost h => cases h
    | finishing => exact ⟨rfl, none, .lost (.ended _)⟩
  | unfinished gives =>
    cases tame with
    | lost h => cases h
    | finishing => exact ⟨gives.belongs, none, .lost (.failing _)⟩
  | lost going gives lost => exact ⟨gives.belongs, none, .lost lost⟩

end Steps

end LogExport
