import LogExport.Proofs.Service.Account

/-! A session that has finished is complete: all its flags are set, and the files
of its parts and the list of their links were stored. What is stored as the list
was drawn up by a pipeline from the stored session, with the base of its own
service. Several lists can be stored one after the other, if the export was taken
up again. -/

namespace LogExport

section Steps

variable {v : Shelf} {files : Files} {id root : String} {c : Change} {deed : Option Deed}
  {content : Content}

theorem Engine.manifest?_eq_some {s : Session} {m : String} (h : manifest? files s = some m) :
    ∃ ps, s.parts? = some ps ∧ m = linkList files.linkBase s.pathRoot ps := by
  obtain ⟨ps, parts, rfl⟩ := Option.map_eq_some_iff.1 h
  exact ⟨ps, parts, rfl⟩

theorem Engine.manifest?_congr {files' : Files} (h : files'.linkBase = files.linkBase)
    (s : Session) : manifest? files' s = manifest? files s := by
  simp only [manifest?, Files.link, h]

/-- A worker stores the files of parts only. -/
theorem WorkerStep.isPartPath {w w' : WorkerStage} {path : String}
    (step : WorkerStep v files id w c deed w') (tame : w.Tame id) (hd : .put path content ∈ deed) :
    IsPartPath id path := by
  cases step with
  | stored =>
    cases hd
    cases tame with
    | lost h => cases h
    | busy path moving =>
      obtain ⟨rfl, -⟩ := moving _ rfl
      exact path
  | _ => cases hd

variable {stage stage' : PipelineStage}

/-- A list is drawn up from the stored session. -/
theorem PipelineStep.drawn_up {s : Session} {m : String}
    (step : PipelineStep v files id stage c deed (.listing s m)) :
    Engine.manifest? files s = some m := by
  cases step with
  | checked _ _ _ links => exact links
  | lost _ _ lost => cases lost

/-- What is stored as a list of links was drawn up before. -/
theorem PipelineStep.listed_of_put (step : PipelineStep v files id stage c deed stage')
    (tame : stage.Tame id) (hd : .put (Session.manifestPathUnder root) content ∈ deed) :
    ∃ s m, stage = .listing s m ∧ s.manifestPath = Session.manifestPathUnder root ∧
      content = .ofBytes (Utf8.encode m) := by
  cases step with
  | worked at_work works =>
    cases tame with
    | lost h => cases h
    | draining each =>
      obtain ⟨p, hp⟩ := works.isPartPath (each.workers _ (List.mem_of_getElem? at_work)) hd
      exact absurd hp.symm (Session.pathUnder_ne_manifestPathUnder _ _ p)
  | @listed s m =>
    simp only [Option.mem_def, Option.some.injEq, Deed.put.injEq] at hd
    exact ⟨s, m, rfl, hd.1, hd.2.symm⟩
  | _ => cases hd

/-- What is stored as the list of a session's links has those of its parts, with
the base of the service. -/
theorem PipelineStep.lists_of_put {deeds : List Deed} {i : String}
    (step : PipelineStep v files id stage c deed stage') (tame : stage.Tame id)
    (fits : id = i → stage.Fits v deeds id)
    (drafted : ∀ s m, stage = .listing s m → Engine.manifest? files s = some m)
    (hd : .put (Session.manifestPathUnder ("exports/" ++ i)) content ∈ deed) :
    ∃ s ps, v.session i = some s ∧ s.LaidOut ps ∧
      content = .ofBytes (Utf8.encode (linkList files.linkBase s.pathRoot ps)) := by
  obtain ⟨s, m, rfl, path, rfl⟩ := step.listed_of_put tame hd
  cases tame with
  | lost h => cases h
  | listing own hroot =>
    have hi : id = i := by simpa [hroot] using Session.manifestPathUnder_inj path
    obtain ⟨ps', parts, hm⟩ := Engine.manifest?_eq_some (drafted s m rfl)
    cases fits hi with
    | lost h => cases h
    | @listing _ t ps base found grown full laidOut =>
      have same : t.parts? = s.parts? := grown.parts?_eq
      obtain rfl : ps' = ps := Option.some.inj (parts.symm.trans (same ▸ laidOut.parts))
      exact ⟨t, ps', hi ▸ found, laidOut, by rw [hm, grown.pathRoot]⟩

end Steps

namespace Engine

variable {e e' : Engine} {ev : Event} {c : Change}

/-- The lists that wait to be stored have the links of the service itself. -/
def Drafted (e : Engine) : Prop :=
  ∀ p ∈ e.pipelines, ∀ s m, p.stage = .listing s m → manifest? e.files s = some m

theorem Drafted.congr (h : e.Drafted) (pipelines : e'.pipelines = e.pipelines)
    (base : e'.files.linkBase = e.files.linkBase) : e'.Drafted := by
  intro p hp s m hs
  rw [manifest?_congr base]
  exact h p (pipelines ▸ hp) s m hs

theorem Effect.linkBase (h : Effect e ev c e') : e'.files.linkBase = e.files.linkBase := by
  rw [h.files]
  rcases ev.deed? e with _ | (_ | _) <;> rfl

theorem Effect.drafted (h : Effect e ev c e') (drafted : e.Drafted) : e'.Drafted := by
  have base := h.linkBase
  have opening {id : String} (hp : e'.pipelines = e.pipelines ++ [⟨id, .opening⟩]) :
      e'.Drafted := by
    intro p hmem s m hs
    rw [hp] at hmem
    rcases List.mem_append.1 hmem with hmem | hmem
    · rw [manifest?_congr base]
      exact drafted p hmem s m hs
    · obtain rfl := List.mem_singleton.1 hmem
      cases hs
  cases h with
  | quiet _ _ _ pipelines => exact drafted.congr pipelines base
  | started _ _ _ _ _ pipelines => exact opening pipelines
  | restored pipelines => exact opening pipelines
  | moved h =>
    intro p hp s m hs
    rw [manifest?_congr base]
    rw [h.pipelines] at hp
    rcases List.mem_or_eq_of_mem_set hp with hp | rfl
    · exact drafted p hp s m hs
    · cases hs
      exact h.step.drawn_up

/-- What a service stores as the list of an export's links. -/
theorem Effect.lists_of_put {ids : Set String} {deeds : List Deed} {id : String} {content : Content}
    (h : Effect e ev c e') (fits : ∀ p ∈ e.pipelines, p.Fits ids e.backend.records.shelf deeds)
    (drafted : e.Drafted) (hid : id ∈ ids)
    (hd : .put (Session.manifestPathUnder ("exports/" ++ id)) content ∈ ev.deed? e) :
    ∃ s ps, e.backend.records.shelf.session id = some s ∧ s.LaidOut ps ∧
      content = .ofBytes (Utf8.encode (linkList e.files.linkBase s.pathRoot ps)) := by
  cases h with
  | quiet _ still =>
    rw [still] at hd
    cases hd
  | started => cases hd
  | restored => cases hd
  | moved hm =>
    have hmem := List.mem_of_getElem? hm.found
    obtain ⟨tame, known⟩ := fits _ hmem
    exact hm.step.lists_of_put tame (fun hi => known (hi ▸ hid)) (drafted _ hmem) hd

end Engine

namespace Site

variable {ids : Set String} {w₀ w w' : Site} {ev : Event}

/-- The bases of links that the services were set up with. -/
def linkBases (w : Site) : List String := w.services.map (·.files.linkBase)

/-- What is stored as the list of an export's links, for each of the ids. -/
structure Listings (ids : Set String) (w : Site) : Prop where
  drafted : ∀ e ∈ w.services, e.Drafted
  stored : ∀ id ∈ ids, ∀ content,
    .put (Session.manifestPathUnder ("exports/" ++ id)) content ∈ w.deeds →
      ∃ base ∈ w.linkBases, ∃ s ps, w.backend.records.shelf.session id = some s ∧ s.LaidOut ps ∧
        content = .ofBytes (Utf8.encode (linkList base s.pathRoot ps))

theorem listings_of_untouched (h : w.Untouched) : w.Listings ids where
  drafted e he := by
    rw [h.services] at he
    cases he
  stored id _ content hd := by
    rw [h.deeds] at hd
    cases hd

/-- No service loses its base. -/
theorem linkBases_subset (orderly : w.Orderly) (step : Step w ev w') :
    w.linkBases ⊆ w'.linkBases := by
  cases step with
  | constructed =>
    rw [linkBases, linkBases, List.map_append]
    exact List.subset_append_left _ _
  | refused => exact List.Subset.refl _
  | @served i x e e' found hx =>
    obtain ⟨c, he⟩ := orderly.effect found hx
    have same : e'.files.linkBase = e.files.linkBase := he.linkBase
    obtain ⟨hlt, rfl⟩ := List.getElem?_eq_some_iff.1 found
    rw [linkBases, linkBases, List.map_set, same]
    intro base hbase
    rwa [← List.getElem_map (f := fun e : Engine => e.files.linkBase)
      (h := by rwa [List.length_map]), List.set_getElem_self]

theorem Listings.step (h : w.Listings ids) (sound : w.Sound ids) (new : NewIds ids w ev)
    (step : Step w ev w') : w'.Listings ids := by
  have grows := sound.grows new step
  have bases := linkBases_subset sound.orderly step
  have old : ∀ id ∈ ids, ∀ content,
      .put (Session.manifestPathUnder ("exports/" ++ id)) content ∈ w.deeds →
        ∃ base ∈ w'.linkBases, ∃ s ps, w'.backend.records.shelf.session id = some s ∧
          s.LaidOut ps ∧ content = .ofBytes (Utf8.encode (linkList base s.pathRoot ps)) := by
    intro id hid content hd
    obtain ⟨base, hbase, s, ps, found, laidOut, hc⟩ := h.stored id hid content hd
    obtain ⟨s', found', g⟩ := grows id hid s found
    exact ⟨base, bases hbase, s', ps, found', g.laidOut laidOut, by rw [g.pathRoot, hc]⟩
  cases step with
  | constructed clock pages hc =>
    obtain ⟨rfl, -, -, hp, -⟩ := Engine.created hc
    refine ⟨fun x hx => ?_, old⟩
    rcases List.mem_append.1 hx with hx | hx
    · exact h.drafted x hx
    · obtain rfl := List.mem_singleton.1 hx
      intro p hmem
      rw [hp] at hmem
      cases hmem
  | refused => exact ⟨h.drafted, old⟩
  | @served i x e e' found hx =>
    obtain ⟨c, he, -, -, -⟩ := sound.effect new found hx
    have hmem := List.mem_of_getElem? found
    have drafted : (w.enter e).Drafted := (h.drafted e hmem).congr rfl rfl
    refine ⟨fun y hy => ?_, fun id hid content hd => ?_⟩
    · rcases List.mem_or_eq_of_mem_set hy with hy | rfl
      · exact h.drafted y hy
      · exact he.drafted drafted
    rcases List.mem_append.1 hd with hd | hd
    · obtain ⟨s, ps, found', laidOut, hc⟩ :=
        he.lists_of_put (sound.fits e hmem) drafted hid (Option.mem_toList.1 hd)
      obtain ⟨s', found'', g⟩ := grows id hid s found'
      exact ⟨e.files.linkBase, bases (List.mem_map_of_mem hmem), s', ps, found'',
        g.laidOut laidOut, by rw [g.pathRoot, hc]; rfl⟩
    · exact old id hid content hd

theorem Listings.reaches (h : w.Listings ids) (sound : w.Sound ids)
    (run : Reaches (NewIds ids) w w') : w'.Listings ids := by
  have both {w w' : Site} {ev : Event} (h : w.Listings ids ∧ w.Sound ids) (new : NewIds ids w ev)
      (step : Step w ev w') : w'.Listings ids ∧ w'.Sound ids :=
    ⟨h.1.step h.2 new step, h.2.step new step⟩
  exact (run.keeps both ⟨h, sound⟩).1

/-- The list of the links to the parts was stored at the path, under the base of one
of the services. -/
def Listed (w : Site) (path root : String) (ps : List Partition) : Prop :=
  ∃ base ∈ w.linkBases, .put path (.ofBytes (Utf8.encode (linkList base root ps))) ∈ w.deeds

section Outputs

variable {id : String} {s : Session} {ps : List Partition}

/-- The files of all parts were stored, once all flags are set. -/
theorem Sound.parts_stored (h : w.Sound ids) (hid : id ∈ ids)
    (found : w.backend.records.shelf.session id = some s) (full : s.Full)
    (laidOut : s.LaidOut ps) : ∀ p ∈ ps, w.Stored (p.pathUnder s.pathRoot) := by
  intro p hp
  have parts := fun i => h.account.parts id hid s i found
  obtain ⟨content, hput⟩ := (laidOut.delivered full parts hp).stored
  exact h.stored hput

/-- Whatever is stored as the list of a session has the links to its parts. -/
theorem Listings.lists (h : w.Listings ids) (sound : w.Sound ids) (hid : id ∈ ids)
    (found : w.backend.records.shelf.session id = some s) (laidOut : s.LaidOut ps)
    {content : Content} (hd : .put s.manifestPath content ∈ w.deeds) :
    ∃ base ∈ w.linkBases,
      content = .ofBytes (Utf8.encode (linkList base s.pathRoot ps)) := by
  obtain ⟨-, root⟩ := sound.account.own id s found
  rw [Session.manifestPath, root] at hd
  obtain ⟨base, hbase, t, qs, found', laidOut', rfl⟩ := h.stored id hid content hd
  rw [found] at found'
  cases found'
  obtain rfl : qs = ps := Option.some.inj (laidOut'.parts.symm.trans laidOut.parts)
  exact ⟨base, hbase, rfl⟩

end Outputs

/-- A session that has finished is complete: all its flags are set, the file of
every part and the list of their links were stored before. And nothing is stored
as the list of a session as long as one of its flags is not set. -/
theorem finish_is_complete {id : String} {s : Session} (untouched : w₀.Untouched)
    (empty : w₀.backend.records = .empty) (run : Reaches (NewIds Set.univ) w₀ w)
    (found : w.backend.records.shelf.session id = some s) :
    (s.status = .finish →
      (∀ flag ∈ s.uploaded, flag = true) ∧
      ∃ ps, partitions? s.start s.stop s.partLength = some ps ∧ ps.length = s.partCount ∧
        ps.Pairwise (fun p q => q.stop ≤ p.start) ∧
        (∀ p ∈ ps, w.Stored (p.pathUnder s.pathRoot)) ∧
        w.Stored s.manifestPath ∧ w.Listed s.manifestPath s.pathRoot ps) ∧
    ((∃ content, .put s.manifestPath content ∈ w.deeds) → ∀ flag ∈ s.uploaded, flag = true) := by
  have free (i : String) : w₀.backend.records.shelf.session i = none := by
    rw [empty]
    rfl
  have rooted : w₀.backend.records.shelf.Rooted := fun i t ht => by rw [free i] at ht; cases ht
  have sound₀ : w₀.Sound Set.univ := sound_of_untouched untouched rooted fun i _ => free i
  have sound := sound₀.reaches run
  have listings := (listings_of_untouched untouched).reaches sound₀ run
  obtain ⟨hid, hroot⟩ := sound.account.own id s found
  have settled := KeyMap.settled_of_shelf found
  constructor
  · intro finished
    obtain ⟨full, ps, _, laidOut, put⟩ :=
      sound.account.finish id (Set.mem_univ id) s found finished
    have newest_first :=
      newest_first_of_partitions? settled.start.2 settled.stop.2 laidOut.parts
    have stored := sound.parts_stored (Set.mem_univ id) found full laidOut
    obtain ⟨base, hbase, same⟩ := listings.lists sound (Set.mem_univ id) found laidOut put
    exact ⟨full, ps, laidOut.parts, laidOut.length, newest_first, stored, sound.stored put,
      base, hbase, same ▸ put⟩
  · rintro ⟨content, hput⟩
    rw [Session.manifestPath, hroot] at hput
    obtain ⟨t, ht, full⟩ := sound.account.proper _ hput id (Set.mem_univ id) rfl
    rw [found] at ht
    cases ht
    exact full

theorem finish_is_complete_audit :
    ∃ w s, Reaches (NewIds Set.univ) ⟨{}, .empty, [], [], []⟩ w ∧
      w.backend.records.shelf.session auditAccepted.id = some s ∧ s.status = .finish ∧
      (∀ flag ∈ s.uploaded, flag = true) ∧ w.Stored s.manifestPath ∧
      ∃ ps, partitions? s.start s.stop s.partLength = some ps ∧
        ∀ p ∈ ps, w.Stored (p.pathUnder s.pathRoot) := by
  obtain ⟨w, s, run, found, finished, -⟩ := audit_can_finish
  obtain ⟨full, ps, parts, -, -, stored, manifest, -⟩ :=
    (finish_is_complete ⟨rfl, rfl, rfl⟩ rfl run found).1 finished
  exact ⟨w, s, run, found, finished, full, manifest, ps, parts, stored⟩

end Site

end LogExport
