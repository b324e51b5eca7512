import LogExport.Proofs.Pipeline.Progress

/-! What is left of a session. Tasks are laid out anew whenever a session is loaded,
one for each part that is still missing. A confirmation takes the task of its part
away and leaves all others as they are, and so does any number of them. -/

namespace LogExport

open Access SessionStore

variable {s t : Session} {ps : List Partition} {ts : List Task} {part : Nat} {size : Sizes}

namespace Session

/-- A confirmation takes one task away. -/
theorem tasks?_confirm (laidOut : s.tasks? = some (.ok ts)) (part : Nat) (size : Sizes) :
    (s.confirm part size).tasks? = some (.ok (ts.filter fun t => t.part ≠ part)) := by
  obtain ⟨ps, h, rfl⟩ := tasks?_eq_ok_iff.1 laidOut
  have grown := s.grown_confirm part size
  refine tasks?_eq_ok_iff.2 ⟨ps, grown.laidOut h, ?_⟩
  rw [grown.taskOf, List.filter_map, List.filter_filter]
  refine congrArg _ (List.filter_congr fun p hp => ?_)
  simp only [confirm, List.getElem?_set, Function.comp, taskOf]
  by_cases hi : part = p.index
  · simp [hi, h.index_lt hp]
  · simp [hi, Ne.symm hi]

end Session

namespace SessionStore

variable {b b' : Backend}

/-- A load that works out gives the session that is stored. -/
theorem eq_of_gives_load {id : String} (found : b.records.shelf.session id = some s)
    (h : Gives (load id) b (.ok t) b') : t = s ∧ b'.records = b.records := by
  obtain ⟨bs, stored, decoded⟩ := Option.bind_eq_some_iff.1 found
  rcases gives_bind.1 h with ⟨_, -, he⟩ | ⟨o, b₁, hr, hd⟩
  · cases he
  obtain ⟨hb, ⟨_, he⟩ | ho⟩ := gives_read hr
  · cases he
  cases ho
  simp only [stored, decode, decoded] at hd
  obtain ⟨ht, rfl⟩ := gives_pure.1 hd
  cases ht
  exact ⟨rfl, hb⟩

/-- A confirmation that works out is of a missing part, and is stored. -/
theorem confirm_of_gives (found : b.records.shelf.session s.id = some s)
    (h : Gives (confirm s.id part size) b (.ok ()) b') :
    s.uploaded[part]? = some false ∧
      b'.records.shelf.session s.id = some (s.confirm part size) := by
  rcases gives_bind.1 h with ⟨_, -, he⟩ | ⟨t, b₁, hr, h⟩
  · cases he
  obtain ⟨rfl, hb⟩ := eq_of_gives_load found hr
  split at h
  · cases (gives_throw.1 h).1
  · cases (gives_throw.1 h).1
  · next missing =>
    rcases gives_apply h with ⟨_, he, -⟩ | ⟨-, hb'⟩
    · cases he
    have settled := Session.settled_confirm (KeyMap.settled_of_shelf found) part size
    refine ⟨missing, ?_⟩
    rw [hb', hb]
    show (b.records.write (putSession (t.confirm part size))).shelf.session t.id = _
    rw [KeyMap.shelf_putSession settled.toStorable, settled.kept]
    exact Function.update_self ..

/-- Confirmations that all work out are of different tasks, and leave the others. -/
theorem rest_of_gives_confirms (found : b.records.shelf.session s.id = some s)
    (laidOut : s.tasks? = some (.ok ts)) {cs : List (Nat × Sizes)}
    (h : Gives (forM cs fun c => confirm s.id c.1 c.2) b (.ok ()) b') :
    (cs.map Prod.fst).Nodup ∧ cs.map Prod.fst ⊆ ts.map Task.part ∧
      ∃ s', b'.records.shelf.session s.id = some s' ∧
        s'.tasks? = some (.ok (ts.filter fun t => t.part ∉ cs.map Prod.fst)) := by
  induction cs generalizing b s ts with
  | nil =>
    obtain ⟨-, rfl⟩ := gives_pure.1 h
    have all : ts.filter (fun t => t.part ∉ ([] : List (Nat × Sizes)).map Prod.fst) = ts :=
      List.filter_eq_self.2 fun t _ => decide_eq_true List.not_mem_nil
    exact ⟨List.nodup_nil, List.nil_subset _, s, found, all.symm ▸ laidOut⟩
  | cons c cs ih =>
    obtain ⟨part, size⟩ := c
    rw [List.forM_cons] at h
    rcases gives_bind.1 h with ⟨_, -, he⟩ | ⟨_, b₁, hc, hrest⟩
    · cases he
    obtain ⟨missing, stored⟩ := confirm_of_gives found hc
    obtain ⟨once, among, s', found', rest⟩ :=
      ih (s := s.confirm part size) stored (Session.tasks?_confirm laidOut part size) hrest
    -- What is confirmed later is among the tasks that the first confirmation has left.
    have fresh : ∀ i ∈ cs.map Prod.fst, i ≠ part ∧ i ∈ ts.map Task.part := by
      intro i hi
      obtain ⟨t, ht, rfl⟩ := List.mem_map.1 (among hi)
      obtain ⟨ht, hne⟩ := List.mem_filter.1 ht
      exact ⟨of_decide_eq_true hne, List.mem_map_of_mem ht⟩
    refine ⟨?_, ?_, s', found', ?_⟩
    · exact List.nodup_cons.2 ⟨fun hi => (fresh part hi).1 rfl, once⟩
    · exact List.cons_subset.2
        ⟨Session.mem_parts_of_missing laidOut missing, fun i hi => (fresh i hi).2⟩
    · rw [rest, List.filter_filter]
      refine congrArg (some ∘ Except.ok) (List.filter_congr fun t _ => ?_)
      rw [Bool.eq_iff_iff]
      simp only [Bool.and_eq_true, decide_eq_true_eq, List.map_cons, List.mem_cons, not_or]
      exact and_comm

end SessionStore

namespace Session

/-- A session that is stored under its id resumes with what is left.
(a) It has tasks exactly if it has as many parts as flags; then every part has a flag,
and the tasks are those of the parts whose flag is not set, in the order of the parts.
(b) After any number of confirmations that work out, the session that is loaded has the
same tasks without those of the confirmed parts. -/
theorem tasks_follow_confirms {b : Backend} (stored : b.records.shelf.session s.id = some s) :
    (∀ ps, s.parts? = some ps →
      ((∃ ts, s.tasks? = some (.ok ts)) ↔ ps.length = s.partCount) ∧
      ∀ ts, s.tasks? = some (.ok ts) →
        (∀ p ∈ ps, p.index < s.uploaded.length) ∧
        (ts.Pairwise fun t u => t.part < u.part) ∧
        ∀ t, t ∈ ts ↔ ∃ p ∈ ps, s.uploaded[p.index]? = some false ∧
          t = ⟨p.index, p.pathUnder s.pathRoot, s.query, p.start, p.stop, s.window⟩) ∧
    ∀ ts, s.tasks? = some (.ok ts) → ∀ (cs : List (Nat × Sizes)) b',
      Gives (forM cs fun c => SessionStore.confirm s.id c.1 c.2) b (.ok ()) b' →
        (cs.map Prod.fst).Nodup ∧ cs.map Prod.fst ⊆ ts.map Task.part ∧
        ∃ s', Gives (load s.id) ⟨b'.records, {}⟩ (.ok s') ⟨b'.records, {}⟩ ∧
          s'.tasks? = some (.ok (ts.filter fun t => t.part ∉ cs.map Prod.fst)) := by
  refine ⟨fun ps parts => ⟨⟨?_, fun length => ?_⟩, fun ts laidOut => ?_⟩,
    fun ts laidOut cs b' h => ?_⟩
  · rintro ⟨ts, laidOut⟩
    exact (laidOut_of_tasks? parts laidOut).length
  · exact ⟨_, tasks?_eq_ok_iff.2 ⟨ps, ⟨parts, length⟩, rfl⟩⟩
  · have h := laidOut_of_tasks? parts laidOut
    exact ⟨fun p hp => h.index_lt hp, ascending_of_tasks? laidOut,
      fun t => h.mem_tasks_iff laidOut⟩
  · obtain ⟨once, among, s', found, rest⟩ := rest_of_gives_confirms stored laidOut h
    exact ⟨once, among, s', load_quiet rfl found, rest⟩

/-- Three hours in parts of one, of which the middle one is uploaded. Once the oldest is
confirmed, the newest is left. -/
theorem tasks_follow_confirms_three_hours :
    ∃ (s s' : Session) (b b' : Backend), b.records.shelf.session s.id = some s ∧
      s.uploaded = [false, true, false] ∧
      Gives (forM [(2, ⟨7, 5⟩)] fun c => SessionStore.confirm s.id c.1 c.2) b (.ok ()) b' ∧
      Gives (load s.id) ⟨b'.records, {}⟩ (.ok s') ⟨b'.records, {}⟩ ∧
      s'.tasks? = some (.ok [s.taskOf ⟨0, ⟨1704074400, 0⟩, ⟨1704078000, 0⟩⟩]) := by
  let s : Session :=
    { id := "alice/job_1704153600000", user := "alice", name := "job", status := .start,
      query := "*", start := ⟨1704067200, 0⟩, stop := ⟨1704078000, 0⟩, window := ⟨3600000000000⟩,
      partLength := ⟨3600000000000⟩, batchSize := 100, uploaded := [false, true, false],
      total := .zero, pathRoot := "exports/alice/job_1704153600000",
      createdAt := ⟨1704153600, 0⟩, startedAt := some ⟨1704153600, 0⟩, finishedAt := none,
      error := none }
  have settled : s.Settled :=
    { start := by decide
      stop := by decide
      window := by decide
      partLength := by decide
      batchSize := by decide
      unpacked := by decide
      packed := by decide
      createdAt := by decide
      startedAt := by rintro _ ⟨⟩; decide
      finishedAt := by rintro _ ⟨⟩
      kept := by decide }
  let b : Backend := { records := KeyMap.empty.write (putSession s) }
  have stored : b.records.shelf.session s.id = some s := by
    rw [KeyMap.shelf_putSession settled.toStorable, settled.kept]
    exact Function.update_self s.id (some s) (KeyMap.empty : Records).shelf.session
  have parts : s.parts? = some [⟨0, ⟨1704074400, 0⟩, ⟨1704078000, 0⟩⟩,
      ⟨1, ⟨1704070800, 0⟩, ⟨1704074400, 0⟩⟩, ⟨2, ⟨1704067200, 0⟩, ⟨1704070800, 0⟩⟩] := by
    decide
  have laidOut : s.tasks? = some (.ok [s.taskOf ⟨0, ⟨1704074400, 0⟩, ⟨1704078000, 0⟩⟩,
      s.taskOf ⟨2, ⟨1704067200, 0⟩, ⟨1704070800, 0⟩⟩]) :=
    tasks?_eq_ok_iff.2 ⟨_, ⟨parts, rfl⟩, rfl⟩
  have confirmed :
      Gives (forM [(2, ⟨7, 5⟩)] fun c => SessionStore.confirm s.id c.1 c.2) b (.ok ()) _ :=
    gives_bind.2 (.inr ⟨(), _, @confirm_quiet _ _ _ 2 rfl stored rfl ⟨7, 5⟩,
      gives_pure.2 ⟨rfl, rfl⟩⟩)
  obtain ⟨-, -, s', loaded, rest⟩ :=
    (tasks_follow_confirms stored).2 _ laidOut [(2, ⟨7, 5⟩)] _ confirmed
  exact ⟨s, s', b, _, stored, rfl, confirmed, loaded, rest⟩

end Session

end LogExport
