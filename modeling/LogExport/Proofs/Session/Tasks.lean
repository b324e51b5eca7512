import LogExport.Proofs.Partition.Tiling
import LogExport.Session.Task

/-! The tasks of a session are those of its parts that have no flag set, in the order
of the parts. -/

namespace LogExport

namespace Session

/-- The parts of a session, as many as it has flags. -/
structure LaidOut (s : Session) (ps : List Partition) : Prop where
  parts : s.parts? = some ps
  length : ps.length = s.partCount

variable {s : Session} {ps : List Partition} {ts : List Task}

theorem LaidOut.unique {ps ps' : List Partition} (h : s.LaidOut ps) (h' : s.LaidOut ps') :
    ps = ps' := Option.some.inj (h.parts.symm.trans h'.parts)

theorem LaidOut.index_lt (h : s.LaidOut ps) {p : Partition} (hp : p ∈ ps) :
    p.index < s.uploaded.length := by
  have hmem := List.mem_map_of_mem (f := Partition.index) hp
  rw [indices_of_partitions? h.parts, List.mem_range] at hmem
  exact Nat.lt_of_lt_of_eq hmem h.length

theorem tasks?_eq_ok_iff :
    s.tasks? = some (.ok ts) ↔ ∃ ps, s.LaidOut ps ∧
      ts = (ps.filter fun p => s.uploaded[p.index]? != some true).map s.taskOf := by
  constructor
  · intro h
    obtain ⟨ps, parts, ok⟩ := Option.map_eq_some_iff.1 h
    split_ifs at ok with length
    cases ok
    exact ⟨ps, ⟨parts, length⟩, rfl⟩
  · rintro ⟨ps, ⟨parts, length⟩, rfl⟩
    simp only [tasks?, parts, Option.map_some, length, if_true]

theorem laidOut_of_tasks? (parts : s.parts? = some ps) (laidOut : s.tasks? = some (.ok ts)) :
    s.LaidOut ps := by
  obtain ⟨qs, h, -⟩ := tasks?_eq_ok_iff.1 laidOut
  exact Option.some.inj (h.parts.symm.trans parts) ▸ h

/-- A part has a flag, which is set or not. -/
theorem LaidOut.missing_iff (h : s.LaidOut ps) {p : Partition} (hp : p ∈ ps) :
    (s.uploaded[p.index]? != some true) = true ↔ s.uploaded[p.index]? = some false := by
  have flag : p.index < s.uploaded.length := h.index_lt hp
  rw [List.getElem?_eq_getElem flag]
  cases s.uploaded[p.index] <;> decide

theorem LaidOut.mem_tasks_iff (h : s.LaidOut ps) (laidOut : s.tasks? = some (.ok ts)) {t : Task} :
    t ∈ ts ↔ ∃ p ∈ ps, s.uploaded[p.index]? = some false ∧ t = s.taskOf p := by
  obtain ⟨qs, h', rfl⟩ := tasks?_eq_ok_iff.1 laidOut
  obtain rfl := h.unique h'
  simp only [List.mem_map, List.mem_filter]
  constructor
  · rintro ⟨p, ⟨hp, missing⟩, rfl⟩
    exact ⟨p, hp, (h.missing_iff hp).1 missing, rfl⟩
  · rintro ⟨p, hp, missing, rfl⟩
    exact ⟨p, ⟨hp, (h.missing_iff hp).2 missing⟩, rfl⟩

/-- Tasks come in the order of their parts. -/
theorem ascending_of_tasks? (laidOut : s.tasks? = some (.ok ts)) :
    ts.Pairwise fun t u => t.part < u.part := by
  obtain ⟨ps, h, rfl⟩ := tasks?_eq_ok_iff.1 laidOut
  have ascending : (ps.map Partition.index).Pairwise (· < ·) := by
    rw [indices_of_partitions? h.parts]
    exact List.pairwise_lt_range
  exact List.pairwise_map.2 ((List.pairwise_map.1 ascending).sublist List.filter_sublist)

theorem mem_parts_of_missing {part : Nat} (laidOut : s.tasks? = some (.ok ts))
    (missing : s.uploaded[part]? = some false) : part ∈ ts.map Task.part := by
  obtain ⟨ps, h, -⟩ := tasks?_eq_ok_iff.1 laidOut
  have hlt : part < ps.length :=
    Nat.lt_of_lt_of_eq (List.getElem?_eq_some_iff.1 missing).1 h.length.symm
  have place := index_of_partitions? h.parts (List.getElem?_eq_getElem hlt)
  exact List.mem_map.2 ⟨_, (h.mem_tasks_iff laidOut).2
    ⟨ps[part], List.getElem_mem hlt, place ▸ missing, rfl⟩, place⟩

end Session

end LogExport
