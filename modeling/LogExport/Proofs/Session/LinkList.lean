import LogExport.Proofs.Files.Links
import LogExport.Proofs.Pipeline.Progress
import LogExport.Proofs.Search.Reading
import LogExport.Proofs.Session.Paths

/-! The text of a list of links. It is cut at line breaks to be read, which gives
the links back as long as none of them has a line break in it. -/

namespace LogExport

theorem notMem_of_mem_splitOn {α : Type} [BEq α] [LawfulBEq α] {x : α} {xs l : List α}
    (h : l ∈ xs.splitOn x) : x ∉ l := by
  induction xs generalizing l with
  | nil =>
    obtain rfl := List.mem_singleton.1 h
    exact List.not_mem_nil
  | cons y ys ih =>
    rw [List.splitOn_cons_eq_if_modifyHead] at h
    split at h
    · rcases List.mem_cons.1 h with rfl | h
      · exact List.not_mem_nil
      · exact ih h
    · next hy =>
      cases hs : ys.splitOn x with
      | nil => exact absurd hs (List.splitOn_ne_nil x ys)
      | cons p ps =>
        rw [hs, List.modifyHead_cons] at h
        rw [hs] at ih
        rcases List.mem_cons.1 h with rfl | h
        · refine fun hm => (List.mem_cons.1 hm).elim (fun he => hy ?_) (ih List.mem_cons_self)
          exact beq_iff_eq.2 he.symm
        · exact ih (List.mem_cons_of_mem p h)

/-- Cut at line breaks, the text has a line for every part, which is the link to
its file and not empty, and an empty rest. -/
def ListsParts (base root : String) (ps : List Partition) (text : String) : Prop :=
  ∃ lines : List (List Char), text.toList.splitOn '\n' = lines ++ [[]] ∧
    lines.length = ps.length ∧ (∀ l ∈ lines, l ≠ []) ∧
    ∀ (i : Nat) (p : Partition), ps[i]? = some p →
      lines[i]? = some (Files.linkUnder base (p.pathUnder root)).toList

section Text

variable (base root : String) (ps : List Partition) (p : Partition)

theorem linkUnder_ne_nil (path : String) : (Files.linkUnder base path).toList ≠ [] := by
  simp [Files.linkUnder, String.toList_append]

theorem toList_linkList :
    (linkList base root ps).toList =
      (ps.map fun p => (Files.linkUnder base (p.pathUnder root)).toList).flatMap (· ++ ['\n']) := by
  simp only [linkList, String.toList_join, List.flatMap_map, String.toList_append]
  rfl

/-- A list of links can be read line by line unless a link has a line break. -/
theorem listsParts_iff :
    ListsParts base root ps (linkList base root ps) ↔
      ∀ p ∈ ps, '\n' ∉ (Files.linkUnder base (p.pathUnder root)).toList := by
  constructor
  · rintro ⟨lines, cut, -, -, each⟩ p hp
    obtain ⟨i, hi⟩ := List.getElem?_of_mem hp
    have line : (Files.linkUnder base (p.pathUnder root)).toList ∈
        (linkList base root ps).toList.splitOn '\n' := by
      rw [cut]
      exact List.mem_append_left _ (List.mem_of_getElem? (each i p hi))
    exact notMem_of_mem_splitOn line
  · intro plain
    refine ⟨ps.map fun p => (Files.linkUnder base (p.pathUnder root)).toList, ?_,
      List.length_map _, fun l hl => ?_, fun i p hi => by rw [List.getElem?_map, hi]; rfl⟩
    · rw [toList_linkList]
      refine splitOn_flatMap fun l hl => ?_
      obtain ⟨p, hp, rfl⟩ := List.mem_map.1 hl
      exact plain p hp
    · obtain ⟨p, -, rfl⟩ := List.mem_map.1 hl
      exact linkUnder_ne_nil base _

theorem break_mem_trimmedBase : '\n' ∈ (Files.trimmedBase base).toList ↔ '\n' ∈ base.toList := by
  obtain ⟨n, text⟩ := (Files.trimmedBase_spec base).1
  rw [text, List.mem_append, or_iff_left]
  intro h
  cases List.eq_of_mem_replicate h

theorem break_notMem_fileName : '\n' ∉ p.fileName := by
  intro h
  have compact (t : Instant) : '\n' ∉ t.compact.toList := by
    intro h
    rcases Instant.mem_compact h with h | h
    · cases h
    · exact absurd h (by decide)
  rcases List.mem_append.1 h with h | h
  · exact compact _ h
  rcases List.mem_cons.1 h with h | h
  · cases h
  rcases List.mem_append.1 h with h | h
  · exact compact _ h
  · exact absurd h (by decide)

/-- A line break in a link comes from the base or from the root of the paths. -/
theorem break_mem_linkUnder :
    '\n' ∈ (Files.linkUnder base (p.pathUnder root)).toList ↔
      '\n' ∈ base.toList ∨ '\n' ∈ root.toList := by
  have slash : '\n' ∉ "/".toList := by decide
  rw [Partition.pathUnder_eq, Files.linkUnder]
  simp only [String.toList_append, String.toList_ofList, List.mem_append, break_mem_trimmedBase,
    break_notMem_fileName, slash, or_false]

end Text

/-- A line break in the root comes from the user or from the name of the export. -/
theorem Session.break_mem_root {user name : String} {t : Instant} :
    '\n' ∈ ("exports/" ++ idOf user name t).toList ↔ '\n' ∈ user.toList ∨ '\n' ∈ name.toList := by
  have fixed : '\n' ∉ "exports/".toList ∧ '\n' ∉ "/".toList ∧ '\n' ∉ "_".toList := by decide
  have millis : '\n' ∉ (toString t.millis).toList := by
    intro h
    rcases mem_toString h with h | h <;> cases h
  simp only [idOf, String.toList_append, List.mem_append, fixed, millis, false_or, or_false]

/-- When the list of an export's links can be read line by line: if there are no
parts, or base, user and name have no line break. -/
theorem Session.listsParts_iff_of_root {base user name : String} {t : Instant}
    {ps : List Partition} :
    ListsParts base ("exports/" ++ idOf user name t) ps
        (linkList base ("exports/" ++ idOf user name t) ps) ↔
      ps = [] ∨ '\n' ∉ base.toList ∧ '\n' ∉ user.toList ∧ '\n' ∉ name.toList := by
  rw [listsParts_iff]
  simp only [break_mem_linkUnder, break_mem_root, not_or]
  constructor
  · intro all
    cases ps with
    | nil => exact .inl rfl
    | cons p ps => exact .inr (all p List.mem_cons_self)
  · rintro (rfl | plain) p hp
    · cases hp
    · exact plain

end LogExport
