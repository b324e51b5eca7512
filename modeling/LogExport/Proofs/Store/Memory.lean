import Mathlib.Data.List.Induction
import LogExport.Proofs.Store.Records
import LogExport.Store.Memory

/-! Storage in memory is the ordered map that its past describes. Under a key there is
what the last write on it has left, also of several in one batch. A scan gives what was
there when it was opened, in the order of the keys, whatever is written while it is
being read. -/

namespace LogExport

/-- What a write leaves under its key. -/
def Write.value? : Write → Option Bytes
  | put _ v => some v
  | delete _ => none

/-- What the last of all writes on a key has left. -/
def lastValue (k : Bytes) (ws : List Write) : Option Bytes :=
  (ws.filter fun w => w.key = k).getLast?.bind Write.value?

theorem lastValue_append (k : Bytes) (ws : List Write) (w : Write) :
    lastValue k (ws ++ [w]) = if w.key = k then w.value? else lastValue k ws := by
  unfold lastValue
  rw [List.filter_append]
  by_cases h : w.key = k <;> simp [h]

namespace KeyMap

theorem get?_write (r : Records) (w : Write) (k : Bytes) :
    (r.write w).get? k = if w.key = k then w.value? else r.get? k := by
  cases w with
  | put => exact get?_insert ..
  | delete => exact get?_erase ..

theorem apply_append (r : Records) (ws vs : List Write) :
    r.apply (ws ++ vs) = (r.apply ws).apply vs := List.foldl_append

/-- In a map that began empty, the last write on a key decides. -/
theorem get?_apply_empty (ws : List Write) (k : Bytes) :
    ((.empty : Records).apply ws).get? k = lastValue k ws := by
  induction ws using List.reverseRecOn with
  | nil => rfl
  | append_singleton ws w ih =>
    rw [apply_append, lastValue_append, ← ih]
    exact get?_write _ w k

end KeyMap

namespace MemoryCall

/-- The writes of a call, one after the other. -/
def writes : MemoryCall → List Write
  | apply batch => batch
  | put es => es.map fun e => .put e.1 e.2
  | delete k => [.delete k]
  | _ => []

end MemoryCall

/-- All writes of a list of calls, one after the other. -/
def written (calls : List MemoryCall) : List Write := calls.flatMap MemoryCall.writes

namespace Memory

variable {m : Memory} {es : List Entry} {i : Nat}

/-- The storage after a list of calls. -/
def after (m : Memory) (calls : List MemoryCall) : Memory :=
  calls.foldl (fun m c => (m.serve c).2) m

theorem after_cons (m : Memory) (c : MemoryCall) (calls : List MemoryCall) :
    m.after (c :: calls) = (m.serve c).2.after calls := rfl

/-! ### One call -/

theorem records_serve (m : Memory) (c : MemoryCall) :
    (m.serve c).2.records = m.records.apply c.writes := by
  cases c with
  | scan range =>
    simp only [serve]
    split <;> rfl
  | _ => rfl

/-- A scan goes on by the calls for its next record only. -/
theorem scans_serve (h : m.scans[i]? = some es) (c : MemoryCall) :
    (m.serve c).2.scans[i]? = some (if c = .next i then es.tail else es) := by
  cases c with
  | scan range =>
    obtain ⟨hlt, -⟩ := List.getElem?_eq_some_iff.1 h
    simp only [serve]
    split
    · exact (List.getElem?_append_left hlt).trans h
    · exact h
  | next j =>
    simp only [serve, List.getElem?_modify, h, Option.map_eq_map, Option.map_some,
      MemoryCall.next.injEq]
  | _ => exact h

theorem serve_scan {range : KeyRange} (ordered : range.isOrdered = true) :
    m.serve (.scan range) =
      (.opened m.scans.length, { m with scans := m.scans ++ [m.records.within range] }) := by
  simp only [serve, KeyMap.scan?, ordered, if_true]

/-! ### Any number of calls -/

theorem records_after (m : Memory) (calls : List MemoryCall) :
    (m.after calls).records = m.records.apply (written calls) := by
  induction calls generalizing m with
  | nil => rfl
  | cons c calls ih =>
    rw [after_cons, ih, records_serve, ← KeyMap.apply_append]
    rfl

/-- Whatever is called meanwhile, a scan has given as many records as it was asked for. -/
theorem scans_after (h : m.scans[i]? = some es) (calls : List MemoryCall) :
    (m.after calls).scans[i]? = some (es.drop (calls.count (.next i))) := by
  induction calls generalizing m es with
  | nil => rw [List.count_nil, List.drop_zero]; exact h
  | cons c calls ih =>
    rw [after_cons, ih (scans_serve h c), List.count_cons]
    by_cases hc : c = .next i
    · simp [hc, Nat.add_comm]
    · simp [hc]

/-- A scan gives what was there when it was opened, whatever is called since. -/
theorem next_after_scan {range : KeyRange} (ordered : range.isOrdered = true)
    (since : List MemoryCall) :
    ((m.after (.scan range :: since)).serve (.next m.scans.length)).1 =
      .record (m.records.within range)[since.count (.next m.scans.length)]? := by
  have opened : (m.serve (.scan range)).2.scans[m.scans.length]? =
      some (m.records.within range) := by
    rw [serve_scan ordered]
    exact List.getElem?_concat_length
  have left := scans_after opened since
  rw [← after_cons] at left
  simp only [serve, left, Option.bind_some, List.head?_drop]

/-- After any calls on an empty storage,
(a) a read finds what the last write on its key has left;
(b) a scan of a range with its ends in order opens, and however calls for its next record
mix with others from then on, they give the entries of the range at the time of opening,
each once, by rising keys, and then no more;
(c) several records are put, and one is deleted, as by the batches of these writes. -/
theorem behaves_as_map (past : List MemoryCall) :
    (∀ k, ((after {} past).serve (.get k)).1 =
      .record ((lastValue k (written past)).map fun v => (k, v))) ∧
    (∀ range, range.isOrdered = true → ∃ (i : Nat) (es : List Entry),
      ((after {} past).serve (.scan range)).1 = .opened i ∧
      (es.Pairwise fun a b => a.1 < b.1) ∧
      (∀ k v, (k, v) ∈ es ↔ range.contains k = true ∧ lastValue k (written past) = some v) ∧
      ∀ since, ((after {} (past ++ .scan range :: since)).serve (.next i)).1 =
        .record es[since.count (.next i)]?) ∧
    (∀ es, (after {} past).serve (.put es) =
      (after {} past).serve (.apply (es.map fun e => .put e.1 e.2))) ∧
    ∀ k, (after {} past).serve (.delete k) = (after {} past).serve (.apply [.delete k]) := by
  have found (k : Bytes) : (after {} past).records.get? k = lastValue k (written past) := by
    rw [records_after]
    exact KeyMap.get?_apply_empty ..
  refine ⟨fun k => ?_, fun range ordered => ?_, fun _ => rfl, fun _ => rfl⟩
  · rw [← found]
    rfl
  · refine ⟨_, (after {} past).records.within range, by rw [serve_scan ordered],
      KeyMap.sorted_within _ _, fun k v => ?_, fun since => ?_⟩
    · rw [KeyMap.mem_within, found, and_comm]
    · rw [← next_after_scan ordered since, after, List.foldl_append]
      rfl

/-- A batch that writes a key twice, and a scan that is read while its range is emptied. -/
theorem behaves_as_map_mixed :
    let past : List MemoryCall :=
      [.put [([1], [10]), ([2, 0], [20])], .apply [.delete [1], .put [2] [21], .put [1] [11]]]
    let range : KeyRange := ⟨.included [1], .excluded [2, 0]⟩
    range.isOrdered = true ∧
      ((after {} past).serve (.get [1])).1 = .record (some ([1], [11])) ∧
      ∃ es : List Entry, ([1], [11]) ∈ es ∧ ([2], [21]) ∈ es ∧ (∀ v, ([2, 0], v) ∉ es) ∧
        ((after {} (past ++ .scan range :: [.next 0, .apply [.delete [1], .delete [2]]])).serve
          (.next 0)).1 = .record es[1]? := by
  obtain ⟨get, scan, -⟩ := behaves_as_map
    [.put [([1], [10]), ([2, 0], [20])], .apply [.delete [1], .put [2] [21], .put [1] [11]]]
  obtain ⟨i, es, opened, -, mem, next⟩ := scan ⟨.included [1], .excluded [2, 0]⟩ (by decide)
  have first : MemoryAnswer.opened 0 = .opened i := opened
  cases first
  refine ⟨by decide, get [1], es, (mem _ _).2 (by decide), (mem _ _).2 (by decide), fun v hv => ?_,
    next [.next 0, .apply [.delete [1], .delete [2]]]⟩
  exact absurd ((mem _ _).1 hv).1 (by decide)

end Memory

end LogExport
