import LogExport.Proofs.Store.Records
import LogExport.Store.Backend

/-! What a computation on storage gives: a result or an error, and the backend
after it. A call that fails leaves the records as they were. -/

namespace LogExport

namespace Access

variable {α β : Type}

/-- Run on `b`, the computation gives `r` and leaves `b'`. -/
def Gives (m : Access α) (b : Backend) (r : Except Error α) (b' : Backend) : Prop :=
  m.run.run b = (r, b')

theorem gives_unique {m : Access α} {b b₁ b₂ : Backend} {r₁ r₂ : Except Error α}
    (h₁ : Gives m b r₁ b₁) (h₂ : Gives m b r₂ b₂) : r₁ = r₂ ∧ b₁ = b₂ :=
  Prod.mk.inj (h₁.symm.trans h₂)

theorem gives_pure {a : α} {b b' : Backend} {r : Except Error α} :
    Gives (pure a) b r b' ↔ r = .ok a ∧ b' = b := by
  show (Except.ok a, b) = (r, b') ↔ _
  rw [Prod.mk.injEq]
  exact and_congr eq_comm eq_comm

theorem gives_throw {e : Error} {b b' : Backend} {r : Except Error α} :
    Gives (throw e) b r b' ↔ r = .error e ∧ b' = b := by
  show (Except.error e, b) = (r, b') ↔ _
  rw [Prod.mk.injEq]
  exact and_congr eq_comm eq_comm

/-- A computation after another runs where that one gave a value. -/
theorem gives_bind {m : Access α} {f : α → Access β} {b b' : Backend} {r : Except Error β} :
    Gives (m >>= f) b r b' ↔
      (∃ e, Gives m b (.error e) b' ∧ r = .error e) ∨
        ∃ a b₁, Gives m b (.ok a) b₁ ∧ Gives (f a) b₁ r b' := by
  have hrun : (m >>= f).run.run b =
      match m.run.run b with
      | (.ok a, b₁) => (f a).run.run b₁
      | (.error e, b₁) => (.error e, b₁) := by
    simp only [ExceptT.run_bind, StateT.run_bind]
    rcases m.run.run b with ⟨_ | _, _⟩ <;> rfl
  unfold Gives
  rw [hrun]
  rcases m.run.run b with ⟨e | a, b₁⟩
  · constructor
    · intro h
      cases h
      exact .inl ⟨e, rfl, rfl⟩
    · rintro (⟨_, h, rfl⟩ | ⟨_, _, h, _⟩)
      · cases h
        rfl
      · cases h
  · constructor
    · intro h
      exact .inr ⟨a, b₁, rfl, h⟩
    · rintro (⟨_, h, _⟩ | ⟨_, _, h, h'⟩)
      · cases h
      · cases h
        exact h'

theorem gives_throw_bind {e : Error} {f : α → Access β} {b b' : Backend} {r : Except Error β} :
    Gives (throw e >>= f) b r b' ↔ r = .error e ∧ b' = b := by
  show (Except.error e, b) = (r, b') ↔ _
  rw [Prod.mk.injEq]
  exact and_congr eq_comm eq_comm

theorem gives_call {c : Call} {b b' : Backend} {r : Except Error Unit}
    (h : Gives (Backend.call c) b r b') :
    b'.records = b.records ∧ (b.faults = {} → r = .ok () ∧ b' = b) := by
  rcases gives_bind.1 h with ⟨_, hget, -⟩ | ⟨_, _, hget, h⟩
  · cases hget
  cases hget
  rcases hd : FaultPlan.draw (b.faults.queue c) with ⟨fault, q⟩
  rw [hd] at h
  rcases gives_bind.1 h with ⟨_, hset, -⟩ | ⟨_, _, hset, h⟩
  · cases hset
  cases hset
  cases fault with
  | some e =>
    cases h
    refine ⟨rfl, fun hq => ?_⟩
    rw [hq] at hd
    cases c <;> cases hd
  | none =>
    cases h
    refine ⟨rfl, fun hq => ⟨rfl, ?_⟩⟩
    obtain ⟨records, faults⟩ := b
    cases hq
    cases c <;> cases hd <;> rfl

/-- A read gives what is found, or fails; nothing changes. -/
theorem gives_read {k : Bytes} {b b' : Backend} {r : Except Error (Option Bytes)}
    (h : Gives (Backend.read k) b r b') :
    b'.records = b.records ∧ ((∃ e, r = .error e) ∨ r = .ok (b.records.get? k)) := by
  rcases gives_bind.1 h with ⟨e, hc, rfl⟩ | ⟨_, b₁, hc, hr⟩
  · exact ⟨(gives_call hc).1, .inl ⟨e, rfl⟩⟩
  · cases hr
    exact ⟨(gives_call hc).1, .inr (by rw [← (gives_call hc).1])⟩

theorem gives_scan {range : KeyRange} {b b' : Backend} {r : Except Error (List Entry)}
    (h : Gives (Backend.scan range) b r b') :
    b'.records = b.records ∧ ((∃ e, r = .error e) ∨ r = .ok (b.records.within range)) := by
  rcases gives_bind.1 h with ⟨e, hc, rfl⟩ | ⟨_, b₁, hc, hr⟩
  · exact ⟨(gives_call hc).1, .inl ⟨e, rfl⟩⟩
  · cases hr
    exact ⟨(gives_call hc).1, .inr (by rw [← (gives_call hc).1])⟩

/-- A batch is written, or the call fails and nothing changes. -/
theorem gives_apply {batch : List Write} {b b' : Backend} {r : Except Error Unit}
    (h : Gives (Backend.apply batch) b r b') :
    (∃ e, r = .error e ∧ b'.records = b.records) ∨
      r = .ok () ∧ b'.records = b.records.apply batch := by
  rcases gives_bind.1 h with ⟨e, hc, rfl⟩ | ⟨_, b₁, hc, hr⟩
  · exact .inl ⟨e, rfl, (gives_call hc).1⟩
  · cases hr
    exact .inr ⟨rfl, congrArg (KeyMap.apply · batch) (gives_call hc).1⟩

/-! ### Without failures -/

theorem call_quiet {b : Backend} (hq : b.faults = {}) (c : Call) :
    Gives (Backend.call c) b (.ok ()) b := by
  rcases hg : (Backend.call c).run.run b with ⟨r, b'⟩
  obtain ⟨rfl, rfl⟩ := (gives_call hg).2 hq
  exact hg

theorem read_quiet {b : Backend} (hq : b.faults = {}) (k : Bytes) :
    Gives (Backend.read k) b (.ok (b.records.get? k)) b :=
  gives_bind.2 (.inr ⟨(), b, call_quiet hq .get, rfl⟩)

theorem scan_quiet {b : Backend} (hq : b.faults = {}) (range : KeyRange) :
    Gives (Backend.scan range) b (.ok (b.records.within range)) b :=
  gives_bind.2 (.inr ⟨(), b, call_quiet hq .scan, rfl⟩)

theorem apply_quiet {b : Backend} (hq : b.faults = {}) (batch : List Write) :
    Gives (Backend.apply batch) b (.ok ()) { b with records := b.records.apply batch } :=
  gives_bind.2 (.inr ⟨(), b, call_quiet hq .apply, rfl⟩)

end Access

end LogExport
