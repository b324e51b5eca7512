import Mathlib.Data.List.Forall2
import Mathlib.Data.Nat.Find
import Mathlib.Logic.Function.Iterate
import LogExport.Search.Limiter

/-! What a caller sees of a limiter. Refusals cost time and nothing else: the
answer after them is the answer of the call. Every attempt but the last ends with
a pause, the last one may be held back, and cancellation can cut such a sleep. -/

namespace LogExport

namespace Answered

variable {α : Type}

/-- The service has refused to answer for the rate of requests. -/
def IsRefusal (a : Answered α) : Prop := ∃ text, a.answer = .error (.rateExceeded text)

end Answered

/-- A sleep of a call. -/
structure Sleep where
  start : Duration
  span : Duration
  /-- Whether cancellation wins if it comes at the end. -/
  wins : Bool

/-- When cancellation ends the sleep, if it does. -/
def Sleep.cut? (s : Sleep) (cancelAt : Option Duration) : Option Duration :=
  cutSleep? cancelAt s.wins s.start s.span

/-- A sleep does not last beyond cancellation. -/
theorem Sleep.cut?_of_early {s : Sleep} {c : Duration} (positive : 0 < s.span.nanos)
    (early : c < s.start.after s.span) :
    s.cut? (some c) = some ⟨max s.start.nanos c.nanos⟩ := by
  simp only [cut?, cutSleep?, positive, early, and_self, if_true]

namespace Limiter

variable {α ρ : Type}

/-- The attempt after `i` refusals, if no pause was cut. -/
def attempt (l : Limiter) (t : Attempt) (answers : List (Answered α)) (i : Nat) : Attempt :=
  (answers.take i).foldl (fun t a => l.resume t a.took) t

/-- The sleep after an answer: a pause, or the time for which a page is held back. -/
def sleep? (l : Limiter) (t : Attempt) (a : Answered α) : Option Sleep :=
  match a.answer with
  | .ok _ =>
    if l.pacing.delay < a.took then none
    else some ⟨t.now.after a.took, ⟨l.pacing.delay.nanos - a.took.nanos⟩, l.wins t.chances⟩
  | .error (.rateExceeded _) =>
    some ⟨t.now.after a.took, l.draw t.chances t.interval, l.wins t.chances⟩
  | .error _ => none

/-- The sleep after the answer to attempt `i`. -/
def sleepAt? (l : Limiter) (t : Attempt) (answers : List (Answered α)) (i : Nat) : Option Sleep :=
  answers[i]?.bind (l.sleep? (l.attempt t answers i))

/-- How long the last attempt of a call takes: a page at least the least length,
an error no longer than the service took. -/
def lasts (l : Limiter) (a : Answered α) : Duration :=
  match a.answer with
  | .ok _ => ⟨max l.pacing.delay.nanos a.took.nanos⟩
  | .error _ => a.took

/-- What the first `n` attempts ask the service. -/
def asks (l : Limiter) (c : PacedCall ρ) (t : Attempt) (answers : List (Answered α)) (n : Nat) :
    List (Duration × ρ) :=
  (List.range n).map fun i => ((l.attempt t answers i).now, c.request)

variable {l : Limiter} {c : PacedCall ρ} {t : Attempt} {a last : Answered α}

theorem asks_succ (answers : List (Answered α)) (n : Nat) :
    l.asks c t (a :: answers) (n + 1) =
      (t.now, c.request) :: l.asks c (l.resume t a.took) answers n := by
  simp only [asks, List.range_succ_eq_map, List.map_cons, List.map_map]
  rfl

/-! ### One attempt -/

/-- After a refusal and its pause the search goes on with the next attempt. -/
theorem search_refused (blank : α) (answers : List (Answered α)) {s : Sleep}
    (refused : a.IsRefusal) (sleeps : l.sleep? t a = some s) (uncut : s.cut? c.cancelAt = none) :
    l.search c blank t (a :: answers) =
      ((l.search c blank (l.resume t a.took) answers).refused s.span).called t.now c.request := by
  obtain ⟨text, answer⟩ := refused
  simp only [sleep?, answer, Option.some.injEq] at sleeps
  subst sleeps
  simp only [Sleep.cut?] at uncut
  simp only [search, answer, uncut]

/-- If its pause is cut, it ends. -/
theorem search_cut (blank : α) (answers : List (Answered α)) {s : Sleep} {stop : Duration}
    (refused : a.IsRefusal) (sleeps : l.sleep? t a = some s)
    (cut : s.cut? c.cancelAt = some stop) :
    l.search c blank t (a :: answers) =
      ((PacedRun.ended (.error .cancelled) stop answers (t.chances + 1)).refused s.span).called
        t.now c.request := by
  obtain ⟨text, answer⟩ := refused
  simp only [sleep?, answer, Option.some.injEq] at sleeps
  subst sleeps
  simp only [Sleep.cut?] at cut
  simp only [search, answer, cut]

/-- An answer that is no refusal is the answer of the call. -/
theorem search_settled (blank : α) (rest : List (Answered α)) (settled : ¬ last.IsRefusal)
    (uncut : ∀ s, l.sleep? t last = some s → s.cut? c.cancelAt = none) :
    ∃ chances, l.search c blank t (last :: rest) =
      (PacedRun.ended last.answer (t.now.after (l.lasts last)) rest chances).called
        t.now c.request := by
  cases answer : last.answer with
  | ok events =>
    by_cases slow : l.pacing.delay < last.took
    · have hle : l.pacing.delay.nanos ≤ last.took.nanos := Nat.le_of_lt slow
      refine ⟨t.chances, ?_⟩
      simp only [search, answer, page, slow, if_true, lasts, Nat.max_eq_right hle]
    · have hle : last.took.nanos ≤ l.pacing.delay.nanos := Nat.le_of_not_lt slow
      have whole := uncut _ (by simp only [sleep?, answer, slow, if_false]; rfl)
      simp only [Sleep.cut?] at whole
      have stop : (t.now.after last.took).after ⟨l.pacing.delay.nanos - last.took.nanos⟩ =
          t.now.after (l.lasts last) := by
        simp only [Duration.after, lasts, answer, Nat.max_eq_left hle, Duration.mk.injEq]
        omega
      refine ⟨t.chances + 1, ?_⟩
      simp only [search, answer, page, slow, if_false, whole, stop]
  | error e =>
    cases e with
    | rateExceeded text => exact absurd ⟨text, answer⟩ settled
    | _ => exact ⟨t.chances, by simp only [search, answer, lasts]⟩

/-- If a page is held back and that is cut, the call is cancelled. -/
theorem search_held_cut (blank : α) (rest : List (Answered α)) {s : Sleep} {stop : Duration}
    (settled : ¬ last.IsRefusal) (sleeps : l.sleep? t last = some s)
    (cut : s.cut? c.cancelAt = some stop) :
    ∃ chances, l.search c blank t (last :: rest) =
      (PacedRun.ended (.error .cancelled) stop rest chances).called t.now c.request := by
  cases answer : last.answer with
  | ok events =>
    by_cases slow : l.pacing.delay < last.took
    · simp only [sleep?, answer, slow, if_true] at sleeps
      cases sleeps
    · simp only [sleep?, answer, slow, if_false, Option.some.injEq] at sleeps
      subst sleeps
      simp only [Sleep.cut?] at cut
      exact ⟨t.chances + 1, by simp only [search, answer, page, slow, if_false, cut]⟩
  | error e =>
    cases e with
    | rateExceeded text => exact absurd ⟨text, answer⟩ settled
    | _ =>
      simp only [sleep?, answer] at sleeps
      cases sleeps

/-! ### A whole call -/

theorem exists_sleep_of_refusal (refused : a.IsRefusal) : ∃ s, l.sleep? t a = some s := by
  obtain ⟨text, answer⟩ := refused
  exact ⟨_, by simp only [sleep?, answer]; rfl⟩

/-- The course of a call that is not cancelled: after `k` refusals `last` is
answered. -/
structure Completes (l : Limiter) (c : PacedCall ρ) (t : Attempt) (answers : List (Answered α))
    (k : Nat) (last : Answered α) (r : PacedRun α ρ) : Prop where
  asked : r.asked = l.asks c t answers (k + 1)
  requests : r.requests = k + 1
  limited : r.limited = k
  result : r.result = last.answer
  stop : r.stop = (l.attempt t answers k).now.after (l.lasts last)

/-- The course of a call that is cancelled in the sleep of attempt `i`, where
attempt `k` would have been the last one. -/
structure CutShort (l : Limiter) (c : PacedCall ρ) (t : Attempt) (answers : List (Answered α))
    (k i : Nat) (r : PacedRun α ρ) : Prop where
  asked : r.asked = l.asks c t answers (i + 1)
  requests : r.requests = i + 1
  limited : r.limited = min (i + 1) k
  result : r.result = .error .cancelled
  slept : ∃ s, l.sleepAt? t answers i = some s ∧ s.cut? c.cancelAt = some r.stop

section Courses

variable {blank : α} {answers refusals rest : List (Answered α)}

/-- If no sleep is cut, all refusals are met, and then the answer of the call. -/
theorem completes_of_uncut (refused : ∀ a ∈ refusals, a.IsRefusal) (settled : ¬ last.IsRefusal)
    (uncut : ∀ i ≤ refusals.length, ∀ s,
      l.sleepAt? t (refusals ++ last :: rest) i = some s → s.cut? c.cancelAt = none) :
    l.Completes c t (refusals ++ last :: rest) refusals.length last
      (l.search c blank t (refusals ++ last :: rest)) := by
  induction refusals generalizing t with
  | nil =>
    have whole : ∀ s, l.sleep? t last = some s → s.cut? c.cancelAt = none :=
      uncut 0 (Nat.le_refl 0)
    obtain ⟨chances, h⟩ := search_settled blank rest settled whole
    rw [List.nil_append, h]
    exact ⟨rfl, rfl, rfl, rfl, rfl⟩
  | cons a refusals ih =>
    have first := refused a List.mem_cons_self
    obtain ⟨s, sleeps⟩ := exists_sleep_of_refusal (l := l) (t := t) first
    have later := ih (t := l.resume t a.took) (fun b hb => refused b (List.mem_cons_of_mem a hb))
      fun i hi => uncut (i + 1) (Nat.succ_le_succ hi)
    rw [List.cons_append, search_refused blank _ first sleeps (uncut 0 (Nat.zero_le _) s sleeps)]
    exact
      { asked := by
          rw [List.length_cons, asks_succ, ← later.asked]
          rfl
        requests := congrArg (· + 1) later.requests
        limited := congrArg (· + 1) later.limited
        result := later.result
        stop := later.stop }

/-- The first sleep that is cut ends the call. -/
theorem cutShort_of_cut {i : Nat} {s : Sleep} {stop : Duration}
    (refused : ∀ a ∈ refusals, a.IsRefusal) (settled : ¬ last.IsRefusal)
    (hi : i ≤ refusals.length)
    (before : ∀ j < i, ∀ s, l.sleepAt? t (refusals ++ last :: rest) j = some s →
      s.cut? c.cancelAt = none)
    (sleeps : l.sleepAt? t (refusals ++ last :: rest) i = some s)
    (cut : s.cut? c.cancelAt = some stop) :
    l.CutShort c t (refusals ++ last :: rest) refusals.length i
      (l.search c blank t (refusals ++ last :: rest)) := by
  induction refusals generalizing t i with
  | nil =>
    obtain rfl : i = 0 := Nat.le_zero.1 hi
    have held : l.sleep? t last = some s := sleeps
    obtain ⟨chances, h⟩ := search_held_cut blank rest settled held cut
    rw [List.nil_append, h]
    exact ⟨rfl, rfl, rfl, rfl, s, sleeps, cut⟩
  | cons a refusals ih =>
    have first := refused a List.mem_cons_self
    cases i with
    | zero =>
      have pause : l.sleep? t a = some s := sleeps
      rw [List.cons_append, search_cut blank _ first pause cut]
      exact ⟨rfl, rfl, by simp [PacedRun.called, PacedRun.refused, PacedRun.ended], rfl, s, sleeps,
        cut⟩
    | succ i =>
      obtain ⟨s₀, sleeps₀⟩ := exists_sleep_of_refusal (l := l) (t := t) first
      have later := ih (t := l.resume t a.took) (fun b hb => refused b (List.mem_cons_of_mem a hb))
        (Nat.le_of_succ_le_succ hi) (fun j hj => before (j + 1) (Nat.succ_lt_succ hj)) sleeps
      have whole := before 0 (Nat.succ_pos i) s₀ sleeps₀
      rw [List.cons_append, search_refused blank _ first sleeps₀ whole]
      exact
        { asked := by
            rw [asks_succ, ← later.asked]
            rfl
          requests := congrArg (· + 1) later.requests
          limited := by
            have := later.limited
            simp only [PacedRun.called, PacedRun.refused, List.length_cons, this]
            omega
          result := later.result
          slept := later.slept }

/-- A call that is cancelled while it sleeps ends with a sleep that was cut, and
asks nothing after it. -/
theorem cutShort_of_cancelled {j : Nat} {s : Sleep} {moment : Duration}
    (refused : ∀ a ∈ refusals, a.IsRefusal) (settled : ¬ last.IsRefusal)
    (hj : j ≤ refusals.length) (cancel : c.cancelAt = some moment)
    (sleeps : l.sleepAt? t (refusals ++ last :: rest) j = some s) (positive : 0 < s.span.nanos)
    (early : moment < s.start.after s.span) :
    ∃ i ≤ j, l.CutShort c t (refusals ++ last :: rest) refusals.length i
      (l.search c blank t (refusals ++ last :: rest)) := by
  -- The sleep itself is cut, so there is a first one that is.
  have cuts : ∃ i s stop, l.sleepAt? t (refusals ++ last :: rest) i = some s ∧
      s.cut? c.cancelAt = some stop :=
    ⟨j, s, _, sleeps, cancel ▸ s.cut?_of_early positive early⟩
  classical
  obtain ⟨s', stop, sleeps', cut'⟩ := Nat.find_spec cuts
  have hle : Nat.find cuts ≤ j :=
    Nat.find_min' cuts ⟨s, _, sleeps, cancel ▸ s.cut?_of_early positive early⟩
  refine ⟨Nat.find cuts, hle, cutShort_of_cut refused settled (Nat.le_trans hle hj)
    (fun k hk u hu => ?_) sleeps' cut'⟩
  rw [Option.eq_none_iff_forall_not_mem]
  exact fun stop hstop => Nat.find_min cuts hk ⟨u, stop, hu, hstop⟩

/-- A page ends the call, if it is not cancelled while the page is held back. -/
theorem page_cases (took : Duration) (events : α) (left : List (Answered α)) :
    ∃ result stop chances, (result = .ok events ∨ result = .error .cancelled) ∧
      l.page c t took events left = .ended result stop left chances := by
  unfold Limiter.page
  dsimp only
  split
  · exact ⟨_, _, _, .inl rfl, rfl⟩
  · split
    · exact ⟨_, _, _, .inr rfl, rfl⟩
    · exact ⟨_, _, _, .inl rfl, rfl⟩

/-- What one attempt can come to: a pause and the next attempt, a pause that is
cut, or the end of the call. -/
theorem search_cases (l : Limiter) (c : PacedCall ρ) (blank : α) (t : Attempt) (a : Answered α)
    (answers : List (Answered α)) :
    (l.search c blank t (a :: answers) =
        ((l.search c blank (l.resume t a.took) answers).refused
          (l.draw t.chances t.interval)).called t.now c.request) ∨
      (∃ stop, l.search c blank t (a :: answers) =
        ((PacedRun.ended (.error .cancelled) stop answers (t.chances + 1)).refused
          (l.draw t.chances t.interval)).called t.now c.request) ∨
      ∃ result stop chances, (∀ text, result ≠ .error (.rateExceeded text)) ∧
        l.search c blank t (a :: answers) =
          (PacedRun.ended result stop answers chances).called t.now c.request := by
  cases answer : a.answer with
  | ok events =>
    obtain ⟨result, stop, chances, hresult, hpage⟩ :=
      page_cases (l := l) (c := c) (t := t) a.took events answers
    refine .inr (.inr ⟨result, stop, chances, fun text => ?_, ?_⟩)
    · rcases hresult with rfl | rfl <;> nofun
    · simp only [search, answer, hpage]
  | error e =>
    cases e with
    | rateExceeded text =>
      have refused : a.IsRefusal := ⟨text, answer⟩
      have sleeps : l.sleep? t a =
          some ⟨t.now.after a.took, l.draw t.chances t.interval, l.wins t.chances⟩ := by
        simp only [sleep?, answer]
      cases cut : Sleep.cut? ⟨t.now.after a.took, l.draw t.chances t.interval, l.wins t.chances⟩
          c.cancelAt with
      | none => exact .inl (search_refused blank answers refused sleeps cut)
      | some stop => exact .inr (.inl ⟨stop, search_cut blank answers refused sleeps cut⟩)
    | _ =>
      refine .inr (.inr ⟨_, _, _, fun text h => ?_, by simp only [search, answer]; rfl⟩)
      cases h

/-- A refusal is never the answer of a call. -/
theorem search_ne_refusal (text : String) :
    (l.search c blank t answers).result ≠ .error (.rateExceeded text) := by
  induction answers generalizing t with
  | nil =>
    obtain ⟨result, stop, chances, hresult, hpage⟩ :=
      page_cases (l := l) (c := c) (t := t) ⟨0⟩ blank []
    rw [search, hpage]
    rcases hresult with rfl | rfl <;> nofun
  | cons a answers ih =>
    rcases l.search_cases c blank t a answers with h | ⟨stop, h⟩ | ⟨result, stop, chances, hne, h⟩
    · rw [h]
      exact ih
    · rw [h]
      nofun
    · rw [h]
      exact hne text

/-- A call leaves some of the last answers. -/
theorem search_left : (l.search c blank t answers).left <:+ answers := by
  induction answers generalizing t with
  | nil =>
    obtain ⟨result, stop, chances, -, hpage⟩ :=
      page_cases (l := l) (c := c) (t := t) ⟨0⟩ blank []
    rw [search, hpage]
    exact List.suffix_rfl
  | cons a answers ih =>
    rcases l.search_cases c blank t a answers with h | ⟨stop, h⟩ | ⟨result, stop, chances, -, h⟩
    · rw [h]
      exact ih.trans (List.suffix_cons a answers)
    · rw [h]
      exact List.suffix_cons a answers
    · rw [h]
      exact List.suffix_cons a answers

/-- The pauses of a call are drawn one after the other, for intervals that follow
from the first. -/
theorem search_waits :
    (l.search c blank t answers).waits =
      (List.range (l.search c blank t answers).limited).map fun i =>
        l.draw (t.chances + i) (l.pacing.nextInterval^[i] t.interval) := by
  induction answers generalizing t with
  | nil =>
    obtain ⟨result, stop, chances, -, hpage⟩ :=
      page_cases (l := l) (c := c) (t := t) ⟨0⟩ blank []
    rw [search, hpage]
    rfl
  | cons a answers ih =>
    rcases l.search_cases c blank t a answers with h | ⟨stop, h⟩ | ⟨result, stop, chances, -, h⟩
    · rw [h]
      simp only [PacedRun.called, PacedRun.refused, List.range_succ_eq_map, List.map_cons,
        List.map_map, ih (t := l.resume t a.took)]
      refine congrArg _ (List.map_congr_left fun i _ => ?_)
      simp only [resume, Function.comp_apply, Function.iterate_succ_apply, Nat.succ_eq_add_one]
      rw [Nat.add_right_comm, Nat.add_assoc]
    · rw [h]
      rfl
    · rw [h]
      rfl

end Courses

theorem interval_eq_iterate (p : Pacing) (i : Nat) :
    p.interval i = p.nextInterval^[i] p.initialBackoff := by
  induction i with
  | zero => rfl
  | succ i ih => rw [Function.iterate_succ_apply', ← ih, Pacing.interval]

/-- The pauses of a call are drawn for the intervals of the settings. -/
theorem call_waits {blank : α} {chances : Nat} {answers : List (Answered α)} :
    (l.call c blank chances answers).waits =
      (List.range (l.call c blank chances answers).limited).map fun i =>
        l.draw (chances + i) (l.pacing.interval i) := by
  refine search_waits.trans ?_
  simp only [interval_eq_iterate]
  rfl

/-- A series makes its calls in turn, each on answers that those before it have left. -/
theorem series_calls (blank : α) (chances : Nat) (answers : List (Answered α))
    (calls : List (PacedCall ρ)) :
    List.Forall₂
      (fun c r => ∃ drawn left, left <:+ answers ∧ r = l.call c blank drawn left)
      calls (l.series blank chances answers calls) := by
  induction calls generalizing chances answers with
  | nil => exact .nil
  | cons c calls ih =>
    refine .cons ⟨chances, answers, List.suffix_rfl, rfl⟩ ((ih _ _).imp ?_)
    rintro c' r ⟨drawn, left, later, called⟩
    exact ⟨drawn, left, later.trans search_left, called⟩

/-- Refusals are hidden. Let the service refuse `k` times and then answer
otherwise, whatever its answers take and whatever pauses are drawn.
(a) If no sleep of the call is cut, it has asked `k + 1` times for the same, with
the counters grown accordingly, and returns the last answer: a page after the
least length or when it came, if that is later, an error at once.
(b) If cancellation comes before a sleep of positive length has ended, the call
is cancelled, in that sleep or one before, and has asked nothing since.
(c) No call returns a refusal.
(d) In a series each request is called in turn, and the pauses of every call are
drawn for the same intervals. -/
theorem refusals_are_hidden (l : Limiter) (blank : α) (chances : Nat) :
    (∀ (c : PacedCall ρ) (refusals : List (Answered α)) (last : Answered α)
      (rest : List (Answered α)), (∀ a ∈ refusals, a.IsRefusal) → ¬ last.IsRefusal →
      let answers := refusals ++ last :: rest
      let t := l.fresh c.begun chances
      let k := refusals.length
      let r := l.call c blank chances answers
      ((∀ i ≤ k, ∀ s, l.sleepAt? t answers i = some s → s.cut? c.cancelAt = none) →
        l.Completes c t answers k last r) ∧
      ∀ moment s, ∀ j ≤ k, c.cancelAt = some moment → l.sleepAt? t answers j = some s →
        0 < s.span.nanos → moment < s.start.after s.span →
        ∃ i ≤ j, l.CutShort c t answers k i r) ∧
    (∀ (c : PacedCall ρ) answers text,
      (l.call c blank chances answers).result ≠ .error (.rateExceeded text)) ∧
    ∀ (calls : List (PacedCall ρ)) answers,
      List.Forall₂
        (fun c r => ∃ drawn left, left <:+ answers ∧ r = l.call c blank drawn left ∧
          r.waits = (List.range r.limited).map fun i =>
            l.draw (drawn + i) (l.pacing.interval i))
        calls (l.series blank chances answers calls) := by
  refine ⟨fun c refusals last rest refused settled => ⟨completes_of_uncut refused settled, ?_⟩,
    fun c answers text => search_ne_refusal text, fun calls answers =>
      (series_calls blank chances answers calls).imp ?_⟩
  · intro moment s j hj cancel sleeps positive early
    exact cutShort_of_cancelled refused settled hj cancel sleeps positive early
  · rintro c r ⟨drawn, left, later, rfl⟩
    exact ⟨drawn, left, later, rfl, call_waits⟩

/-- A limiter whose pauses are as long as their intervals. -/
def steady : Limiter :=
  ⟨⟨.ofMillis 200, .ofMillis 100, .ofMillis 1000⟩, fun _ interval => interval, fun _ => false⟩

def tooMany : Answered String := ⟨.error (.rateExceeded "slow down"), .ofMillis 10⟩

def onePage : Answered String := ⟨.ok "page", .ofMillis 5⟩

/-- Two refusals are hidden, unless cancellation comes in the second pause. -/
theorem refusals_are_hidden_steady :
    (let r := steady.call ⟨"logs", ⟨0⟩, none⟩ "" 0 [tooMany, tooMany, onePage];
      r.result = .ok "page" ∧ r.requests = 3 ∧ r.limited = 2 ∧ r.stop = .ofMillis 520 ∧
        r.asked = [(⟨0⟩, "logs"), (.ofMillis 110, "logs"), (.ofMillis 320, "logs")]) ∧
    ∃ i ≤ 1, steady.CutShort ⟨"logs", ⟨0⟩, some (.ofMillis 150)⟩ (steady.fresh ⟨0⟩ 0)
      [tooMany, tooMany, onePage] 2 i
      (steady.call ⟨"logs", ⟨0⟩, some (.ofMillis 150)⟩ "" 0 [tooMany, tooMany, onePage]) := by
  have refused : ∀ a ∈ [tooMany, tooMany], a.IsRefusal := by
    intro a ha
    obtain rfl : a = tooMany := by simpa using ha
    exact ⟨_, rfl⟩
  have settled : ¬ onePage.IsRefusal := by
    rintro ⟨text, h⟩
    cases h
  obtain ⟨hidden, -, -⟩ := refusals_are_hidden (ρ := String) steady "" 0
  obtain ⟨full, -⟩ := hidden ⟨"logs", ⟨0⟩, none⟩ [tooMany, tooMany] onePage [] refused settled
  have done := full fun _ _ _ _ => rfl
  obtain ⟨-, short⟩ :=
    hidden ⟨"logs", ⟨0⟩, some (.ofMillis 150)⟩ [tooMany, tooMany] onePage [] refused settled
  refine ⟨⟨done.result, done.requests, done.limited, done.stop, done.asked⟩, ?_⟩
  exact short _ ⟨.ofMillis 120, .ofMillis 200, false⟩ 1 (by decide) rfl rfl (by decide) (by decide)

end Limiter

end LogExport
