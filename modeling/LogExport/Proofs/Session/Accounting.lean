import LogExport.Proofs.Session.Lifecycle

/-! What a session says about its parts is what its callers were told. A part
counts as uploaded exactly if a confirmation of it worked out, which happens
once at most, and the totals add up the sizes of these confirmations. -/

namespace LogExport

/-- The part and the size that an answered call has confirmed. -/
def confirmation? (id : String) : StoreCall × StoreAnswer → Option (Nat × Sizes)
  | (.confirm i part size, .ok ()) => if i = id then some (part, size) else none
  | _ => none

/-- The confirmations of a session that worked out, latest first. -/
def confirmations (id : String) (log : List (StoreCall × StoreAnswer)) : List (Nat × Sizes) :=
  log.filterMap (confirmation? id)

theorem confirmation?_eq_some {id : String} {x : StoreCall × StoreAnswer} {part : Nat}
    {size : Sizes} :
    confirmation? id x = some (part, size) ↔ x = (.confirm id part size, .ok ()) := by
  unfold confirmation?
  split
  · next i p z =>
    split_ifs with hi
    · simp [hi]
    · simp [hi]
  · next other =>
    constructor
    · intro h
      cases h
    · intro hx
      exact absurd hx (other id part size)

theorem mem_confirmations {id : String} {log : List (StoreCall × StoreAnswer)} {part : Nat}
    {size : Sizes} :
    (part, size) ∈ confirmations id log ↔ (.confirm id part size, .ok ()) ∈ log := by
  simp only [confirmations, List.mem_filterMap, confirmation?_eq_some, exists_eq_right]

/-- The sum of all sizes, without the limit of a word. -/
def Sizes.sum (cs : List (Nat × Sizes)) : Sizes :=
  ⟨(cs.map (·.2.unpacked)).sum, (cs.map (·.2.packed)).sum⟩

/-- A session tells of the confirmations `cs`. -/
structure Session.Tells (s : Session) (parts : Nat) (cs : List (Nat × Sizes)) : Prop where
  partCount : s.partCount = parts
  uploaded : ∀ part, s.uploaded[part]? = some true ↔ part ∈ cs.map Prod.fst
  once : (cs.map Prod.fst).Nodup
  unpacked : s.total.unpacked = (Sizes.sum cs).unpacked % Sizes.wordCount
  packed : s.total.packed = (Sizes.sum cs).packed % Sizes.wordCount
  count : s.uploadedCount = cs.length

namespace Session

/-- A session that has just begun tells of none. -/
theorem tells_nil {s : Session} (blank : ∀ flag ∈ s.uploaded, flag = false)
    (zero : s.total = .zero) : s.Tells s.partCount [] where
  partCount := rfl
  uploaded part := by
    simp only [List.map_nil, List.not_mem_nil, iff_false]
    exact fun h => Bool.noConfusion (blank true (List.mem_of_getElem? h))
  once := List.nodup_nil
  unpacked := by rw [zero]; rfl
  packed := by rw [zero]; rfl
  count := List.count_eq_zero.2 fun h => Bool.noConfusion (blank true h)

/-- A confirmation of a missing part is told of as well. -/
theorem Tells.confirm {s : Session} {parts : Nat} {cs : List (Nat × Sizes)} (h : s.Tells parts cs)
    {part : Nat} (missing : s.uploaded[part]? = some false) (size : Sizes) :
    (s.confirm part size).Tells parts ((part, size) :: cs) := by
  obtain ⟨hlt, hget⟩ := List.getElem?_eq_some_iff.1 missing
  have fresh : part ∉ cs.map Prod.fst := by
    rw [← h.uploaded, missing]
    exact fun h => by cases h
  exact
    { partCount := (s.partCount_confirm part size).trans h.partCount
      uploaded := fun i => by
        simp only [Session.confirm, List.getElem?_set, List.map_cons, List.mem_cons]
        by_cases hi : part = i
        · subst hi
          simp [hlt]
        · simp only [hi, if_false, h.uploaded, Ne.symm hi, false_or]
      once := by
        rw [List.map_cons]
        exact List.nodup_cons.2 ⟨fresh, h.once⟩
      unpacked := by
        simp only [Session.confirm, Sizes.unpacked_add, Sizes.sum, List.map_cons, List.sum_cons,
          h.unpacked]
        rw [Nat.mod_add_mod, Nat.add_comm]
      packed := by
        simp only [Session.confirm, Sizes.packed_add, Sizes.sum, List.map_cons, List.sum_cons,
          h.packed]
        rw [Nat.mod_add_mod, Nat.add_comm]
      count := by
        have := h.count
        simp only [uploadedCount, Session.confirm, List.count_set hlt, hget,
          List.length_cons] at this ⊢
        simpa using this }

end Session

/-- The session of an id tells of its confirmations. -/
def Shelf.Tells (v : Shelf) (id : String) (parts : Nat) (cs : List (Nat × Sizes)) : Prop :=
  ∃ s, v.session id = some s ∧ s.Tells parts cs

/-- Serving a call keeps what is told up to date. -/
theorem Shelf.Served.tells {v v' : Shelf} {now : Instant} {c : StoreCall} {a : StoreAnswer}
    {id : String} {parts : Nat} {log : List (StoreCall × StoreAnswer)} (h : v.Served now c a v')
    (tells : v.Tells id parts (confirmations id log))
    (once : ∀ t, c = .start t → a = .ok () → t.id ≠ id) :
    v'.Tells id parts (confirmations id ((c, a) :: log)) := by
  obtain ⟨s, found, told⟩ := tells
  have other {c : StoreCall} {a : StoreAnswer} (h : confirmation? id (c, a) = none) :
      confirmations id ((c, a) :: log) = confirmations id log := List.filterMap_cons_none h
  cases h with
  | @refused c e =>
    rw [other (by cases c <;> rfl)]
    exact ⟨s, found, told⟩
  | @late c =>
    rw [other (by cases c <;> rfl)]
    exact ⟨s, found, told⟩
  | started =>
    rw [other rfl]
    exact ⟨s, (Function.update_of_ne (once _ rfl rfl).symm _ _).trans found, told⟩
  | @ended c i status error t ends found' running =>
    rw [other (by cases c <;> first | rfl | cases ends)]
    by_cases hi : i = id
    · subst hi
      rw [found] at found'
      cases found'
      exact ⟨_, Function.update_self .., { told with }⟩
    · exact ⟨s, (Function.update_of_ne (Ne.symm hi) _ _).trans found, told⟩
  | @confirmed i part size t found' missing =>
    by_cases hi : i = id
    · subst hi
      rw [found] at found'
      cases found'
      have told' := told.confirm missing size
      rw [show confirmations i ((.confirm i part size, .ok ()) :: log) =
        (part, size) :: confirmations i log from
          List.filterMap_cons_some (by simp only [confirmation?, if_true])]
      exact ⟨_, Function.update_self .., told'⟩
    · rw [other (by simp only [confirmation?, hi, if_false])]
      exact ⟨s, (Function.update_of_ne (Ne.symm hi) _ _).trans found, told⟩
  | locked =>
    rw [other rfl]
    exact ⟨s, found, told⟩
  | restored =>
    rw [other rfl]
    exact ⟨s, found, told⟩
  | unlocked =>
    rw [other rfl]
    exact ⟨s, found, told⟩

theorem length_confirmations_le (id : String) (x : StoreCall × StoreAnswer)
    (log : List (StoreCall × StoreAnswer)) :
    (confirmations id log).length ≤ (confirmations id (x :: log)).length := by
  unfold confirmations
  rw [List.filterMap_cons]
  split
  · exact le_rfl
  · exact Nat.le_succ _

namespace Desk

/-- Starts of sessions that can be stored, and any other call. -/
def anyCall : Records → StoreCall → Prop := fun _ c => c.Storable

/-- The session of an id is not started again. -/
def NotRestarted (id : String) (log : List (StoreCall × StoreAnswer)) : Prop :=
  ∀ t, (.start t, .ok ()) ∈ log → t.id ≠ id

variable {r₀ : Records} {d : Desk} {s₀ : Session} {since before : List (StoreCall × StoreAnswer)}

/-- Since its start, a session tells of its confirmations. -/
theorem Reaches.tells (filed : r₀.Filed) (run : Reaches anyCall ⟨r₀, none, []⟩ d)
    (started : d.log = since ++ (.start s₀, .ok ()) :: before) (once : NotRestarted s₀.id since)
    (blank : ∀ flag ∈ s₀.uploaded, flag = false) (zero : s₀.total = .zero) :
    d.records.shelf.Tells s₀.id s₀.partCount (confirmations s₀.id since) := by
  have storable (r : Records) (c : StoreCall) (h : anyCall r c) : c.Storable := h
  refine run.induct_since (P := fun since r => NotRestarted s₀.id since →
    r.shelf.Tells s₀.id s₀.partCount (confirmations s₀.id since)) storable filed started ?_ ?_ once
  · intro r now hf admitted clock ok _
    have served := (KeyMap.serves hf (storable r _ admitted) clock).2
    rw [ok] at served
    obtain ⟨-, hv⟩ := served.of_started
    rw [hv]
    exact ⟨s₀.stored, Function.update_self .., Session.tells_nil (s := s₀.stored) blank zero⟩
  · intro log r now c ih hf admitted clock once
    have served := (KeyMap.serves hf (storable r c admitted) clock).2
    refine served.tells (ih fun t ht => once t (List.mem_cons_of_mem _ ht)) fun t ht ok => ?_
    rw [ht] at ok once
    exact once t (by rw [ok]; exact List.mem_cons_self)

/-- At any time after the start of a session with all parts missing, which is
not started again, and while the sizes fit into words,
(a) a part counts as uploaded exactly if a confirmation of it worked out;
(b) no part was confirmed twice;
(c) the totals are the sums of the sizes that were confirmed;
(d) the next step does not lower the number of uploaded parts, and a
confirmation that it answers works out exactly if there is such a part and it
is still missing. -/
theorem confirms_once (filed : r₀.Filed) (run : Reaches anyCall ⟨r₀, none, []⟩ d)
    (started : d.log = since ++ (.start s₀, .ok ()) :: before) (once : NotRestarted s₀.id since)
    (blank : ∀ flag ∈ s₀.uploaded, flag = false) (zero : s₀.total = .zero)
    (unpacked : (Sizes.sum (confirmations s₀.id since)).unpacked < Sizes.wordCount)
    (packed : (Sizes.sum (confirmations s₀.id since)).packed < Sizes.wordCount) :
    ∃ s, d.records.shelf.session s₀.id = some s ∧ s.partCount = s₀.partCount ∧
      (∀ part, s.uploaded[part]? = some true ↔
        ∃ size, (.confirm s₀.id part size, .ok ()) ∈ since) ∧
      ((confirmations s₀.id since).map Prod.fst).Nodup ∧
      s.total = Sizes.sum (confirmations s₀.id since) ∧
      ∀ d', Step anyCall d d' → (∀ t, d'.log = (.start t, .ok ()) :: d.log → t.id ≠ s₀.id) →
        ∃ s', d'.records.shelf.session s₀.id = some s' ∧ s.uploadedCount ≤ s'.uploadedCount ∧
          ∀ part size a, d'.log = (.confirm s₀.id part size, a) :: d.log →
            (a = .ok () ↔ ∃ h : part < s.uploaded.length, s.uploaded[part] = false) := by
  obtain ⟨s, found, told⟩ := run.tells filed started once blank zero
  refine ⟨s, found, told.partCount, fun part => ?_, told.once, ?_, fun d' step again => ?_⟩
  · rw [told.uploaded, List.mem_map]
    simp only [Prod.exists, exists_and_right, exists_eq_right, mem_confirmations]
  · have hu := told.unpacked
    have hp := told.packed
    rw [Nat.mod_eq_of_lt unpacked] at hu
    rw [Nat.mod_eq_of_lt packed] at hp
    cases ht : s.total
    rw [ht] at hu hp
    exact congrArg₂ Sizes.mk hu hp
  obtain ⟨hf, turn⟩ := run.inTurn (fun _ _ h => h) filed
  rcases step.cases hf turn with ⟨hlog, hrec⟩ | ⟨c, now, -, -, hlog, hrec⟩
  · refine ⟨s, hrec ▸ found, le_rfl, fun part size a h => ?_⟩
    exact absurd (hlog.symm.trans h) (List.cons_ne_self _ _).symm
  have once' : NotRestarted s₀.id ((c, (d.records.serve now c).1) :: since) := by
    intro t ht
    rcases List.mem_cons.1 ht with hx | ht
    · exact again t (by rw [hlog, hx])
    · exact once t ht
  obtain ⟨s', found', told'⟩ := Reaches.tells filed (run.tail step)
    (hlog.trans (congrArg _ started)) once' blank zero
  refine ⟨s', found', ?_, fun part size a hlog' => ?_⟩
  · rw [told.count, told'.count]
    exact length_confirmations_le _ _ _
  · obtain ⟨hx, -⟩ := List.cons.inj (hlog.symm.trans hlog')
    obtain ⟨rfl, rfl⟩ := Prod.mk.inj hx
    rw [KeyMap.serve_confirm_iff found, List.getElem?_eq_some_iff]

/-- The only part of the sample is confirmed, and is not confirmed again. -/
theorem confirms_once_audit :
    ∃ (s₀ : Session) (d : Desk) (s : Session), Reaches anyCall ⟨.empty, none, []⟩ d ∧
      d.log = [(.confirm s₀.id 0 ⟨7, 5⟩, .ok ()), (.start s₀, .ok ())] ∧
      d.records.shelf.session s₀.id = some s ∧ s.uploaded[0]? = some true ∧ s.total = ⟨7, 5⟩ ∧
      ∀ d' size a, Step anyCall d d' → d'.log = (.confirm s₀.id 0 size, a) :: d.log →
        a ≠ .ok () := by
  obtain ⟨s₀, built, -, flags, zero⟩ := built_audit
  have clock : Engine.newYear.Valid := by decide
  have start : (StoreCall.start s₀).Storable := fun _ h => by cases h; exact built.storable
  have blank : ∀ flag ∈ s₀.uploaded, flag = false := by rw [flags]; decide
  obtain ⟨filed, served⟩ := KeyMap.serves filed_empty start clock
  obtain ⟨-, shelf⟩ := served.of_started
  have started : Reaches anyCall ⟨.empty, none, []⟩ ⟨_, none, [(.start s₀, .ok ())]⟩ :=
    reaches_serve filed_empty start clock
  have ok : (KeyMap.serve (KeyMap.serve .empty Engine.newYear (.start s₀)).2 Engine.newYear
      (.confirm s₀.id 0 ⟨7, 5⟩)).1 = .ok () := by
    refine (KeyMap.serve_confirm_iff (s := s₀.stored) ?_).2 ?_
    · rw [shelf]
      exact Function.update_self ..
    · show s₀.uploaded[0]? = some false
      rw [flags]
      rfl
  have confirmed : Reaches anyCall ⟨_, none, [(.start s₀, .ok ())]⟩ ⟨_, none, (_, _) :: _⟩ :=
    reaches_serve filed (c := .confirm s₀.id 0 ⟨7, 5⟩) (fun _ h => by cases h) clock
  rw [ok] at confirmed
  have told : confirmations s₀.id [(.confirm s₀.id 0 ⟨7, 5⟩, .ok ())] = [(0, ⟨7, 5⟩)] := by
    simp [confirmations, confirmation?]
  have rest : [(.confirm s₀.id 0 ⟨7, 5⟩, .ok ()), (.start s₀, .ok ())] =
      [((.confirm s₀.id 0 ⟨7, 5⟩, .ok ()) : StoreCall × StoreAnswer)] ++
        (.start s₀, .ok ()) :: [] := rfl
  obtain ⟨s, found, -, uploaded, -, total, next⟩ :=
    confirms_once filed_empty (started.trans confirmed) rest
      (fun t ht => by cases List.mem_singleton.1 ht) blank zero
      (by rw [told]; decide) (by rw [told]; decide)
  have set : s.uploaded[0]? = some true := (uploaded 0).2 ⟨_, List.mem_singleton.2 rfl⟩
  refine ⟨s₀, _, s, started.trans confirmed, rfl, found, set, ?_, fun d' size a step hlog => ?_⟩
  · rw [total, told]
    rfl
  · obtain ⟨s', -, -, answered⟩ := next d' step fun t h => by cases hlog.symm.trans h
    rw [Ne, answered 0 size a hlog]
    rintro ⟨hlt, hget⟩
    rw [List.getElem?_eq_getElem hlt, hget] at set
    cases set

end Desk

end LogExport
