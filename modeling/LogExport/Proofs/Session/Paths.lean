import LogExport.Proofs.Files.Keys
import LogExport.Proofs.Partition.Count
import LogExport.Proofs.Session.Names
import LogExport.Session.Task

/-! The files of an export do not overwrite each other. The bounds of its parts
are whole seconds, which the names of the files tell in full. -/

namespace LogExport

/-! ### Written bounds -/

namespace WallClock

theorem two_inj {m n : Nat} (h : (two m).toList = (two n).toList) : m = n := by
  rw [← Digits.number_padded 2 m, ← Digits.number_padded 2 n]
  exact congrArg Digits.number h

theorem length_two {n : Nat} (h : n < 100) : (two n).toList.length = 2 :=
  Digits.length_padded (by decide) h

theorem yearText_inj {y z : Int} (h : (yearText y).toList = (yearText z).toList) : y = z := by
  have hy := Stamp.readYear_yearText y Digits.ended_nil
  rw [h, Stamp.readYear_yearText z Digits.ended_nil] at hy
  cases hy
  rfl

theorem mem_yearText {y : Int} {c : Char} (h : c ∈ (yearText y).toList) :
    Digits.isDigit c = true ∨ c = '-' ∨ c = '+' := by
  unfold yearText at h
  split at h
  · exact .inl (Digits.isDigit_of_mem_padded c h)
  · rw [String.toList_append, List.mem_append] at h
    rcases h with h | h
    · split at h <;> simp at h <;> simp [h]
    · exact .inl (Digits.isDigit_of_mem_padded c h)

/-- A time of a date, as clocks show it. -/
structure Shows (w : WallClock) : Prop where
  date : w.date.isValid = true
  hour : w.hour < 24
  minute : w.minute < 60
  second : w.second ≤ 60

/-- Date and time tell the moment to the second. -/
theorem compact_inj {w v : WallClock} (hw : w.Shows) (hv : v.Shows) (h : w.compact = v.compact) :
    w.date = v.date ∧ w.hour = v.hour ∧ w.minute = v.minute ∧ w.second = v.second := by
  have small {u : WallClock} (hu : u.Shows) : u.date.month < 100 ∧ u.date.day < 100 := by
    have hd := hu.date
    simp only [Date.isValid, decide_eq_true_eq] at hd
    have : Date.daysInMonth u.date.year u.date.month ≤ 31 := by
      unfold Date.daysInMonth
      split_ifs <;> omega
    omega
  have width {m n : Nat} (hm : m < 100) (hn : n < 100) :
      (two m).toList.length = (two n).toList.length := by
    rw [length_two hm, length_two hn]
  have hl := congrArg String.toList h
  simp only [compact, String.toList_append] at hl
  have hws := hw.second
  have hvs := hv.second
  have hwm := hw.minute
  have hvm := hv.minute
  have hwh := hw.hour
  have hvh := hv.hour
  obtain ⟨hwmonth, hwday⟩ := small hw
  obtain ⟨hvmonth, hvday⟩ := small hv
  -- All fields but the year have two digits, so the text is cut from its end.
  obtain ⟨hl, -⟩ := List.append_inj' hl rfl
  obtain ⟨hl, second⟩ := List.append_inj' hl (width (by omega) (by omega))
  obtain ⟨hl, minute⟩ := List.append_inj' hl (width (by omega) (by omega))
  obtain ⟨hl, hour⟩ := List.append_inj' hl (width (by omega) (by omega))
  obtain ⟨hl, -⟩ := List.append_inj' hl rfl
  obtain ⟨hl, day⟩ := List.append_inj' hl (width hwday hvday)
  obtain ⟨year, month⟩ := List.append_inj' hl (width hwmonth hvmonth)
  refine ⟨?_, two_inj hour, two_inj minute, two_inj second⟩
  have hdate :=
    Date.mk.injEq w.date.year w.date.month w.date.day v.date.year v.date.month v.date.day
  exact hdate.symm ▸ ⟨yearText_inj year, two_inj month, two_inj day⟩

end WallClock

namespace Instant

/-- A whole second that is not written as another one. -/
structure IsExact (t : Instant) : Prop where
  whole : t.IsWhole
  kept : t.reread = t

theorem shows_wallClock {t : Instant} (h : t.nano < 2000000000) : t.wallClock.Shows := by
  have hs : t.secondOfDay.toNat < 86400 := by
    have : t.secondOfDay = t.sec % 86400 := rfl
    omega
  exact
    { date := Date.isValid_ofDays _
      hour := by show t.secondOfDay.toNat / 3600 < 24; omega
      minute := by show t.secondOfDay.toNat / 60 % 60 < 60; omega
      second := by show t.secondOfDay.toNat % 60 + t.nano / 1000000000 ≤ 60; omega }

/-- Whole seconds with the same text are the same. -/
theorem compact_inj {t u : Instant} (ht : t.IsExact) (hu : u.IsExact) (h : t.compact = u.compact) :
    t = u := by
  have second_begins {t : Instant} (ht : t.IsExact) : t.wallClock.nano = 0 := by
    rcases ht.whole with h | h <;> exact congrArg (· % 1000000000) h
  obtain ⟨date, hour, minute, second⟩ :=
    WallClock.compact_inj (shows_wallClock ht.whole.nano_lt) (shows_wallClock hu.whole.nano_lt) h
  have clock : t.wallClock = u.wallClock := by
    cases hw : t.wallClock
    cases hv : u.wallClock
    have hnt := second_begins ht
    have hnu := second_begins hu
    simp_all
  rw [← ht.kept, ← hu.kept, ← ofWallClock_wallClock ht.whole.nano_lt,
    ← ofWallClock_wallClock hu.whole.nano_lt, clock]

theorem mem_compact {t : Instant} {c : Char} (h : c ∈ t.compact.toList) :
    Digits.isDigit c = true ∨ c ∈ ['-', '+', 'T', 'Z'] := by
  have two {n : Nat} (h : c ∈ (WallClock.two n).toList) :
      Digits.isDigit c = true ∨ c ∈ ['-', '+', 'T', 'Z'] :=
    .inl (Digits.isDigit_of_mem_padded c h)
  simp only [compact, WallClock.compact, String.toList_append, List.mem_append,
    show "T".toList = ['T'] from rfl, show "Z".toList = ['Z'] from rfl, List.mem_singleton] at h
  rcases h with ((((((h | h) | h) | rfl) | h) | h) | h) | rfl
  · exact (WallClock.mem_yearText h).imp_right fun h => by rcases h with rfl | rfl <;> decide
  · exact two h
  · exact two h
  · exact .inr (by decide)
  · exact two h
  · exact two h
  · exact two h
  · exact .inr (by decide)

theorem notMem_compact (t : Instant) : '/' ∉ t.compact.toList ∧ '_' ∉ t.compact.toList := by
  constructor
  all_goals
    intro h
    rcases mem_compact h with h | h
    · cases h
    · exact absurd h (by decide)

/-- A leap second is written as the second after it. -/
theorem isExact_reread {t : Instant} (h : t.IsWhole) : t.reread.IsExact := by
  rcases reread_eq_or h with kept | ⟨-, next⟩
  · rw [kept]
    exact ⟨h, kept⟩
  · rw [next]
    refine ⟨.inl rfl, if_neg ?_⟩
    rw [isLeap_iff]
    dsimp only
    omega

/-- A whole number of seconds before a whole second is second zero to fifty-nine. -/
theorem isExact_shifted {t : Instant} {step : Int} (ht : t.IsWhole) (hs : 0 < step)
    (hm : step % 1000000000 = 0) : (t.shifted (-step)).IsExact := by
  have whole : (t.shifted (-step)).IsWhole :=
    isWhole_shifted ht.nano_lt (by unfold IsWhole at ht; omega)
  have early : (t.shifted (-step)).nano < 1000000000 := by
    have hc : perSecond = 1000000000 := rfl
    have hd := Int.mul_tdiv_add_tmod (-step) perSecond
    have := @seconds_of_nonpos (-step) (by omega)
    unfold shifted
    dsimp only
    rw [hc] at hd this ⊢
    split_ifs
    · exact nano_ofNanos_lt _
    · exact nano_ofNanos_lt _
    · omega
    · exact nano_ofNanos_lt _
  refine ⟨whole, ?_⟩
  rw [reread, if_neg]
  rw [isLeap_iff]
  omega

theorem IsExact.later {t u : Instant} (ht : t.IsExact) (hu : u.IsExact) :
    (t.later u).IsExact := by
  unfold Instant.later
  split
  · exact hu
  · exact ht

end Instant

/-! ### Parts -/

theorem exact_of_cuts? {start upper : Instant} {step : Int} {n index : Nat} {ps : List Partition}
    (hs : 0 < step) (hm : step % 1000000000 = 0) (ha : start.IsExact) (hu : upper.IsExact)
    (h : cuts? start step n index upper = some ps) :
    ∀ p ∈ ps, p.start.IsExact ∧ p.stop.IsExact := by
  induction n generalizing index upper ps with
  | zero =>
    cases h
    intro p hp
    cases hp
  | succ n ih =>
    obtain ⟨rest, rfl, -, hrest⟩ := cuts?_succ h
    have lower := (Instant.isExact_shifted hu.whole hs hm).later ha
    intro p hp
    rcases List.mem_cons.1 hp with rfl | hp
    · exact ⟨lower, hu⟩
    · exact ih lower hrest p hp

namespace Session

/-- Bounds and length of parts are whole seconds. -/
structure Aligned (s : Session) : Prop where
  start : s.start.IsExact
  stop : s.stop.IsExact
  length : s.partLength.step % 1000000000 = 0

variable {s : Session} {ps : List Partition}

theorem Aligned.exact_parts (h : s.Aligned) (parts : s.parts? = some ps) :
    ∀ p ∈ ps, p.start.IsExact ∧ p.stop.IsExact := by
  obtain ⟨n, hn, hc⟩ := Option.bind_eq_some_iff.1 parts
  cases n with
  | zero =>
    cases hc
    intro p hp
    cases hp
  | succ n => exact exact_of_cuts? (step_pos_of_partitionCount? hn) h.length h.start h.stop hc

theorem manifestPathUnder_eq (root : String) :
    manifestPathUnder root = root ++ "/" ++ String.ofList "manifest.txt".toList := by
  apply String.toList_injective
  simp [manifestPathUnder, String.toList_append]

theorem isName_manifest : ObjectPath.IsName "manifest.txt".toList := ⟨by decide, by decide⟩

end Session

namespace Partition

/-- The name of a part's file. -/
def fileName (p : Partition) : List Char :=
  p.start.compact.toList ++ '_' :: (p.stop.compact.toList ++ ".jsonl.gz".toList)

theorem pathUnder_eq (root : String) (p : Partition) :
    p.pathUnder root = root ++ "/" ++ String.ofList p.fileName := by
  apply String.toList_injective
  simp [pathUnder, fileName, String.toList_append]

theorem isName_fileName (p : Partition) : ObjectPath.IsName p.fileName := by
  refine ⟨?_, ?_⟩
  · simp [fileName, Instant.notMem_compact]
  · simp [fileName]
    omega

/-- The name of a part's file tells its bounds. -/
theorem bounds_of_fileName_eq {p q : Partition} (hp : p.start.IsExact ∧ p.stop.IsExact)
    (hq : q.start.IsExact ∧ q.stop.IsExact) (h : p.fileName = q.fileName) :
    p.start = q.start ∧ p.stop = q.stop := by
  obtain ⟨start, stop⟩ :=
    append_cons_inj p.start.notMem_compact.2 q.start.notMem_compact.2 h
  exact ⟨Instant.compact_inj hp.1 hq.1 (String.toList_injective start),
    Instant.compact_inj hp.2 hq.2 (String.toList_injective (List.append_cancel_right stop))⟩

/-- Two parts whose files are the same object have the same bounds. -/
theorem bounds_of_keyOf_eq {root : String} {p q : Partition}
    (hp : p.start.IsExact ∧ p.stop.IsExact) (hq : q.start.IsExact ∧ q.stop.IsExact)
    (h : Files.keyOf (p.pathUnder root) = Files.keyOf (q.pathUnder root)) :
    p.start = q.start ∧ p.stop = q.stop := by
  rw [pathUnder_eq, pathUnder_eq] at h
  exact bounds_of_fileName_eq hp hq (Files.keyOf_under_inj p.isName_fileName q.isName_fileName h)

/-- Root and bounds can be read off the path of a part. -/
theorem pathUnder_inj {a b : String} {p q : Partition} (hp : p.start.IsExact ∧ p.stop.IsExact)
    (hq : q.start.IsExact ∧ q.stop.IsExact) (h : p.pathUnder a = q.pathUnder b) :
    a = b ∧ p.start = q.start ∧ p.stop = q.stop := by
  rw [pathUnder_eq, pathUnder_eq] at h
  have hl := congrArg String.toList h
  simp only [String.toList_append, List.append_assoc, String.toList_ofList,
    show "/".toList = ['/'] from rfl, List.singleton_append] at hl
  -- The root may hold slashes, and the name of the file holds none.
  obtain ⟨root, name⟩ := append_cons_inj_right p.isName_fileName.1 q.isName_fileName.1 hl
  exact ⟨String.toList_injective root, bounds_of_fileName_eq hp hq name⟩

/-- The file of a part is not stored in place of the list of links. -/
theorem keyOf_ne_manifest (root : String) (p : Partition) :
    Files.keyOf (p.pathUnder root) ≠ Files.keyOf (Session.manifestPathUnder root) := by
  intro h
  rw [pathUnder_eq, Session.manifestPathUnder_eq] at h
  have name := Files.keyOf_under_inj p.isName_fileName Session.isName_manifest h
  have last := congrArg (fun s => s.reverse.head?) name
  simp [fileName] at last

end Partition

end LogExport
