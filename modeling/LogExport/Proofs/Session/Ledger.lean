import Mathlib.Algebra.BigOperators.Group.Finset.Basic
import LogExport.Proofs.Pipeline.Ownership
import LogExport.Proofs.Search.Archive
import LogExport.Proofs.Session.Lifecycle

/-! The books of an export. A part that counts as uploaded has its file, and the
total is the size of these files. Beside the files of its parts and the list of
links an export stores nothing, so its end tells all there is. -/

namespace LogExport

namespace Session

variable {s s' : Session}

/-- The task of a part is known by its number. -/
theorem Owns.eq_of_part {t u : Task} (ht : s.Owns t) (hu : s.Owns u) (h : t.part = u.part) :
    t = u := by
  obtain ⟨ps, p, laidOut, hp, rfl⟩ := ht
  obtain ⟨ps', q, laidOut', hq, rfl⟩ := hu
  cases laidOut.unique laidOut'
  obtain ⟨i, hi⟩ := List.getElem?_of_mem hp
  obtain ⟨j, hj⟩ := List.getElem?_of_mem hq
  have hij : p.index = q.index := h
  rw [index_of_partitions? laidOut.parts hi, index_of_partitions? laidOut.parts hj] at hij
  rw [hij, hj] at hi
  cases hi
  rfl

/-- All tasks of the session can be laid out, and searched. -/
def Searchable (s : Session) : Prop :=
  ∃ ps, s.LaidOut ps ∧ ∀ p ∈ ps, (s.taskOf p).Searchable

theorem Grown.searchable_iff (g : s.Grown s') : s'.Searchable ↔ s.Searchable := by
  simp only [Searchable, g.laidOut_iff, g.taskOf]

theorem Aligned.congr (h : s.Aligned) (same : s'.SameRequest s) : s'.Aligned where
  start := same.start ▸ h.start
  stop := same.stop ▸ h.stop
  length := same.partLength ▸ h.length

/-- Nothing is missing from what has grown to a full session. -/
theorem SameRequest.grown (h : s'.SameRequest s) (full : s'.Full) : s.Grown s' where
  id := h.id
  query := h.query
  start := h.start
  stop := h.stop
  window := h.window
  partLength := h.partLength
  pathRoot := h.pathRoot
  partCount := h.partCount
  flags i hi := by
    obtain ⟨hlt, -⟩ := List.getElem?_eq_some_iff.1 hi
    have hlt' : i < s'.uploaded.length := Nat.lt_of_lt_of_eq hlt h.partCount.symm
    rw [List.getElem?_eq_getElem hlt', full _ (List.getElem_mem hlt')]

/-- The session has its own directory. -/
def Rooted (s : Session) : Prop := s.pathRoot = "exports/" ++ s.id

theorem Rooted.isPartPath {t : Task} (h : s.Rooted) (owns : s.Owns t) : IsPartPath s.id t.path := by
  obtain ⟨ps, p, -, -, rfl⟩ := owns
  exact ⟨p, congrArg (fun root => Partition.pathUnder root p) h⟩

theorem Rooted.isOutputPath_manifest (h : s.Rooted) : IsOutputPath s.id s.manifestPath :=
  .inr (congrArg manifestPathUnder h)

end Session

namespace Files

/-- Nothing has been done to the files of the session stored under `id`. -/
structure Alike (id : String) (f f' : Files) : Prop where
  objects : ∀ path, IsOutputPath id path → f'.object? path = f.object? path
  linkBase : f'.linkBase = f.linkBase
  coder : f'.coder = f.coder

variable {f f' : Files} {id i path : String} {c : Content}

theorem Alike.refl (id : String) (f : Files) : f.Alike id f := ⟨fun _ _ => rfl, rfl, rfl⟩

theorem Alike.trans {f'' : Files} (h : f.Alike id f') (g : f'.Alike id f'') : f.Alike id f'' where
  objects path output := (g.objects path output).trans (h.objects path output)
  linkBase := g.linkBase.trans h.linkBase
  coder := g.coder.trans h.coder

/-- The files of another session may be stored. -/
theorem alike_put (apart : RootsApart i id) (output : IsOutputPath i path) :
    f.Alike id (f.put path c) where
  objects path' output' := by
    rw [object?_put, if_neg (apart.keyOf_ne output output')]
  linkBase := rfl
  coder := rfl

theorem alike_filesAfter {deed : Option Deed} (apart : RootsApart i id)
    (own : ∀ d ∈ deed, d.Belongs i) : f.Alike id (Engine.filesAfter f deed) := by
  cases deed with
  | none => exact .refl id f
  | some d =>
    cases d with
    | page => exact .refl id f
    | put path c => exact alike_put apart (own _ rfl)

/-- The lines in the packed object at a path. -/
def lines? (f : Files) (path : String) : Option Bytes :=
  (f.object? path).bind fun c => f.coder.unpack? c.bytes

end Files

namespace Archive

variable {a : Archive} {base files files' : Files} {s s' : Session} {t u : Task}
  {path path' : String} {c c' : Content}

theorem content_congr {coder : Gzip.Coder} (query : t.query = u.query) (start : t.start = u.start)
    (stop : t.stop = u.stop) (window : t.window = u.window) :
    a.content coder t = a.content coder u := by
  have events : a.inWindow t = a.inWindow u := by
    funext w
    simp only [inWindow, query]
  simp only [content, lines, found, start, stop, window, events]

/-- The files that an export stores. -/
inductive Yields (a : Archive) (base : Files) (s : Session) : String → Content → Prop
  | part {t : Task} (owns : s.Owns t) : Yields a base s t.path (a.content base.coder t)
  | manifest {ps : List Partition} (laidOut : s.LaidOut ps) :
    Yields a base s s.manifestPath
      (.ofBytes (Utf8.encode (linkList base.linkBase s.pathRoot ps)))

theorem Yields.grown (g : s.Grown s') (h : a.Yields base s path c) : a.Yields base s' path c := by
  cases h with
  | part owns => exact .part (g.owns owns)
  | manifest laidOut =>
    have list : a.Yields base s' _ _ := .manifest (g.laidOut laidOut)
    rwa [Session.manifestPath, g.pathRoot] at list

/-- What is stored as the same object is the same. -/
theorem Yields.unique (aligned : s.Aligned) (h : a.Yields base s path c)
    (h' : a.Yields base s path' c') (key : Files.keyOf path = Files.keyOf path') : c = c' := by
  cases h with
  | part owns =>
    obtain ⟨ps, p, laidOut, hp, rfl⟩ := owns
    cases h' with
    | part owns' =>
      obtain ⟨ps', q, laidOut', hq, rfl⟩ := owns'
      cases laidOut.unique laidOut'
      have exact_parts := aligned.exact_parts laidOut.parts
      obtain ⟨start, stop⟩ :=
        Partition.bounds_of_keyOf_eq (exact_parts p hp) (exact_parts q hq) key
      exact content_congr rfl start stop rfl
    | manifest => exact absurd key (p.keyOf_ne_manifest _)
  | manifest laidOut =>
    cases h' with
    | part owns' =>
      obtain ⟨ps', q, laidOut', hq, rfl⟩ := owns'
      exact absurd key.symm (q.keyOf_ne_manifest _)
    | manifest laidOut' => rw [laidOut.unique laidOut']

/-- The part was searched, and its file is stored. -/
structure Stored (a : Archive) (files : Files) (t : Task) : Prop where
  searchable : t.Searchable
  object : files.object? t.path = some (a.content files.coder t)

theorem Stored.put (aligned : s.Aligned) (owns : s.Owns t) (h : a.Stored files t)
    (coder : files.coder = base.coder) (yields : a.Yields base s path c) :
    a.Stored (files.put path c) t := by
  refine ⟨h.searchable, ?_⟩
  rw [Files.object?_put]
  split
  · next key =>
    rw [yields.unique aligned (.part owns) key, ← coder]
    rfl
  · exact h.object

theorem Stored.alike (h : a.Stored files t) (same : files.Alike s.id files')
    (rooted : s.Rooted) (owns : s.Owns t) : a.Stored files' t := by
  refine ⟨h.searchable, ?_⟩
  rw [same.objects _ (.inl (rooted.isPartPath owns)), same.coder, h.object]

/-- What is unpacked are the lines of the part. -/
theorem Stored.lines (h : a.Stored files t) : files.lines? t.path = some (a.lines t) := by
  simp only [Files.lines?, h.object, Option.bind_some, content, Content.bytes_ofBytes,
    Gzip.Coder.unpack?_pack]

/-- The lines of a part, counted in bytes. -/
def partSize (a : Archive) (s : Session) (i : Nat) : Nat :=
  ((s.parts?.bind (·[i]?)).map fun p => (a.lines (s.taskOf p)).length).getD 0

/-- The lines of all parts that are uploaded. -/
def uploadedSize (a : Archive) (s : Session) : Nat :=
  ∑ i ∈ Finset.range s.partCount, if s.uploaded[i]? = some true then a.partSize s i else 0

theorem partSize_of_owns (owns : s.Owns t) : a.partSize s t.part = (a.lines t).length := by
  obtain ⟨ps, p, laidOut, hp, rfl⟩ := owns
  obtain ⟨i, hi⟩ := List.getElem?_of_mem hp
  have index : (s.taskOf p).part = i := index_of_partitions? laidOut.parts hi
  simp only [partSize, laidOut.parts, Option.bind_some, index, hi, Option.map_some,
    Option.getD_some]

theorem uploadedSize_confirm {i : Nat} (missing : s.uploaded[i]? = some false) (size : Sizes) :
    a.uploadedSize (s.confirm i size) = a.partSize s i + a.uploadedSize s := by
  obtain ⟨hlt, -⟩ := List.getElem?_eq_some_iff.1 missing
  have mem : i ∈ Finset.range s.partCount := Finset.mem_range.2 hlt
  have flag (j : Nat) : (s.confirm i size).uploaded[j]? = some true ↔
      j = i ∨ s.uploaded[j]? = some true := by
    simp only [Session.confirm, List.getElem?_set]
    by_cases hi : i = j
    · subst hi
      simp [hlt]
    · simp [hi, Ne.symm hi]
  have same : a.partSize (s.confirm i size) = a.partSize s := rfl
  simp only [uploadedSize, Session.partCount_confirm, flag, same]
  rw [← Finset.add_sum_erase _ _ mem, ← Finset.add_sum_erase (Finset.range s.partCount) _ mem]
  simp only [true_or, if_true, missing, Option.some.injEq, Bool.false_eq_true, if_false,
    Nat.zero_add]
  congr 1
  refine Finset.sum_congr rfl fun j hj => ?_
  simp only [Finset.ne_of_mem_erase hj, false_or]

/-- The flags, the total and the objects of an export agree with each other. In its
directory there is nothing new beside its files. -/
structure Ledger (a : Archive) (base : Files) (s : Session) (files : Files) : Prop where
  uploaded : ∀ i : Nat, s.uploaded[i]? = some true →
    ∃ t, s.Owns t ∧ t.part = i ∧ a.Stored files t
  total : s.total.unpacked = a.uploadedSize s % Sizes.wordCount
  others : ∀ path, IsOutputPath s.id path → files.object? path = base.object? path ∨
    ∃ path' c, a.Yields base s path' c ∧ Files.keyOf path' = Files.keyOf path ∧
      files.object? path = some c
  linkBase : files.linkBase = base.linkBase
  coder : files.coder = base.coder

/-- At its start an export has stored nothing. -/
theorem ledger_of_fresh (flags : ∀ flag ∈ s.uploaded, flag = false) (total : s.total = .zero) :
    a.Ledger base s base where
  uploaded i hi := by cases flags _ (List.mem_of_getElem? hi)
  total := by
    have none_set (i : Nat) : s.uploaded[i]? ≠ some true := fun hi => by
      cases flags _ (List.mem_of_getElem? hi)
    simp only [uploadedSize, none_set, if_false, Finset.sum_const_zero, Nat.zero_mod, total]
    rfl
  others _ _ := .inl rfl
  linkBase := rfl
  coder := rfl

theorem Ledger.put (h : a.Ledger base s files) (aligned : s.Aligned)
    (yields : a.Yields base s path c) : a.Ledger base s (files.put path c) where
  uploaded i hi := by
    obtain ⟨t, owns, part, stored⟩ := h.uploaded i hi
    exact ⟨t, owns, part, stored.put aligned owns h.coder yields⟩
  total := h.total
  others other output := by
    rw [Files.object?_put]
    split
    · next key => exact .inr ⟨path, c, yields, key, rfl⟩
    · exact h.others other output
  linkBase := h.linkBase
  coder := h.coder

/-- What is done to other files does not matter. -/
theorem Ledger.alike (h : a.Ledger base s files) (same : files.Alike s.id files')
    (rooted : s.Rooted) : a.Ledger base s files' where
  uploaded i hi := by
    obtain ⟨t, owns, part, stored⟩ := h.uploaded i hi
    exact ⟨t, owns, part, stored.alike same rooted owns⟩
  total := h.total
  others path output := by
    rw [same.objects path output]
    exact h.others path output
  linkBase := same.linkBase.trans h.linkBase
  coder := same.coder.trans h.coder

theorem Ledger.confirm (h : a.Ledger base s files) (missing : s.uploaded[t.part]? = some false)
    (owns : s.Owns t) (stored : a.Stored files t) :
    a.Ledger base (s.confirm t.part (a.sizes files.coder t)) files := by
  have grown := Session.grown_confirm s t.part (a.sizes files.coder t)
  refine
    { uploaded := fun i hi => ?_, total := ?_, linkBase := h.linkBase, coder := h.coder
      others := fun path output =>
        (h.others path output).imp_right fun ⟨path', c, yields, rest⟩ =>
          ⟨path', c, yields.grown grown, rest⟩ }
  · by_cases part : t.part = i
    · exact ⟨t, grown.owns owns, part, stored⟩
    · simp only [Session.confirm, List.getElem?_set, part, if_false] at hi
      obtain ⟨u, owns', part', stored'⟩ := h.uploaded i hi
      exact ⟨u, grown.owns owns', part', stored'⟩
  · rw [uploadedSize_confirm missing, partSize_of_owns owns]
    simp only [Session.confirm, Sizes.unpacked_add, h.total, sizes]
    rw [Nat.mod_add_mod, Nat.add_comm]

theorem Ledger.ended (h : a.Ledger base s files) (status : Status) (error : Option String)
    (now : Instant) : a.Ledger base (s.ended status error now) files := by
  have grown := Session.grown_ended s status error now
  refine
    { uploaded := fun i hi => ?_, total := h.total, linkBase := h.linkBase, coder := h.coder
      others := fun path output =>
        (h.others path output).imp_right fun ⟨path', c, yields, rest⟩ =>
          ⟨path', c, yields.grown grown, rest⟩ }
  obtain ⟨t, owns, part, stored⟩ := h.uploaded i hi
  exact ⟨t, grown.owns owns, part, stored⟩

/-- All parts are uploaded, and the list of their links is stored. -/
structure Complete (a : Archive) (base : Files) (s : Session) (files : Files) : Prop where
  full : s.Full
  listed : ∃ ps, s.LaidOut ps ∧ files.object? s.manifestPath =
    some (.ofBytes (Utf8.encode (linkList base.linkBase s.pathRoot ps)))

theorem Complete.ended (h : a.Complete base s files) (status : Status) (error : Option String)
    (now : Instant) : a.Complete base (s.ended status error now) files := by
  obtain ⟨full, ps, laidOut, listed⟩ := h
  exact ⟨full, ps, ⟨laidOut.parts, laidOut.length⟩, listed⟩

theorem Complete.alike (h : a.Complete base s files) (same : files.Alike s.id files')
    (rooted : s.Rooted) : a.Complete base s files' := by
  obtain ⟨full, ps, laidOut, listed⟩ := h
  exact ⟨full, ps, laidOut, (same.objects _ rooted.isOutputPath_manifest).trans listed⟩

theorem Ledger.stored_of_full (h : a.Ledger base s files) (full : s.Full) (owns : s.Owns t) :
    a.Stored files t := by
  obtain ⟨ps, p, laidOut, hp, rfl⟩ := owns
  obtain ⟨i, hi⟩ := List.getElem?_of_mem hp
  obtain ⟨hlt, -⟩ := List.getElem?_eq_some_iff.1 hi
  have hlt' : i < s.uploaded.length := Nat.lt_of_lt_of_eq hlt laidOut.length
  obtain ⟨t, owns, part, stored⟩ := h.uploaded i
    (by rw [List.getElem?_eq_getElem hlt', full _ (List.getElem_mem hlt')])
  have index : (s.taskOf p).part = i := index_of_partitions? laidOut.parts hi
  rwa [owns.eq_of_part ⟨ps, p, laidOut, hp, rfl⟩ (part.trans index.symm)] at stored

/-- Only a session whose parts can all be searched comes to its end. -/
theorem Ledger.searchable (h : a.Ledger base s files) (complete : a.Complete base s files) :
    s.Searchable := by
  obtain ⟨ps, laidOut, -⟩ := complete.listed
  exact ⟨ps, laidOut, fun p hp =>
    (h.stored_of_full complete.full ⟨ps, p, laidOut, hp, rfl⟩).searchable⟩

/-- At the end all files of the export are stored. -/
theorem Ledger.object?_of_yields (h : a.Ledger base s files) (complete : a.Complete base s files)
    (yields : a.Yields base s path c) : files.object? path = some c := by
  cases yields with
  | part owns =>
    rw [(h.stored_of_full complete.full owns).object, h.coder]
  | manifest laidOut =>
    obtain ⟨ps, laidOut', object⟩ := complete.listed
    rw [laidOut.unique laidOut', object]

/-- Two exports of one session from the same files end with the same flags, total
and files. -/
theorem Ledger.agree (h : a.Ledger base s files) (complete : a.Complete base s files)
    (h' : a.Ledger base s' files') (complete' : a.Complete base s' files')
    (same : s'.SameRequest s) :
    s'.uploaded = s.uploaded ∧ s'.total.unpacked = s.total.unpacked ∧
      ∀ path, IsOutputPath s.id path → files'.object? path = files.object? path := by
  have grown := same.grown complete'.full
  have shrunk := same.symm.grown complete.full
  have flags : s'.uploaded = s.uploaded := by
    rw [List.eq_replicate_of_mem complete'.full, List.eq_replicate_of_mem complete.full]
    exact congrArg (List.replicate · true) same.partCount
  have parts : s'.parts? = s.parts? := grown.parts?_eq
  refine ⟨flags, ?_, fun path output => ?_⟩
  · rw [h'.total, h.total]
    simp only [uploadedSize, partSize, same.partCount, flags, parts, grown.taskOf]
  · rcases h.others path output with old | ⟨path₁, c, yields, key, found⟩
    · rcases h'.others path (same.id ▸ output) with old' | ⟨path₂, c', yields', key', found'⟩
      · rw [old, old']
      · rw [found', ← Files.object?_congr key',
          h.object?_of_yields complete (yields'.grown shrunk)]
    · rw [found, ← Files.object?_congr key, h'.object?_of_yields complete' (yields.grown grown)]

end Archive

end LogExport
