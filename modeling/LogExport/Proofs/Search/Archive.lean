import LogExport.Files.Content
import LogExport.Pipeline.Download

/-! A search service that answers from what it holds. Whatever pages the search
of a part is cut into, it reads the same events, and it comes to an end. -/

namespace LogExport

/-- No bound of a window of the task leaves the calendar. -/
def Task.Searchable (t : Task) : Prop := ∃ ws, windows? t.start t.stop t.window = some ws

/-- The events that a search service holds, for each query between two moments,
in the order in which it gives them. -/
structure Archive where
  events : String → Instant → Instant → List Event

namespace Archive

/-- The answer to a request: up to a page of the events from the offset on. -/
def page (a : Archive) (r : SearchRequest) : List Event :=
  ((a.events r.query r.start r.stop).drop r.offset).take r.limit

def inWindow (a : Archive) (t : Task) (w : Instant × Instant) : List Event :=
  a.events t.query w.1 w.2

/-- All events of a part, the newest window first. -/
def found (a : Archive) (t : Task) : List Event :=
  ((windows? t.start t.stop t.window).getD []).flatMap (a.inWindow t)

def lines (a : Archive) (t : Task) : Bytes := (a.found t).flatMap Download.line

/-- The file of a part. -/
def content (a : Archive) (c : Gzip.Coder) (t : Task) : Content := .ofBytes (c.pack (a.lines t))

def sizes (a : Archive) (c : Gzip.Coder) (t : Task) : Sizes :=
  ⟨(a.lines t).length, (c.pack (a.lines t)).length⟩

/-- The events that a search has not read yet. -/
def left (a : Archive) (d : Download) : List Event :=
  match d.windows with
  | [] => []
  | w :: ws => (a.inWindow d.task w).drop d.offset ++ ws.flatMap (a.inWindow d.task)

/-- How many requests a search makes at most until it is done. -/
def toGo (a : Archive) (d : Download) : Nat := d.windows.length + (a.left d).length

variable {a : Archive} {d : Download} {t : Task} {r : SearchRequest}

theorem left_of_offset (h : d.offset = 0) :
    a.left d = d.windows.flatMap (a.inWindow d.task) := by
  unfold left
  split
  · next hw => rw [hw, List.flatMap_nil]
  · next hw => rw [hw, h, List.drop_zero, List.flatMap_cons]

theorem request_cases (asked : d.request? = some r) :
    ∃ ws, d.windows = (r.start, r.stop) :: ws ∧
      a.page r = ((a.inWindow d.task (r.start, r.stop)).drop d.offset).take d.limit := by
  obtain ⟨w, hw, rfl⟩ := Option.map_eq_some_iff.1 asked
  cases hd : d.windows with
  | nil =>
    rw [hd] at hw
    cases hw
  | cons w' ws =>
    rw [hd] at hw
    cases hw
    exact ⟨ws, rfl, rfl⟩

/-- The page comes first in what is left, and the rest is left after it. -/
theorem left_take (asked : d.request? = some r) :
    a.left d = a.page r ++ a.left (d.take (a.page r)) := by
  obtain ⟨ws, hws, page⟩ := request_cases (a := a) asked
  generalize a.page r = taken at page ⊢
  subst page
  have before : a.left d = (a.inWindow d.task (r.start, r.stop)).drop d.offset ++
      ws.flatMap (a.inWindow d.task) := by simp only [left, hws]
  generalize hl : (a.inWindow d.task (r.start, r.stop)).drop d.offset = rest at before ⊢
  have length := List.length_take (i := d.limit) (l := rest)
  unfold Download.take
  split
  · -- Nothing of the window comes after a page that is not full.
    rw [before, left_of_offset rfl, hws, List.tail_cons, List.take_of_length_le (by omega)]
  · have after : (a.inWindow d.task (r.start, r.stop)).drop
        (d.offset + (rest.take d.limit).length) = rest.drop d.limit := by
      rw [← List.drop_drop, hl]
      congr 1
      omega
    rw [before]
    simp only [left, hws, after]
    rw [← List.append_assoc, List.take_append_drop]

/-- Every page brings a search nearer to its end. -/
theorem toGo_take (asked : d.request? = some r) (limit : 0 < d.limit) :
    a.toGo (d.take (a.page r)) < a.toGo d := by
  have left := congrArg List.length (left_take (a := a) asked)
  rw [List.length_append] at left
  obtain ⟨ws, hws, -⟩ := request_cases (a := a) asked
  have windows : d.windows.length = ws.length + 1 := by rw [hws, List.length_cons]
  unfold toGo
  by_cases short : (a.page r).length < d.limit
  · have after : (d.take (a.page r)).windows.length = ws.length := by
      simp only [Download.take, short, if_true, hws, List.tail_cons]
    omega
  · have after : (d.take (a.page r)).windows.length = d.windows.length := by
      simp only [Download.take, short, if_false]
    omega

/-- A search of the part, with the events that it has read being the first ones
of the part. -/
structure Follows (a : Archive) (t : Task) (d : Download) : Prop where
  task : d.task = t
  limit : 0 < d.limit
  searchable : t.Searchable
  reads : d.events ++ a.left d = a.found t

theorem follows_begin {session : String} {limit : Nat} (pages : 0 < limit)
    (begins : Download.begin? session t limit = some d) :
    a.Follows t d ∧ a.toGo d = ((windows? t.start t.stop t.window).getD []).length +
      (a.found t).length := by
  obtain ⟨ws, hws, rfl⟩ := Option.map_eq_some_iff.1 begins
  have all : a.found t = ws.flatMap (a.inWindow t) := by simp only [found, hws, Option.getD_some]
  refine ⟨⟨rfl, pages, ⟨ws, hws⟩, ?_⟩, ?_⟩
  · rw [left_of_offset rfl, List.nil_append, all]
  · rw [toGo, left_of_offset rfl, all, hws, Option.getD_some]

theorem Follows.take (h : a.Follows t d) (asked : d.request? = some r) :
    a.Follows t (d.take (a.page r)) := by
  have kept : (d.take (a.page r)).task = d.task ∧ (d.take (a.page r)).limit = d.limit ∧
      (d.take (a.page r)).events = d.events ++ a.page r := by
    unfold Download.take
    split <;> exact ⟨rfl, rfl, rfl⟩
  refine ⟨kept.1.trans h.task, kept.2.1 ▸ h.limit, h.searchable, ?_⟩
  rw [kept.2.2, List.append_assoc, ← left_take asked, h.reads]

/-- A search that is done has read all events of its part. -/
theorem Follows.done (h : a.Follows t d) (done : d.isDone = true) (c : Gzip.Coder) :
    Content.ofBytes (d.file c) = a.content c t ∧ d.sizes c = a.sizes c t := by
  have nothing : a.left d = [] := by simp only [left, List.isEmpty_iff.1 done]
  have all : d.events = a.found t := by rw [← h.reads, nothing, List.append_nil]
  simp only [Download.sizes, Download.file, Download.lines, all, content, sizes, lines, and_self]

theorem unsearchable_of_begin {session : String} {limit : Nat}
    (never : Download.begin? session t limit = none) : ¬ t.Searchable := by
  rintro ⟨ws, hws⟩
  simp only [Download.begin?, hws, Option.map_some] at never
  cases never

end Archive

end LogExport
