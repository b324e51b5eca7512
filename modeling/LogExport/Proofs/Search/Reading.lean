import Mathlib.Logic.Relation
import LogExport.Proofs.Json.OneLine
import LogExport.Proofs.Partition.Tiling
import LogExport.Proofs.Search.Archive
import LogExport.Proofs.Service.Lock

/-! The reading of a part from a service that holds its events. Every window is
asked for page after page until a page is not full, and every event of the part
becomes a line of its own. -/

namespace LogExport

open Relation

/-! ### Windows -/

/-- The cut of a range into windows comes from one bound to another, before the
start of the range is reached. -/
def Instant.StepsBack (start : Instant) (step : Int) : Instant → Instant → Prop :=
  ReflTransGen fun u v => u.sub? step = some v ∧ start < v

theorem windowsOf?_eq_none_iff {start upper : Instant} {step : Int} (hs : 0 < step) :
    windowsOf? start step hs upper = none ↔
      ∃ u, start.StepsBack step upper u ∧ u.sub? step = none := by
  fun_induction windowsOf? start step hs upper with
  | case1 upper left => exact ⟨fun _ => ⟨upper, .refl, left⟩, fun _ => rfl⟩
  | case2 upper cut hcut above ih =>
    rw [Option.map_eq_none_iff, ih]
    refine exists_congr fun u => and_congr_left fun left => ⟨.head ⟨hcut, above⟩, fun h => ?_⟩
    rcases h.cases_head with rfl | ⟨v, ⟨hv, -⟩, rest⟩
    · rw [left] at hcut
      cases hcut
    · rw [hcut] at hv
      cases hv
      exact rest
  | case3 upper cut hcut reached =>
    refine iff_of_false (Option.some_ne_none _) ?_
    rintro ⟨u, h, left⟩
    rcases h.cases_head with rfl | ⟨v, ⟨hv, above⟩, -⟩
    · rw [left] at hcut
      cases hcut
    · rw [hcut] at hv
      cases hv
      exact absurd above reached

/-- When a range cannot be cut into windows: a step back from one of the bounds
leaves the calendar. This is so even where the window would end at the start of
the range. -/
theorem windows?_eq_none_iff {start stop : Instant} {window : Duration} :
    windows? start stop window = none ↔ 0 < window.step ∧ start < stop ∧
      ∃ u, start.StepsBack window.step stop u ∧ u.sub? window.step = none := by
  unfold windows?
  split_ifs with hs hlt
  · rw [windowsOf?_eq_none_iff]
    exact ⟨fun h => ⟨hs, hlt, h⟩, fun h => h.2.2⟩
  · exact iff_of_false not_false fun h => hlt h.2.1
  · exact iff_of_false not_false fun h => hs h.1

/-! ### Lines -/

theorem intercalate_nil_last {α : Type} (x : α) (ls : List (List α)) :
    [x].intercalate (ls ++ [[]]) = ls.flatMap (· ++ [x]) := by
  induction ls with
  | nil => rfl
  | cons l ls ih =>
    rw [List.cons_append, List.intercalate_cons_of_ne_nil (by simp), ih, List.flatMap_cons]

/-- Lines that end with a mark and have no other are told apart by it. -/
theorem splitOn_flatMap {α : Type} [BEq α] [LawfulBEq α] {x : α} {ls : List (List α)}
    (h : ∀ l ∈ ls, x ∉ l) : (ls.flatMap (· ++ [x])).splitOn x = ls ++ [[]] := by
  rw [← intercalate_nil_last]
  refine List.splitOn_intercalate x (fun l hl => ?_) (by simp)
  rcases List.mem_append.1 hl with hl | hl
  · exact h l hl
  · rw [List.mem_singleton.1 hl]
    exact List.not_mem_nil

theorem Download.line_eq (e : Event) : Download.line e = Utf8.encode e.text ++ [0x0A] := by
  rw [Download.line, Utf8.encode_append]
  rfl

/-- The lines of a file are its events. -/
theorem Download.splitOn_lines (d : Download) :
    d.lines.splitOn 0x0A = d.events.map (fun e => Utf8.encode e.text) ++ [[]] := by
  have each : d.lines = (d.events.map fun e => Utf8.encode e.text).flatMap (· ++ [0x0A]) := by
    rw [List.flatMap_map, lines, funext line_eq]
  rw [each]
  refine splitOn_flatMap fun l hl => ?_
  obtain ⟨e, -, rfl⟩ := List.mem_map.1 hl
  exact e.newline_notMem_text

namespace Archive

/-- A search that goes on with the answers of the archive, with the requests that
it makes. -/
inductive Reads (a : Archive) (files : Files) : Download → List SearchRequest → Download → Prop
  | nil (d : Download) : Reads a files d [] d
  | cons {d d' d'' : Download} {r : SearchRequest} {rs : List SearchRequest}
      (asked : d.request? = some r)
      (answered : Engine.movePart files d (.page (.ok (a.page r))) = some (.moving d', files))
      (rest : Reads a files d' rs d'') : Reads a files d (r :: rs) d''

/-- The request for page `i` of a window. -/
def pageRequest (id : String) (t : Task) (limit : Nat) (w : Instant × Instant) (i : Nat) :
    SearchRequest :=
  { sessionId := id, query := t.query, start := w.1, stop := w.2, limit, offset := i * limit }

/-- The requests for a window, one for each full page and one more. -/
def requests (a : Archive) (id : String) (t : Task) (limit : Nat) (w : Instant × Instant) :
    List SearchRequest :=
  (List.range ((a.inWindow t w).length / limit + 1)).map (pageRequest id t limit w)

variable {a : Archive} {files : Files} {d d' d'' : Download} {r : SearchRequest}
  {rs rs' : List SearchRequest} {id : String} {t : Task} {limit : Nat} {w : Instant × Instant}
  {ws : List (Instant × Instant)}

theorem Reads.append (h : Reads a files d rs d') (g : Reads a files d' rs' d'') :
    Reads a files d (rs ++ rs') d'' := by
  induction h with
  | nil => exact g
  | cons asked answered _ ih => exact .cons asked answered (ih g)

theorem movePart_page {events : List Event} (asked : d.request? = some r) :
    Engine.movePart files d (.page (.ok events)) = some (.moving (d.take events), files) := by
  obtain ⟨w, hw, -⟩ := Option.map_eq_some_iff.1 asked
  have going : d.isDone = false := by
    cases hd : d.windows with
    | nil =>
      rw [hd] at hw
      cases hw
    | cons => rw [Download.isDone, hd]; rfl
  rw [Engine.movePart, going]
  rfl

/-- Nothing is asked for when the search is done. -/
theorem request?_of_isDone (done : d.isDone = true) : d.request? = none := by
  rw [Download.request?, List.isEmpty_iff.1 done]
  rfl

/-- A search has no choice: what it has read on the way to its end comes first. -/
theorem Reads.split (h : Reads a files d rs d') (g : Reads a files d rs' d'')
    (done : d''.isDone = true) : ∃ rest, rs' = rs ++ rest ∧ Reads a files d' rest d'' := by
  induction h generalizing rs' with
  | nil => exact ⟨rs', rfl, g⟩
  | cons asked answered _ ih =>
    cases g with
    | nil =>
      rw [request?_of_isDone done] at asked
      cases asked
    | cons asked' answered' rest' =>
      obtain rfl := Option.some.inj (asked.symm.trans asked')
      rw [answered] at answered'
      cases answered'
      obtain ⟨rest, rfl, reads⟩ := ih rest'
      exact ⟨rest, rfl, reads⟩

/-- The pages of a window from one of them on. -/
theorem reads_pages {n i : Nat} {events : List Event} (pages : 0 < limit)
    (last : (a.inWindow t w).length / limit = i + n) :
    Reads a files ⟨id, t, limit, w :: ws, i * limit, events⟩
      ((List.range' i (n + 1)).map (pageRequest id t limit w))
      ⟨id, t, limit, ws, 0, events ++ (a.inWindow t w).drop (i * limit)⟩ := by
  induction n generalizing i events with
  | zero =>
    have short : ((a.inWindow t w).drop (i * limit)).length < limit := by
      have less := Nat.lt_mul_div_succ (a.inWindow t w).length pages
      rw [last, Nat.add_zero, Nat.mul_succ, Nat.mul_comm] at less
      rw [List.length_drop]
      omega
    refine .cons rfl (movePart_page rfl) ?_
    rw [show a.page (pageRequest id t limit w i) = (a.inWindow t w).drop (i * limit) from
      List.take_of_length_le (Nat.le_of_lt short), Download.take, if_pos short]
    exact .nil _
  | succ n ih =>
    have room : (i + 1) * limit ≤ (a.inWindow t w).length :=
      Nat.le_trans (Nat.mul_le_mul_right limit (last ▸ by omega)) (Nat.div_mul_le_self _ limit)
    have full : (((a.inWindow t w).drop (i * limit)).take limit).length = limit := by
      rw [List.length_take, List.length_drop]
      rw [Nat.succ_mul] at room
      omega
    have next : Reads a files
        ⟨id, t, limit, w :: ws, (i + 1) * limit,
          events ++ ((a.inWindow t w).drop (i * limit)).take limit⟩ _ _ := ih (by omega)
    rw [Nat.succ_mul, List.append_assoc, ← List.drop_drop, List.take_append_drop] at next
    rw [List.range'_succ, List.map_cons]
    refine .cons rfl (movePart_page rfl) ?_
    rw [show a.page (pageRequest id t limit w i) =
      ((a.inWindow t w).drop (i * limit)).take limit from rfl, Download.take,
      if_neg (Nat.not_lt_of_le (Nat.le_of_eq full.symm)), full]
    exact next

/-- One window after the other is read to its last page. -/
theorem reads_windows {events : List Event} (pages : 0 < limit) (ws : List (Instant × Instant)) :
    Reads a files ⟨id, t, limit, ws, 0, events⟩ (ws.flatMap (a.requests id t limit))
      ⟨id, t, limit, [], 0, events ++ ws.flatMap (a.inWindow t)⟩ := by
  induction ws generalizing events with
  | nil =>
    rw [List.flatMap_nil, List.flatMap_nil, List.append_nil]
    exact .nil _
  | cons w ws ih =>
    have first : Reads a files ⟨id, t, limit, w :: ws, 0 * limit, events⟩ _ _ :=
      reads_pages pages (Nat.zero_add ((a.inWindow t w).length / limit)).symm
    rw [Nat.zero_mul, List.drop_zero, ← List.range_eq_range'] at first
    rw [List.flatMap_cons, List.flatMap_cons, ← List.append_assoc]
    exact first.append ih

/-- For a session that runs, a part is begun unless a bound of a window leaves the
calendar. -/
theorem beginPart_running {e : Engine} {s : Session} {b : Backend}
    (loaded : Access.Gives (SessionStore.check id) e.backend (.ok s) b)
    (running : s.status = .start) (t : Task) :
    (windows? t.start t.stop t.window = none ∧ (e.beginPart id t).1 = .crashed) ∨
      ∃ ws, windows? t.start t.stop t.window = some ws ∧
        (e.beginPart id t).1 = .moving ⟨id, t, e.limitFor s, ws, 0, []⟩ := by
  simp only [Engine.beginPart, Engine.access_eq loaded, running, Download.begin?]
  cases windows? t.start t.stop t.window with
  | none => exact .inl ⟨rfl, rfl⟩
  | some ws => exact .inr ⟨ws, rfl, rfl⟩

theorem limitFor_pos {e : Engine} (pages : 0 < e.settings.pageSize) (s : Session) :
    0 < e.limitFor s := by
  unfold Engine.limitFor
  split
  · exact pages
  · next h => exact Nat.pos_of_ne_zero h

/-- The file of a part tells every event of the part once. Let a session run that
is stored, with any page size or none, and let the search service answer from
what it holds. Then, for every task,
(a) the part is begun unless a step back from a bound of a window leaves the
calendar, which cannot be if there is room for a window before the start of the
part;
(b) the windows are asked for newest first, page after page, with one request for
each full page and one more; these requests are made in this order, and the
search is done when all of them are answered, and not before;
(c) the file is then stored under the path of the task, and its size is told;
(d) unpacked it has one line for each event, in the order of the windows and of
their events, as compact text and without another line break;
(e) so that the lines are exactly the events. -/
theorem events_become_lines (a : Archive) {e : Engine} {s : Session} {b : Backend}
    (pages : 0 < e.settings.pageSize)
    (loaded : Access.Gives (SessionStore.check id) e.backend (.ok s) b)
    (running : s.status = .start) (t : Task) :
    ((e.beginPart id t).1 = .crashed ↔ 0 < t.window.step ∧ t.start < t.stop ∧
      ∃ u, t.start.StepsBack t.window.step t.stop u ∧ u.sub? t.window.step = none) ∧
    (t.stop.Valid → t.start.HasRoom t.window.step → (e.beginPart id t).1 ≠ .crashed) ∧
    ((e.beginPart id t).1 ≠ .crashed →
      ∃ ws d d', windows? t.start t.stop t.window = some ws ∧ (e.beginPart id t).1 = .moving d ∧
        Reads a e.files d (ws.flatMap (a.requests id t (e.limitFor s))) d' ∧
        (∀ rs d'', Reads a e.files d rs d'' →
          rs <+: ws.flatMap (a.requests id t (e.limitFor s)) ∧
            (d''.isDone = true ↔ rs = ws.flatMap (a.requests id t (e.limitFor s)))) ∧
        ∃ bytes, e.files.coder.unpack? (d'.file e.files.coder) = some bytes ∧
          Engine.movePart e.files d' .stored = some
            (.confirming ⟨bytes.length, (d'.file e.files.coder).length⟩,
              e.files.put t.path (.ofBytes (d'.file e.files.coder))) ∧
          bytes = (ws.flatMap (a.inWindow t)).flatMap (fun x => Utf8.encode x.text ++ [0x0A]) ∧
          (∀ x ∈ ws.flatMap (a.inWindow t), 0x0A ∉ Utf8.encode x.text) ∧
          bytes.splitOn 0x0A =
            (ws.flatMap (a.inWindow t)).map (fun x => Utf8.encode x.text) ++ [[]]) := by
  rcases beginPart_running loaded running t with ⟨never, crashed⟩ | ⟨ws, hws, begun⟩
  · rw [crashed]
    refine ⟨⟨fun _ => windows?_eq_none_iff.1 never, fun _ => rfl⟩, fun valid room => ?_,
      fun h => absurd rfl h⟩
    obtain ⟨ws, hws⟩ := windows?_isSome valid room
    rw [never] at hws
    cases hws
  have reads : Reads a e.files ⟨id, t, e.limitFor s, ws, 0, []⟩ _ _ :=
    reads_windows (limitFor_pos pages s) ws
  rw [begun]
  refine ⟨⟨nofun, fun left => ?_⟩, fun _ _ => nofun, fun _ => ⟨ws, _, _, hws, rfl, reads,
    fun rs d'' h => ?_, _, e.files.coder.unpack?_pack _, rfl, ?_, fun x _ => x.newline_notMem_text, ?_⟩⟩
  · rw [windows?_eq_none_iff.2 left] at hws
    cases hws
  · obtain ⟨rest, split, reads'⟩ := h.split reads rfl
    rw [split]
    refine ⟨List.prefix_append rs rest, fun done => ?_, fun same => ?_⟩
    · cases reads' with
      | nil => exact (List.append_nil rs).symm
      | cons asked =>
        rw [request?_of_isDone done] at asked
        cases asked
    · cases List.self_eq_append_right.1 same
      cases reads'
      rfl
  · exact congrArg (List.flatMap · _) (funext Download.line_eq)
  · exact Download.splitOn_lines _

/-- One event with a line break in it, in a window of ten minutes. -/
theorem events_become_lines_break :
    ∃ (a : Archive) (e : Engine) (id : String) (t : Task) (d d' : Download)
      (rs : List SearchRequest) (bytes : Bytes),
      (e.beginPart id t).1 = .moving d ∧ Reads a e.files d rs d' ∧ d'.isDone = true ∧
      e.files.coder.unpack? (d'.file e.files.coder) = some bytes ∧
      bytes.splitOn 0x0A = [Utf8.encode "\"a\\nb\"", []] := by
  obtain ⟨e₀, b, e, created, start, quiet, pages⟩ :
      ∃ e₀ b e, Engine.create Engine.hourly {} Engine.newYear { linkBase := "" } = (.ok e₀, b) ∧
        Engine.Step e₀ (.start none Engine.audit (.ok Engine.auditId)) e ∧
        e.backend.faults = {} ∧ 0 < e.settings.pageSize :=
    ⟨_, _, _, rfl, .start Engine.exact_audit rfl, rfl, by decide⟩
  obtain ⟨c, effect⟩ := (Engine.sound_of_create (by decide) (by decide) created).effect start
  obtain ⟨-, -, s, stored, running⟩ := effect.holds_of_start
  let a : Archive := ⟨fun _ _ _ => [.string "a\nb"]⟩
  let t : Task :=
    { part := 0, path := "part", query := "*", start := Engine.newYear, stop := ⟨1704067800, 0⟩,
      window := .ofSecs 600 }
  obtain ⟨-, possible, reads⟩ := a.events_become_lines pages
    (SessionStore.load_quiet quiet stored) running t
  obtain ⟨ws, d, d', hws, begun, run, unique, bytes, unpacked, -, -, -, lines⟩ :=
    reads (possible (by decide) (by decide))
  have one : windows? t.start t.stop t.window = some [(t.start, t.stop)] := by
    have cut : t.stop.sub? t.window.step = some t.start := by decide
    rw [windows?, dif_pos (by decide), if_pos (by decide), windowsOf?]
    split
    · next left =>
      rw [cut] at left
      cases left
    · next u hu =>
      rw [cut] at hu
      cases hu
      exact dif_neg (lt_irrefl _)
  rw [one] at hws
  cases hws
  exact ⟨a, e, _, t, d, d', _, bytes, begun, run, (unique _ _ run).2.2 rfl, unpacked, lines⟩

end Archive

end LogExport
