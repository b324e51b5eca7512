import LogExport.Proofs.Service.Origins

/-! The paths of outputs. A path is read from both ends: the root of its session,
which may hold any number of slashes, comes first, and the name of a file, which
holds none, comes last. Bounds of parts are whole seconds, so the name tells them
in full. -/

namespace LogExport

namespace Session

/-- The session was stored by an accepted start, and may have come any way since.
The storage was empty before the first service was constructed over it. -/
def IsCreated (s : Session) : Prop :=
  ∃ (w₀ w : Site) (a : Acceptance), w₀.Untouched ∧ w₀.backend.records = .empty ∧
    Site.Reaches (fun _ _ => True) w₀ w ∧ a ∈ w.accepted ∧
    w.backend.records.shelf.session a.id = some s

variable {s s' : Session} {ps : List Partition}

theorem IsCreated.pathRoot (h : s.IsCreated) : s.pathRoot = "exports/" ++ s.id := by
  obtain ⟨w₀, w, a, untouched, empty, run, -, found⟩ := h
  obtain ⟨own, root⟩ := (Site.traced_of_reaches untouched empty run).1.account.own a.id s found
  rw [root, own]

theorem IsCreated.exists_agrees (h : s.IsCreated) :
    ∃ (a : Acceptance) (lo hi : Instant), a.Agrees lo hi s := by
  obtain ⟨w₀, w, a, untouched, empty, run, -, found⟩ := h
  obtain ⟨b, -, lo, hi, -, agrees⟩ :=
    (Site.traced_of_reaches untouched empty run).2.sessions a.id s found
  exact ⟨b, lo, hi, agrees⟩

theorem IsCreated.exact_parts (h : s.IsCreated) (parts : s.parts? = some ps) :
    ∀ p ∈ ps, p.start.IsExact ∧ p.stop.IsExact := by
  obtain ⟨a, lo, hi, agrees⟩ := h.exists_agrees
  exact agrees.aligned.exact_parts parts

/-- The bounds tell the parts of a session apart. -/
theorem IsCreated.eq_of_bounds (h : s.IsCreated) (parts : s.parts? = some ps) {p q : Partition}
    (hp : p ∈ ps) (hq : q ∈ ps) (hstart : p.start = q.start) (hstop : p.stop = q.stop) :
    p = q := by
  obtain ⟨a, lo, hi, agrees⟩ := h.exists_agrees
  have aligned := agrees.aligned
  exact Partition.eq_of_bounds
    (newest_first_of_partitions? aligned.start.whole.nano_lt aligned.stop.whole.nano_lt parts)
    (agrees.start_lt_stop parts) hp hq hstart hstop

/-- No two outputs have the same path. An id tells user, name and millisecond,
since names have no slash. The path of a part tells the id and the part: its
bounds, and within the parts of one session its number as well. And no part has
the path of a list of links, whatever sessions they belong to. An id can be
accepted more than once in one millisecond and be cut in other ways then, so
under equal ids only the bounds are the same for certain. -/
theorem outputs_apart :
    (∀ (user user' name name' : String) (t t' : Instant), '/' ∉ name.toList → '/' ∉ name'.toList →
      (idOf user name t = idOf user' name' t' ↔
        user = user' ∧ name = name' ∧ t.millis = t'.millis)) ∧
    (∀ (s s' : Session) (ps qs : List Partition), s.IsCreated → s'.IsCreated →
      s.parts? = some ps → s'.parts? = some qs → ∀ p ∈ ps, ∀ q ∈ qs,
        (p.pathUnder s.pathRoot = q.pathUnder s'.pathRoot ↔
          s.id = s'.id ∧ p.start = q.start ∧ p.stop = q.stop) ∧
        (p.pathUnder s.pathRoot = q.pathUnder s'.pathRoot → ps = qs → p = q)) ∧
    ∀ (s s' : Session) (p : Partition), p.pathUnder s.pathRoot ≠ s'.manifestPath := by
  refine ⟨fun user user' name name' t t' hn hn' => ⟨idOf_inj hn hn', ?_⟩, ?_,
    fun s s' p => pathUnder_ne_manifestPathUnder _ _ p⟩
  · rintro ⟨rfl, rfl, millis⟩
    rw [idOf, idOf, millis]
  · intro s s' ps qs hs hs' parts parts' p hp q hq
    have told (h : p.pathUnder s.pathRoot = q.pathUnder s'.pathRoot) :
        s.id = s'.id ∧ p.start = q.start ∧ p.stop = q.stop := by
      obtain ⟨root, bounds⟩ :=
        Partition.pathUnder_inj (hs.exact_parts parts p hp) (hs'.exact_parts parts' q hq) h
      rw [hs.pathRoot, hs'.pathRoot] at root
      exact ⟨by simpa using root, bounds⟩
    refine ⟨⟨told, ?_⟩, fun h same => ?_⟩
    · rintro ⟨hid, start, stop⟩
      simp only [Partition.pathUnder, hs.pathRoot, hs'.pathRoot, hid, start, stop]
    · obtain ⟨-, start, stop⟩ := told h
      exact hs.eq_of_bounds parts hp (same ▸ hq) start stop

/-- A start for the first two hours of 2024. -/
def watchAccepted : Acceptance :=
  { Site.auditAccepted with request := { Engine.audit with stop := ⟨⟨1704074400, 0⟩, 0⟩ } }

/-- Two hours are exported in two parts. -/
theorem two_hours_created :
    ∃ s : Session, s.IsCreated ∧ s.parts? = some
      [⟨0, ⟨1704070800, 0⟩, ⟨1704074400, 0⟩⟩, ⟨1, Engine.newYear, ⟨1704070800, 0⟩⟩] := by
  obtain ⟨e₀, b, e₁, created, same₀, start, accepted⟩ :
      ∃ e₀ b e₁,
        Engine.create Engine.hourly {} Engine.newYear { linkBase := "" } = (.ok e₀, b) ∧
          Site.enter ⟨b, .empty, [e₀], [], []⟩ e₀ = e₀ ∧
          Engine.Step e₀ (.start none watchAccepted.request (.ok Engine.auditId)) e₁ ∧
          Engine.Event.acceptance? e₀ (.start none watchAccepted.request (.ok Engine.auditId)) =
            some watchAccepted :=
    ⟨_, _, _, rfl, rfl, .start ⟨by decide, by decide⟩ rfl, rfl⟩
  have construct : Site.Step ⟨{}, .empty, [], [], []⟩ .construct ⟨b, .empty, [e₀], [], []⟩ :=
    .constructed (by decide) (by decide) created
  obtain ⟨w, step, -, same, accepted'⟩ :=
    Site.step_of_found (rfl : [e₀][0]? = some e₀) same₀ start
  have run : Site.Reaches (fun _ _ => True) ⟨{}, .empty, [], [], []⟩ w :=
    ((Site.Reaches.refl _).tail trivial construct).tail trivial step
  obtain ⟨c, effect⟩ := (Engine.sound_of_create (by decide) (by decide) created).effect start
  obtain ⟨s, lo, hi, rfl, hid, agrees⟩ := effect.agrees accepted
  have found := effect.records.2.started
  rw [← same, hid] at found
  refine ⟨s, ⟨_, w, watchAccepted, ⟨rfl, rfl, rfl⟩, rfl, run, ?_, found⟩, ?_⟩
  · rw [accepted', accepted]
    exact List.mem_cons_self
  · have known : watchAccepted.length.normalize? watchAccepted.request.start
        watchAccepted.request.stop =
        some (Engine.newYear, ⟨1704074400, 0⟩) := rfl
    have bounds := agrees.bounds
    rw [known] at bounds
    cases bounds
    rw [parts?, agrees.start, agrees.stop, agrees.partLength]
    rfl

/-- A user may have slashes and a name underscores, and the hours of one export
have a file each. -/
theorem outputs_apart_two_hours :
    idOf "a/b" "c_1" Engine.newYear ≠ idOf "a" "c_1" Engine.newYear ∧
      ∃ (s : Session) (p q : Partition), s.IsCreated ∧ s.parts? = some [p, q] ∧
        p.pathUnder s.pathRoot ≠ q.pathUnder s.pathRoot ∧
        p.pathUnder s.pathRoot ≠ s.manifestPath := by
  obtain ⟨ids, parts, lists⟩ := outputs_apart
  obtain ⟨s, created, cut⟩ := two_hours_created
  refine ⟨fun h => ?_, s, _, _, created, cut, fun h => ?_, lists s s _⟩
  · exact absurd ((ids _ _ _ _ _ _ (by decide) (by decide)).1 h).1 (by decide)
  · obtain ⟨same, -⟩ := parts s s _ _ created created cut cut _ List.mem_cons_self _
      (List.mem_cons_of_mem _ List.mem_cons_self)
    exact absurd (same.1 h).2.1 (by decide)

end Session

end LogExport
