import LogExport.Proofs.Files.Links
import LogExport.Proofs.Service.Origins

/-! Links to the outputs of an export. What a file is called is made of plain
characters, so whether its link names the stored object is up to the user and
the name of the export. -/

namespace LogExport

open ObjectPath (IsKept isPlain)

theorem ObjectPath.isPlain_of_isDigit {c : Char} (h : Digits.isDigit c = true) :
    isPlain c = true := by
  have digit : ∀ n : Fin 10, isPlain (Char.ofNat (48 + n)) = true := by decide
  have bounds : 48 ≤ c.toNat ∧ c.toNat ≤ 57 := by
    unfold Digits.isDigit Digits.value? at h
    split at h
    · next hc => exact ⟨hc.1, hc.2⟩
    · cases h
  have hc : 48 + (c.toNat - 48) = c.toNat := by omega
  have := digit ⟨c.toNat - 48, by omega⟩
  rwa [hc, Char.ofNat_toNat] at this

namespace Instant

theorem isPlain_of_mem_compact {t : Instant} {c : Char} (h : c ∈ t.compact.toList) :
    isPlain c = true := by
  have marks : ∀ c ∈ ['-', '+', 'T', 'Z'], isPlain c = true := List.all_eq_true.1 (by decide)
  exact (mem_compact h).elim ObjectPath.isPlain_of_isDigit (marks c)

end Instant

namespace Partition

/-- The name of a part's file needs no escapes. -/
theorem isKept_fileName (p : Partition) : IsKept p.fileName := by
  have length := p.isName_fileName.length
  refine ⟨?_, ?_, ?_, fun c hc => ?_⟩
  · intro h
    simp [h] at length
  · intro h
    simp [h] at length
  · intro h
    simp [h] at length
  · have ending : ∀ c ∈ ".jsonl.gz".toList, isPlain c = true := List.all_eq_true.1 (by decide)
    rcases List.mem_append.1 hc with hc | hc
    · exact Instant.isPlain_of_mem_compact hc
    rcases List.mem_cons.1 hc with rfl | hc
    · decide
    rcases List.mem_append.1 hc with hc | hc
    · exact Instant.isPlain_of_mem_compact hc
    · exact ending c hc

end Partition

namespace Session

/-- The segments of an output's path: those of the user, one for name and
millisecond, and the name of the file. -/
theorem pieces_of_output {user name path : String} {t : Instant} (hn : '/' ∉ name.toList)
    (h : IsOutputPath (idOf user name t) path) :
    ∃ file, IsKept file ∧ pieces '/' path.toList =
      "exports".toList :: pieces '/' user.toList ++
        [name.toList ++ '_' :: (toString t.millis).toList, file] := by
  have slash : '/' ∉ name.toList ++ '_' :: (toString t.millis).toList := by
    simp only [List.mem_append, List.mem_cons, not_or]
    refine ⟨hn, by decide, fun hm => ?_⟩
    rcases mem_toString hm with hd | hd <;> cases hd
  have cut {file : List Char} (hf : '/' ∉ file)
      (hp : path.toList = "exports".toList ++ '/' :: (user.toList ++ '/' ::
        ((name.toList ++ '_' :: (toString t.millis).toList) ++ '/' :: file))) :
      pieces '/' path.toList = "exports".toList :: pieces '/' user.toList ++
        [name.toList ++ '_' :: (toString t.millis).toList, file] := by
    rw [hp, pieces_append, pieces_append, pieces_append, pieces_of_notMem slash,
      pieces_of_notMem hf]
    rfl
  rcases h with ⟨p, rfl⟩ | rfl
  · refine ⟨p.fileName, p.isKept_fileName, cut p.isName_fileName.1 ?_⟩
    rw [Partition.pathUnder_eq]
    simp [idOf, String.toList_append]
  · refine ⟨"manifest.txt".toList, by decide, cut (by decide) ?_⟩
    simp [manifestPathUnder, idOf, String.toList_append]

/-- An output is stored under its path if user and name need no escapes. -/
theorem key_output_eq_iff {user name path : String} {t : Instant} (hn : '/' ∉ name.toList)
    (h : IsOutputPath (idOf user name t) path) :
    ObjectPath.key path = path ↔
      (∀ s ∈ pieces '/' user.toList, IsKept s) ∧ ∀ c ∈ name.toList, isPlain c = true := by
  obtain ⟨file, kept, hp⟩ := pieces_of_output hn h
  have hne : path ≠ "" := by
    rintro rfl
    have hlen := congrArg List.length hp
    simp [pieces] at hlen
  have named : IsKept (name.toList ++ '_' :: (toString t.millis).toList) ↔
      ∀ c ∈ name.toList, isPlain c = true := by
    refine ⟨fun h c hc => h.plain c (List.mem_append_left _ hc), fun h => ?_⟩
    have mark : '_' ∈ name.toList ++ '_' :: (toString t.millis).toList := by simp
    refine ⟨List.ne_nil_of_mem mark, fun he => ?_, fun he => ?_, fun c hc => ?_⟩
    · rw [he] at mark
      exact absurd mark (by decide)
    · rw [he] at mark
      exact absurd mark (by decide)
    · rcases List.mem_append.1 hc with hc | hc
      · exact h c hc
      rcases List.mem_cons.1 hc with rfl | hc
      · decide
      rcases mem_toString hc with hd | rfl
      · exact ObjectPath.isPlain_of_isDigit hd
      · decide
  have root : IsKept "exports".toList := by decide
  rw [ObjectPath.key_eq_iff hne, hp]
  simp only [List.cons_append, List.mem_cons, List.mem_append, List.not_mem_nil, or_false,
    or_imp, forall_and, forall_eq, root, kept, named, true_and, and_true]

end Session

namespace Site

/-- When links name the stored objects. Whatever is stored is stored for an
accepted export, and found under the key of its path. For all outputs of such an
export, and every base, a link is the base without the slashes at its end, a
slash and that key exactly if no segment of the user is empty or one or two dots,
and user and name have plain characters only. -/
theorem links_name_objects_iff {w₀ w : Site} (untouched : w₀.Untouched)
    (empty : w₀.backend.records = .empty) (run : Reaches (fun _ _ => True) w₀ w) :
    (∀ path content, .put path content ∈ w.deeds →
      (∃ a ∈ w.accepted, IsOutputPath a.id path) ∧
        (w.objects.get? (Utf8.encode (ObjectPath.key path))).isSome = true) ∧
    (∀ a ∈ w.accepted, ∀ path, IsOutputPath a.id path → ∀ f : Files,
      (f.link path = Files.trimmedBase f.linkBase ++ "/" ++ ObjectPath.key path ↔
        (∀ s ∈ pieces '/' a.user.toList, IsKept s) ∧
          ∀ c ∈ a.request.name.toList, isPlain c = true)) ∧
    ∀ base, (∃ n, base.toList = (Files.trimmedBase base).toList ++ List.replicate n '/') ∧
      (Files.trimmedBase base).toList.getLast? ≠ some '/' := by
  obtain ⟨sound, traced⟩ := traced_of_reaches untouched empty run
  have accounted := (accounted_of_untouched untouched).reaches run
  refine ⟨fun path content hd => ⟨traced.files path content hd, sound.kept path content hd⟩,
    fun a ha path output f => ?_, Files.trimmedBase_spec⟩
  obtain ⟨hid, slash⟩ := accounted.ids a ha
  rw [hid] at output
  rw [Files.link_eq_iff, Session.key_output_eq_iff slash output]

/-- The audit's list of links is stored where its link leads, under any base. -/
theorem links_name_objects_iff_audit :
    ∃ w : Site, Reaches (fun _ _ => True) ⟨{}, .empty, [], [], []⟩ w ∧
      auditAccepted ∈ w.accepted ∧ ∀ f : Files,
        f.link "exports/anonymous/audit_1704067200000/manifest.txt" =
          Files.trimmedBase f.linkBase ++ "/" ++
            ObjectPath.key "exports/anonymous/audit_1704067200000/manifest.txt" := by
  obtain ⟨w, s, run, -, -, accepted⟩ := audit_can_finish
  have run' : Reaches (fun _ _ => True) ⟨{}, .empty, [], [], []⟩ w :=
    run.imp fun _ _ _ => trivial
  have mem : auditAccepted ∈ w.accepted := accepted ▸ List.mem_singleton_self _
  obtain ⟨-, links, -⟩ := links_name_objects_iff ⟨rfl, rfl, rfl⟩ rfl run'
  refine ⟨w, run', mem, fun f =>
    (links _ mem _ (.inr rfl) f).2 ⟨?_, List.all_eq_true.1 (by decide)⟩⟩
  intro s hs
  obtain rfl : s = "anonymous".toList := List.mem_singleton.1 hs
  decide

/-- A name beyond ASCII has to be escaped in a key, and is not in a link. -/
example : ObjectPath.key "exports/anonymous/jobé_0/manifest.txt" =
    "exports/anonymous/job%C3%A9_0/manifest.txt" := by decide +kernel

end Site

end LogExport
