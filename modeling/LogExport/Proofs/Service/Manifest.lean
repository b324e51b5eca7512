import LogExport.Proofs.Service.Completion
import LogExport.Proofs.Service.Coverage
import LogExport.Proofs.Session.LinkList

/-! When the list of an export's links can be read line by line. -/

namespace LogExport

namespace Site

variable {w₀ w : Site}

/-- When the list of an export that has finished can be read line by line. The
files of all its parts and the list were stored. Whatever was stored as the list,
by whichever service, gives a line for each part, newest first, with the link to
its file, and an empty rest, exactly if there is no part, or no line break in the
base of the links, in the user and in the name. -/
theorem manifest_lists_parts_iff {a : Acceptance} {s : Session} (untouched : w₀.Untouched)
    (rooted : w₀.backend.records.shelf.Rooted)
    (free : w₀.backend.records.get? (SessionKey.encode a.id) = none)
    (run : Reaches (fun _ _ => True) w₀ w) (only : w.under a.id = [a])
    (found : w.backend.records.shelf.session a.id = some s) (finished : s.status = .finish) :
    ∃ ps, s.parts? = some ps ∧ ps.length = s.partCount ∧
      ps.Pairwise (fun p q => q.stop ≤ p.start) ∧
      (∀ p ∈ ps, w.Stored (p.pathUnder s.pathRoot)) ∧ w.Stored s.manifestPath ∧
      ∀ content, .put s.manifestPath content ∈ w.deeds →
        ∃ base ∈ w.linkBases, ∃ text, content = .ofBytes (Utf8.encode text) ∧
          (ListsParts base s.pathRoot ps text ↔
            s.partCount = 0 ∨ '\n' ∉ base.toList ∧ '\n' ∉ a.user.toList ∧
              '\n' ∉ a.request.name.toList) := by
  have single : (w.under a.id).length ≤ 1 := by rw [only]; exact le_rfl
  have run' := newIds_of_under untouched free run single
  have sound₀ : w₀.Sound {a.id} := by
    refine sound_of_untouched untouched rooted ?_
    rintro _ rfl
    simp only [KeyMap.shelf, free, Option.bind_none]
  have sound := sound₀.reaches run'
  have listings := (listings_of_untouched untouched).reaches sound₀ run'
  have hmem : a ∈ w.accepted := (List.mem_filter.1 (only ▸ List.mem_singleton_self a)).1
  have hid := (((accounted_of_untouched untouched).reaches run).ids a hmem).1
  obtain ⟨full, ps, _, laidOut, put⟩ := sound.account.finish a.id rfl s found finished
  obtain ⟨-, hroot⟩ := sound.account.own a.id s found
  have settled := KeyMap.settled_of_shelf found
  refine ⟨ps, laidOut.parts, laidOut.length,
    newest_first_of_partitions? settled.start.2 settled.stop.2 laidOut.parts,
    sound.parts_stored rfl found full laidOut, sound.stored put, fun content hd => ?_⟩
  obtain ⟨base, hbase, rfl⟩ := listings.lists sound rfl found laidOut hd
  refine ⟨base, hbase, _, rfl, ?_⟩
  rw [hroot, hid, Session.listsParts_iff_of_root, ← laidOut.length, List.length_eq_zero_iff]

/-- The list of the audit can be read, whatever base without line breaks its
links have. -/
theorem manifest_lists_parts_iff_audit :
    ∃ w s ps, Reaches (fun _ _ => True) ⟨{}, .empty, [], [], []⟩ w ∧
      w.backend.records.shelf.session auditAccepted.id = some s ∧ s.status = .finish ∧
      ps.length = s.partCount ∧ w.Stored s.manifestPath ∧
      ∀ content, .put s.manifestPath content ∈ w.deeds →
        ∃ base ∈ w.linkBases, ∃ text, content = .ofBytes (Utf8.encode text) ∧
          ('\n' ∉ base.toList → ListsParts base s.pathRoot ps text) := by
  obtain ⟨w, s, run, found, finished, accepted⟩ := audit_can_finish
  have run' : Reaches (fun _ _ => True) ⟨{}, .empty, [], [], []⟩ w :=
    run.imp fun _ _ _ => trivial
  have only : w.under auditAccepted.id = [auditAccepted] := by
    rw [under, accepted]
    rfl
  obtain ⟨ps, -, length, -, -, stored, lists⟩ :=
    manifest_lists_parts_iff ⟨rfl, rfl, rfl⟩ (fun _ _ h => by cases h) rfl run' only found finished
  refine ⟨w, s, ps, run', found, finished, length, stored, fun content hd => ?_⟩
  obtain ⟨base, hbase, text, hc, readable⟩ := lists content hd
  exact ⟨base, hbase, text, hc, fun plain => readable.2 (.inr ⟨plain, by decide, by decide⟩)⟩

end Site

end LogExport
