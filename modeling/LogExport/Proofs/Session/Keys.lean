import LogExport.Proofs.Store.Records
import LogExport.Proofs.Text.Utf8

/-! The keys of sessions mirror their ids: they are read back as these, stand in their
order, and are the keys of the range that is scanned for sessions, but for those that hold
no string. The key of the lock is apart from them. -/

namespace LogExport

theorem RecordType.ofId_eq_ok_iff {b : UInt8} {t : RecordType} :
    RecordType.ofId b = .ok t ↔ t.id = b := by
  cases t <;> grind [RecordType.ofId, RecordType.id]

namespace SessionKey

variable {k : Bytes} {id : String}

/-- An id is read from its own key only. -/
theorem decode_eq_ok_iff : decode k = .ok id ↔ encode id = k := by
  constructor
  · intro h
    -- Of all checks only the last can pass and give an id.
    fun_cases decode k with
    | case3 t rest typed s read =>
      obtain rfl := RecordType.ofId_eq_ok_iff.1 typed
      obtain rfl : s = id := by simpa [decode, typed, read] using h
      exact congrArg (head ++ ·) (Utf8.encode_of_decode? read)
    | _ => simp_all [decode]
  · rintro rfl
    exact decode_encode id

/-- The keys that hold a string, within the range of sessions. -/
theorem decodes_iff : (∃ id, decode k = .ok id) ↔
    range.contains k = true ∧ ByteArray.IsValidUTF8 ⟨(k.drop 2).toArray⟩ := by
  simp only [decode_eq_ok_iff, Utf8.isValid_iff]
  constructor
  · rintro ⟨id, rfl⟩
    exact ⟨contains_encode id, id, rfl⟩
  · rintro ⟨contains, id, rest⟩
    obtain ⟨bs, rfl⟩ := KeyRange.contains_startingWith.1 contains
    exact ⟨id, congrArg (head ++ ·) rest⟩

/-- Keys are in the order of the bytes of the ids. -/
theorem encode_lt_iff {a b : String} : encode a < encode b ↔ Utf8.encode a < Utf8.encode b :=
  Utf8.append_lt_append_iff head

theorem not_contains_lock : range.contains lock = false := by decide

/-- Keys mirror ids:
(a) an id is read back from its key;
(b) a key is read exactly if it is in the range of sessions and valid UTF-8 from the third
byte on, and then it is the key of the id that is read;
(c) keys stand in the order of the bytes of the ids, which is that of their characters;
(d) the key of the lock is not in the range, is not read, and is the key of no id. -/
theorem keys_mirror_ids :
    (∀ id, decode (encode id) = .ok id) ∧
    ((∀ k, (∃ id, decode k = .ok id) ↔
        range.contains k = true ∧ ByteArray.IsValidUTF8 ⟨(k.drop 2).toArray⟩) ∧
      ∀ k id, decode k = .ok id ↔ encode id = k) ∧
    (∀ a b, (encode a < encode b ↔ Utf8.encode a < Utf8.encode b) ∧
      (encode a < encode b ↔ a < b)) ∧
    range.contains lock = false ∧ decode lock = .error .notSessionKey ∧
      ∀ id, encode id ≠ lock := by
  refine ⟨decode_encode, ⟨fun k => decodes_iff, fun k id => decode_eq_ok_iff⟩, fun a b => ?_,
    not_contains_lock, rfl, encode_ne_lock⟩
  exact ⟨encode_lt_iff, encode_lt_iff.trans Utf8.encode_lt_iff⟩

end SessionKey

end LogExport
