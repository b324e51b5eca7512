import LogExport.Store.KeyRange

/-! Finite maps from byte keys, kept in the order of the keys. -/

namespace LogExport

namespace Entries

variable {α : Type}

/-- Strictly rising keys. -/
def Sorted (es : List (Bytes × α)) : Prop := es.Pairwise fun a b => a.1 < b.1

/-- The value under a key. -/
def get? (k : Bytes) (es : List (Bytes × α)) : Option α := (es.find? (·.1 == k)).map (·.2)

/-- Puts a value under a key, in place of the one that is there. -/
def insert (k : Bytes) (v : α) : List (Bytes × α) → List (Bytes × α)
  | [] => [(k, v)]
  | e :: es =>
    if k < e.1 then (k, v) :: e :: es
    else if k = e.1 then (k, v) :: es
    else e :: insert k v es

def erase (k : Bytes) (es : List (Bytes × α)) : List (Bytes × α) := es.filter (·.1 != k)

theorem mem_insert {k : Bytes} {v : α} {x : Bytes × α} {es : List (Bytes × α)} (h : x ∈ insert k v es) :
    x = (k, v) ∨ x ∈ es := by
  induction es with
  | nil => simpa [insert] using h
  | cons e es ih =>
    simp only [insert] at h
    split at h
    · simpa using h
    · split at h
      · rcases List.mem_cons.1 h with h | h
        · exact .inl h
        · exact .inr (List.mem_cons_of_mem _ h)
      · rcases List.mem_cons.1 h with h | h
        · exact .inr (h ▸ List.mem_cons_self)
        · exact (ih h).imp_right (List.mem_cons_of_mem _)

theorem sorted_insert {es : List (Bytes × α)} (h : Sorted es) (k : Bytes) (v : α) :
    Sorted (insert k v es) := by
  induction es with
  | nil => exact List.pairwise_singleton _ _
  | cons e es ih =>
    have ⟨he, hes⟩ := List.pairwise_cons.1 h
    simp only [insert]
    split
    · next hk =>
      refine List.pairwise_cons.2 ⟨fun x hx => ?_, h⟩
      rcases List.mem_cons.1 hx with rfl | hx
      · exact hk
      · exact Std.lt_trans hk (he x hx)
    · split
      · next hk => exact List.pairwise_cons.2 ⟨fun x hx => hk ▸ he x hx, hes⟩
      · next hlt hne =>
        refine List.pairwise_cons.2 ⟨fun x hx => ?_, ih hes⟩
        rcases mem_insert hx with rfl | hx
        · exact (Std.lt_trichotomy k e.1).resolve_left hlt |>.resolve_left hne
        · exact he x hx

theorem sorted_erase {es : List (Bytes × α)} (h : Sorted es) (k : Bytes) : Sorted (erase k es) :=
  List.Pairwise.filter _ h

end Entries

/-- A map as its entries, sorted by key. -/
structure KeyMap (α : Type) where
  entries : List (Bytes × α)
  sorted : Entries.Sorted entries

namespace KeyMap

variable {α : Type}

def empty : KeyMap α := ⟨[], List.Pairwise.nil⟩

instance : Inhabited (KeyMap α) := ⟨empty⟩

def get? (m : KeyMap α) (k : Bytes) : Option α := Entries.get? k m.entries

def insert (m : KeyMap α) (k : Bytes) (v : α) : KeyMap α :=
  ⟨Entries.insert k v m.entries, Entries.sorted_insert m.sorted k v⟩

def erase (m : KeyMap α) (k : Bytes) : KeyMap α :=
  ⟨Entries.erase k m.entries, Entries.sorted_erase m.sorted k⟩

/-- The entries whose keys lie in the range. -/
def within (m : KeyMap α) (range : KeyRange) : List (Bytes × α) :=
  m.entries.filter fun e => range.contains e.1

/-- The entries of a range, if its ends are in order. -/
def scan? (m : KeyMap α) (range : KeyRange) : Option (List (Bytes × α)) :=
  if range.isOrdered then some (m.within range) else none

theorem sorted_within (m : KeyMap α) (range : KeyRange) : Entries.Sorted (m.within range) :=
  List.Pairwise.filter _ m.sorted

end KeyMap

end LogExport
