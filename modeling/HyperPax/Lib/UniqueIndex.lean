/-
  Lib/UniqueIndex.lean --- records under ids with an index by one of their fields.

  A store keeps records under ids; a second store maps a key of the record to its id.  The
  index is `Linked` if every entry leads to a record with that key.  It is `Exact` if moreover
  every record has its entry; then no two records share a key.
-/
import HyperPax.Lib.KVStore

set_option autoImplicit false

namespace HyperPax.Lib

open KVStore

variable {R : Type} (records : KVStore R) (index : KVStore Key) (key : R → Key)

/-- Every entry of the index leads to a record with its key. -/
def Linked : Prop :=
  ∀ k id, index[k]? = some id → ∃ r, records[id]? = some r ∧ key r = k

/-- The index maps exactly the keys of the records, each to the id of its record. -/
def Exact : Prop :=
  ∀ k id, index[k]? = some id ↔ ∃ r, records[id]? = some r ∧ key r = k

variable {records index key}

namespace Linked

theorem empty : Linked (∅ : KVStore R) ∅ key := by
  intro _ _ h
  simp at h

variable {id : Key}

variable (h : Linked records index key)

include h

theorem insert (hid : records[id]? = none) (r : R) :
    Linked (records.insert id r) (index.insert (key r) id) key := by
  intro k id' hk
  rw [get_insert] at hk
  rw [get_insert]
  split at hk
  · rename_i hkey
    cases hk
    exact ⟨r, if_pos rfl, hkey⟩
  obtain ⟨q, hq, hkey⟩ := h k id' hk
  have hne : id ≠ id' := by
    rintro rfl
    rw [hid] at hq
    cases hq
  exact ⟨q, (if_neg hne).trans hq, hkey⟩

theorem replace {q r : R} (hq : records[id]? = some q) (hkey : key r = key q) :
    Linked (records.insert id r) index key := by
  intro k id' hk
  obtain ⟨q', hq', rfl⟩ := h k id' hk
  rw [get_insert]
  by_cases hid : id = id'
  · subst hid
    rw [hq] at hq'
    cases hq'
    exact ⟨r, if_pos rfl, hkey⟩
  · exact ⟨q', (if_neg hid).trans hq', rfl⟩

theorem erase {r : R} (hr : records[id]? = some r) :
    Linked (records.erase id) (index.erase (key r)) key := by
  intro k id' hk
  rw [get_erase] at hk
  rw [get_erase]
  split at hk
  · cases hk
  rename_i hne
  obtain ⟨q, hq, rfl⟩ := h k id' hk
  have hid : id ≠ id' := by
    rintro rfl
    rw [hr] at hq
    cases hq
    exact hne rfl
  exact ⟨q, (if_neg hid).trans hq, rfl⟩

end Linked

namespace Exact

theorem linked (h : Exact records index key) : Linked records index key :=
  fun k id => (h k id).mp

variable {id : Key} {r : R}

section

variable (h : Exact records index key) (hr : records[id]? = some r)

include h hr

theorem get : index[key r]? = some id :=
  (h _ _).mpr ⟨r, hr, rfl⟩

theorem unique {id' : Key} {q : R} (hq : records[id']? = some q) (hkey : key r = key q) :
    id = id' := by
  have hentry := h.get hr
  rw [hkey, h.get hq] at hentry
  exact (Option.some.inj hentry).symm

end

theorem empty : Exact (∅ : KVStore R) ∅ key := by
  intro _ _
  simp

variable (h : Exact records index key)

include h

theorem insert (hid : records[id]? = none) (hkey : index[key r]? = none) :
    Exact (records.insert id r) (index.insert (key r) id) key := by
  intro k id'
  refine ⟨h.linked.insert hid r k id', ?_⟩
  rintro ⟨q, hq, rfl⟩
  rw [get_insert] at hq ⊢
  split at hq
  · rename_i heq
    cases hq
    rw [if_pos rfl, heq]
  have hentry := h.get hq
  have hne : key r ≠ key q := by
    intro heq
    rw [← heq, hkey] at hentry
    cases hentry
  rw [if_neg hne, hentry]

theorem replace {q : R} (hq : records[id]? = some q) (hkey : key r = key q) :
    Exact (records.insert id r) index key := by
  intro k id'
  refine ⟨h.linked.replace hq hkey k id', ?_⟩
  rintro ⟨_, hq', rfl⟩
  rw [get_insert] at hq'
  split at hq'
  · rename_i heq
    cases hq'
    rw [hkey, h.get hq, heq]
  · exact h.get hq'

theorem erase (hr : records[id]? = some r) :
    Exact (records.erase id) (index.erase (key r)) key := by
  intro k id'
  refine ⟨h.linked.erase hr k id', ?_⟩
  rintro ⟨q, hq, rfl⟩
  rw [get_erase] at hq ⊢
  split at hq
  · cases hq
  rename_i hne
  have hkey : key r ≠ key q := fun heq => hne (h.unique hr hq heq)
  rw [if_neg hkey, h.get hq]

end Exact

end HyperPax.Lib
