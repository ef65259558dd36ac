/-
  Lib/OwnerIndex.lean --- a secondary index from owners to ids, in a byte-keyed store.

  The record of an id is found under the id; its owner is indexed by a marker at

      tag | owner | be8(id)

  All owners have the same number of bytes, so that the markers of one owner are the keys
  with the beginning `tag | owner`, and among them the byte order is that of the ids.
  `OwnerIndex` says that the markers are those of a given assignment of owners to ids; it is
  kept by writing and erasing a marker together with the assignment, and it determines what
  the prefix iterators yield.
-/
import HyperPax.Lib.KVStore
import HyperPax.Base.Address

set_option autoImplicit false

namespace HyperPax.Lib

open Function List KVStore

/-! ## Keys -/

/-- `tag | owner`. -/
def ownerPrefix (tag : UInt8) (owner : List UInt8) : Key := tag :: owner

/-- `tag | owner | be8(id)`. -/
def ownerKey (tag : UInt8) (owner : List UInt8) (id : UInt64) : Key :=
  tag :: (owner ++ putUint64 id)

variable {V : Type} (store : KVStore V) (tag : UInt8) (owner : List UInt8) (id : UInt64)

theorem tag_isPrefix_ownerKey : [tag] <+: ownerKey tag owner id := ⟨_, rfl⟩

theorem tag_isPrefix_ownerPrefix : [tag] <+: ownerPrefix tag owner := ⟨_, rfl⟩

section

variable {tag : UInt8} {a b : List UInt8} {id id' : UInt64}

theorem ownerKey_inj : ownerKey tag a id = ownerKey tag b id' ↔ a = b ∧ id = id' := by
  constructor
  · intro h
    have htail : a ++ putUint64 id = b ++ putUint64 id' := (List.cons.inj h).2
    obtain ⟨hab, hids⟩ := append_inj' htail (by simp)
    exact ⟨hab, putUint64_inj.mp hids⟩
  · rintro ⟨rfl, rfl⟩
    rfl

theorem ownerPrefix_isPrefix_iff (hlength : a.length = b.length) :
    ownerPrefix tag a <+: ownerKey tag b id ↔ b = a := by
  constructor
  · rintro ⟨rest, hrest⟩
    have htail : a ++ rest = b ++ putUint64 id := (List.cons.inj hrest).2
    exact (append_inj htail hlength).1.symm
  · rintro rfl
    exact ⟨putUint64 id, rfl⟩

theorem putUint64_isSuffix_iff : putUint64 id <:+ ownerKey tag a id' ↔ id = id' := by
  constructor
  · rintro ⟨front, hfront⟩
    have happend : front ++ putUint64 id = (tag :: a) ++ putUint64 id' := hfront
    exact putUint64_inj.mp (append_inj' happend (by simp)).2
  · rintro rfl
    exact ⟨tag :: a, rfl⟩

end

/-! ## The index -/

theorem owners_update {R : Type} {get get' : UInt64 → Option R} {id : UInt64} {r : Option R}
    (h : ∀ i, get' i = if id = i then r else get i) (owner : R → List UInt8) :
    (fun i => (get' i).map owner) = update (fun i => (get i).map owner) id (r.map owner) := by
  funext i
  rw [h, update_apply]
  by_cases hi : id = i
  · rw [if_pos hi, if_pos hi.symm]
  · rw [if_neg hi, if_neg (Ne.symm hi)]

/-- The markers under `tag` are those of the assignment, whose owners have `width` bytes. -/
structure OwnerIndex (width : Nat) (tag : UInt8) (marker : V)
    (owner : UInt64 → Option (List UInt8)) (store : KVStore V) : Prop where
  owner_length : ∀ id a, owner id = some a → a.length = width
  marked : ∀ id a, owner id = some a → store[ownerKey tag a id]? = some marker
  entry : ∀ key v, store[key]? = some v → [tag] <+: key →
    v = marker ∧ ∃ id a, owner id = some a ∧ key = ownerKey tag a id

namespace OwnerIndex

variable {width : Nat} {tag : UInt8} {marker : V} {owner : UInt64 → Option (List UInt8)}
  {store : KVStore V}

theorem unmarked (h : ∀ key v, store[key]? = some v → ¬ [tag] <+: key) :
    OwnerIndex width tag marker (fun _ => none) store where
  owner_length _ _ ha := by cases ha
  marked _ _ ha := by cases ha
  entry key v hget hpre := absurd hpre (h key v hget)

variable (h : OwnerIndex width tag marker owner store)

include h

theorem of_get {store' : KVStore V} (hsame : ∀ key, [tag] <+: key → store'[key]? = store[key]?) :
    OwnerIndex width tag marker owner store' := by
  refine ⟨h.owner_length, ?_, ?_⟩
  · intro id a ha
    rw [hsame _ (tag_isPrefix_ownerKey tag a id)]
    exact h.marked id a ha
  · intro key v hget hpre
    rw [hsame key hpre] at hget
    exact h.entry key v hget hpre

variable {key : Key} {a : List UInt8}

theorem insert_other (v : V) (hkey : ¬ [tag] <+: key) :
    OwnerIndex width tag marker owner (store.insert key v) :=
  h.of_get fun _ hpre => get_insert_of_ne _ _ fun heq => hkey (heq ▸ hpre)

theorem erase_other (hkey : ¬ [tag] <+: key) :
    OwnerIndex width tag marker owner (store.erase key) :=
  h.of_get fun _ hpre => get_erase_of_ne _ fun heq => hkey (heq ▸ hpre)

theorem insert (id : UInt64) (hlength : a.length = width) (hfree : ∀ b, owner id = some b → b = a) :
    OwnerIndex width tag marker (update owner id (some a))
      (store.insert (ownerKey tag a id) marker) := by
  refine ⟨?_, ?_, ?_⟩
  · intro id' b hb
    rw [update_apply] at hb
    split at hb
    · cases hb
      exact hlength
    · exact h.owner_length id' b hb
  · intro id' b hb
    rw [update_apply] at hb
    rw [get_insert]
    split at hb
    · rename_i hid
      cases hb
      rw [if_pos (ownerKey_inj.mpr ⟨rfl, hid.symm⟩)]
    · rename_i hid
      rw [if_neg fun heq => hid (ownerKey_inj.mp heq).2.symm]
      exact h.marked id' b hb
  · intro key v hget hpre
    rw [get_insert] at hget
    split at hget
    · rename_i hkey
      cases hget
      exact ⟨rfl, id, a, update_self _ _ _, hkey.symm⟩
    obtain ⟨hv, id', b, hb, rfl⟩ := h.entry key v hget hpre
    refine ⟨hv, id', b, ?_, rfl⟩
    rw [update_apply]
    split
    · rename_i hid
      subst hid
      rw [hfree b hb]
    · exact hb

/-- The marker of an owned id is erased. -/
theorem erase (id : UInt64) (ha : owner id = some a) :
    OwnerIndex width tag marker (update owner id none) (store.erase (ownerKey tag a id)) := by
  refine ⟨?_, ?_, ?_⟩
  · intro id' b hb
    rw [update_apply] at hb
    split at hb
    · cases hb
    · exact h.owner_length id' b hb
  · intro id' b hb
    rw [update_apply] at hb
    split at hb
    · cases hb
    rename_i hid
    rw [get_erase, if_neg fun heq => hid (ownerKey_inj.mp heq).2.symm]
    exact h.marked id' b hb
  intro key v hget hpre
  rw [get_erase] at hget
  split at hget
  · cases hget
  rename_i hkey
  obtain ⟨hv, id', b, hb, rfl⟩ := h.entry key v hget hpre
  refine ⟨hv, id', b, ?_, rfl⟩
  rw [update_apply, if_neg]
  · exact hb
  -- the id's only marker is the one that went
  rintro rfl
  rw [ha] at hb
  cases hb
  exact hkey rfl

end OwnerIndex

/-! ## Entries of an id -/

/-- The entries under a tag whose key ends in the id. -/
def entriesOf (store : KVStore V) (tag : UInt8) (id : UInt64) : List (Key × V) :=
  (store.scan [tag]).filter fun kv => putUint64 id <:+ kv.1

theorem mem_entriesOf {store : KVStore V} {tag : UInt8} {id : UInt64} {key : Key} {v : V} :
    (key, v) ∈ entriesOf store tag id ↔
      store[key]? = some v ∧ [tag] <+: key ∧ putUint64 id <:+ key := by
  rw [entriesOf, mem_filter, mem_scan_iff, decide_eq_true_eq, and_assoc]

theorem nodup_entriesOf : (entriesOf store tag id).Nodup :=
  (store.nodup_toList.sublist filter_sublist).sublist filter_sublist

namespace OwnerIndex

variable {width : Nat} {tag : UInt8} {marker : V} {owner : UInt64 → Option (List UInt8)}
  {store : KVStore V}

variable (h : OwnerIndex width tag marker owner store)

include h

variable {id : UInt64}

theorem mem_entriesOf_iff {key : Key} {v : V} : (key, v) ∈ entriesOf store tag id ↔
      ∃ a, owner id = some a ∧ key = ownerKey tag a id ∧ v = marker := by
  rw [mem_entriesOf]
  constructor
  · rintro ⟨hget, hpre, hid⟩
    obtain ⟨hv, _, a, ha, rfl⟩ := h.entry key v hget hpre
    obtain rfl := putUint64_isSuffix_iff.mp hid
    exact ⟨a, ha, rfl, hv⟩
  · rintro ⟨a, ha, rfl, rfl⟩
    exact ⟨h.marked id a ha, tag_isPrefix_ownerKey tag a id, putUint64_isSuffix_iff.mpr rfl⟩

theorem entriesOf_some {a : List UInt8} (ha : owner id = some a) :
    entriesOf store tag id = [(ownerKey tag a id, marker)] := by
  refine perm_singleton.mp
    ((perm_ext_iff_of_nodup (nodup_entriesOf store tag id) (by simp)).mpr ?_)
  rintro ⟨_, _⟩
  rw [h.mem_entriesOf_iff, mem_singleton, Prod.mk.injEq]
  constructor
  · rintro ⟨_, hb, hkey, hv⟩
    rw [ha] at hb
    cases hb
    exact ⟨hkey, hv⟩
  · rintro ⟨hkey, hv⟩
    exact ⟨a, ha, hkey, hv⟩

theorem entriesOf_none (hid : owner id = none) : entriesOf store tag id = [] := by
  refine eq_nil_iff_forall_not_mem.mpr ?_
  rintro ⟨_, _⟩ hmem
  obtain ⟨_, ha, -, -⟩ := h.mem_entriesOf_iff.mp hmem
  rw [hid] at ha
  cases ha

end OwnerIndex

/-! ## Ids of an owner -/

/-- The ids that follow the first `n` bytes in the keys with the given beginning. -/
def idsAfter (store : KVStore V) (pre : Key) (n : Nat) : List UInt64 :=
  (store.scan pre).filterMap fun kv =>
    if kv.1.length < n + 8 then none
    else some (getUint64 ((kv.1.drop n).take 8))

theorem id_of_ownerKey (a : List UInt8) (id : UInt64) :
    (if (ownerKey tag a id).length < 1 + a.length + 8 then none
      else some (getUint64 (((ownerKey tag a id).drop (1 + a.length)).take 8))) = some id := by
  have hdrop : (ownerKey tag a id).drop (1 + a.length) = putUint64 id := by
    rw [ownerKey, Nat.add_comm]
    simp
  have hlength : ¬ (ownerKey tag a id).length < 1 + a.length + 8 := by
    simp [ownerKey]
    omega
  rw [if_neg hlength, hdrop, take_of_length_le (by simp), getUint64_putUint64]

namespace OwnerIndex

variable {width : Nat} {tag : UInt8} {marker : V} {owner : UInt64 → Option (List UInt8)}
  {store : KVStore V} {a : List UInt8}

variable (h : OwnerIndex width tag marker owner store) (ha : a.length = width)

include h ha

theorem mem_scan_iff {key : Key} {v : V} : (key, v) ∈ store.scan (ownerPrefix tag a) ↔
      ∃ id, owner id = some a ∧ key = ownerKey tag a id ∧ v = marker := by
  rw [KVStore.mem_scan_iff]
  constructor
  · rintro ⟨hget, hpre⟩
    obtain ⟨hv, id, b, hb, rfl⟩ :=
      h.entry key v hget ((tag_isPrefix_ownerPrefix tag a).trans hpre)
    have hlength : a.length = b.length := by rw [ha, h.owner_length id b hb]
    obtain rfl := (ownerPrefix_isPrefix_iff hlength).mp hpre
    exact ⟨id, hb, rfl, hv⟩
  · rintro ⟨id, hid, rfl, rfl⟩
    exact ⟨h.marked id a hid, (ownerPrefix_isPrefix_iff rfl).mpr rfl⟩

theorem mem_idsAfter (id : UInt64) : id ∈ idsAfter store (ownerPrefix tag a) (1 + a.length) ↔
      owner id = some a := by
  rw [idsAfter, mem_filterMap]
  constructor
  · rintro ⟨⟨_, _⟩, hmem, hid⟩
    obtain ⟨_, hid', rfl, -⟩ := (h.mem_scan_iff ha).mp hmem
    rw [id_of_ownerKey] at hid
    rw [← Option.some.inj hid]
    exact hid'
  · intro hid
    exact ⟨(ownerKey tag a id, marker), (h.mem_scan_iff ha).mpr ⟨id, hid, rfl, rfl⟩,
      id_of_ownerKey tag a id⟩

theorem pairwise_idsAfter :
    (idsAfter store (ownerPrefix tag a) (1 + a.length)).Pairwise (· < ·) := by
  rw [idsAfter, pairwise_filterMap]
  refine (store.pairwise_scan (ownerPrefix tag a)).imp_of_mem ?_
  rintro ⟨_, _⟩ ⟨_, _⟩ hmem hmem' hlt _ hid _ hid'
  obtain ⟨i, -, rfl, -⟩ := (h.mem_scan_iff ha).mp hmem
  obtain ⟨i', -, rfl, -⟩ := (h.mem_scan_iff ha).mp hmem'
  rw [id_of_ownerKey] at hid hid'
  rw [← Option.some.inj hid, ← Option.some.inj hid']
  have hids : compare (putUint64 i) (putUint64 i') = .lt := by
    rw [← hlt]
    exact (compare_append_left (tag :: a) _ _).symm
  exact lt_of_compare_putUint64 hids

end OwnerIndex

theorem succ_le_of_ofNat_lt {n : Nat} {max : UInt32} (hle : n ≤ max.toNat)
    (h : UInt32.ofNat n < max) : n + 1 ≤ max.toNat := by
  rw [UInt32.lt_iff_toNat_lt, UInt32.toNat_ofNat',
    Nat.mod_eq_of_lt (lt_of_le_of_lt hle max.toNat_lt)] at h
  exact h

theorem length_idsAfter_le (pre : Key) (n : Nat) :
    (idsAfter store pre n).length ≤ (store.scan pre).length :=
  length_filterMap_le _ _

end HyperPax.Lib
