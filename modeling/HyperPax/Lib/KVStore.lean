/-
  Lib/KVStore.lean --- ordered key-value stores over byte-string keys.

  A module of the chain sees its state as one ordered map from byte strings to
  values: `Get`, `Set`, `Delete` and an iterator over all keys that share a
  given beginning.  The map is `Std.ExtTreeMap`, so two stores with the same
  entries are equal; this file adds the two things that library does not have:

      scan          the prefix iterator, in ascending key order
      weight        the sum of a per-entry measure over the whole store

  The measure rules `weight_erase_add` and `weight_insert` are what every
  "sum of the recorded amounts" argument of the development rests on.
-/
import Mathlib

set_option autoImplicit false

namespace HyperPax.Lib

open List

/-- A store key: a byte string. -/
abbrev Key : Type := List UInt8

/-- An ordered store from byte strings to values of type `V`. -/
abbrev KVStore (V : Type) : Type := Std.ExtTreeMap Key V

namespace KVStore

variable {V A : Type} {k pre a : Key} {store : KVStore V} {v : V} {f g : Key → V → Nat}

/-- The prefix iterator: every entry whose key starts with `pre`, in ascending
key order. -/
def scan (store : KVStore V) (pre : Key) : List (Key × V) :=
  store.toList.filter fun kv => pre.isPrefixOf kv.1

theorem get_insert (store : KVStore V) (k a : Key) (v : V) :
    (store.insert k v)[a]? = if k = a then some v else store[a]? := by
  rw [Std.ExtTreeMap.getElem?_insert]
  simp only [Std.compare_eq_iff_eq]

theorem get_erase (store : KVStore V) (k a : Key) :
    (store.erase k)[a]? = if k = a then none else store[a]? := by
  rw [Std.ExtTreeMap.getElem?_erase]
  simp only [Std.compare_eq_iff_eq]

theorem get_insert_of_ne (store : KVStore V) (v : V) (h : k ≠ a) :
    (store.insert k v)[a]? = store[a]? := by
  simp [get_insert, h]

theorem get_erase_of_ne (store : KVStore V) (h : k ≠ a) : (store.erase k)[a]? = store[a]? := by
  simp [get_erase, h]

theorem mem_toList_iff : (k, v) ∈ store.toList ↔ store[k]? = some v :=
  Std.ExtTreeMap.mem_toList_iff_getElem?_eq_some

theorem mem_scan_iff : (k, v) ∈ store.scan pre ↔ store[k]? = some v ∧ pre <+: k := by
  rw [scan, mem_filter, mem_toList_iff, isPrefixOf_iff_prefix]

theorem nodup_keys (store : KVStore V) : (store.toList.map Prod.fst).Nodup := by
  rw [List.Nodup, pairwise_map]
  refine Std.ExtTreeMap.distinct_keys_toList.imp ?_
  intro _ _ hne heq
  exact hne (Std.compare_eq_iff_eq.mpr heq)

theorem nodup_toList (store : KVStore V) : store.toList.Nodup :=
  List.Nodup.of_map _ store.nodup_keys

theorem nodup_scan_keys (store : KVStore V) (pre : Key) : ((store.scan pre).map Prod.fst).Nodup :=
  store.nodup_keys.sublist (filter_sublist.map _)

theorem pairwise_scan (store : KVStore V) (pre : Key) :
    (store.scan pre).Pairwise fun a b => compare a.1 b.1 = .lt :=
  Std.ExtTreeMap.ordered_keys_toList.sublist filter_sublist

theorem compare_append_left (pre a b : Key) : compare (pre ++ a) (pre ++ b) = compare a b := by
  induction pre with
  | nil => rfl
  | cons _ _ ih =>
    rw [cons_append, cons_append, List.compare_cons_cons, Std.compare_self, ih]
    rfl

theorem nodup_map_filterMap_scan (store : KVStore V) (pre : Key) (decode : Key × V → Option A)
    (key : A → Key) (h : ∀ kv ∈ store.scan pre, ∀ a, decode kv = some a → key a = kv.1) :
    (((store.scan pre).filterMap decode).map key).Nodup := by
  refine (store.nodup_scan_keys pre).sublist ?_
  generalize store.scan pre = entries at h ⊢
  induction entries with
  | nil => exact List.Sublist.refl _
  | cons kv _ ih =>
    have ih := ih fun kv' hkv' => h kv' (mem_cons_of_mem _ hkv')
    cases hkv : decode kv with
    | none =>
      rw [filterMap_cons_none hkv, map_cons]
      exact ih.cons _
    | some a =>
      rw [filterMap_cons_some hkv, map_cons, map_cons, h kv mem_cons_self a hkv]
      exact ih.cons_cons _

theorem toList_empty : (∅ : KVStore V).toList = [] := by
  refine eq_nil_iff_forall_not_mem.mpr ?_
  rintro ⟨_, _⟩ hkv
  rw [mem_toList_iff] at hkv
  simp at hkv

@[simp] theorem scan_empty (pre : Key) : (∅ : KVStore V).scan pre = [] := by
  simp [scan, toList_empty]

/-! ## The measure of a store -/

/-- The sum of `f key value` over every entry. -/
def weight (f : Key → V → Nat) (store : KVStore V) : Nat :=
  (store.toList.map fun kv => f kv.1 kv.2).sum

@[simp] theorem weight_empty (f : Key → V → Nat) : weight f (∅ : KVStore V) = 0 := by
  simp [weight, toList_empty]

theorem toList_perm_of_get (h : store[k]? = some v) :
    store.toList.Perm ((k, v) :: (store.erase k).toList) := by
  have hnot : (k, v) ∉ (store.erase k).toList := by
    rw [mem_toList_iff]
    simp
  refine (perm_ext_iff_of_nodup store.nodup_toList (nodup_cons.mpr ⟨hnot, nodup_toList _⟩)).mpr ?_
  rintro ⟨a, _⟩
  rw [mem_cons, mem_toList_iff, mem_toList_iff, get_erase]
  by_cases hk : k = a
  · subst hk
    simp [h, eq_comm]
  · simp [hk, Ne.symm hk]

theorem toList_perm_of_get_none (h : store[k]? = none) :
    store.toList.Perm (store.erase k).toList := by
  refine (perm_ext_iff_of_nodup store.nodup_toList (nodup_toList _)).mpr ?_
  rintro ⟨a, _⟩
  rw [mem_toList_iff, mem_toList_iff, get_erase]
  by_cases hk : k = a
  · subst hk
    simp [h]
  · simp [hk]

theorem weight_erase_add (f : Key → V → Nat) (store : KVStore V) (k : Key) :
    weight f (store.erase k) + (store[k]?).elim 0 (f k) = weight f store := by
  cases h : store[k]? with
  | none =>
    have hperm := toList_perm_of_get_none h
    exact ((hperm.map _).sum_eq).symm
  | some =>
    have hperm := (toList_perm_of_get h).map fun kv : Key × V => f kv.1 kv.2
    have hsum := hperm.sum_eq
    simp only [map_cons, sum_cons] at hsum
    simp only [weight, Option.elim_some]
    omega

theorem weight_insert (f : Key → V → Nat) (store : KVStore V) (k : Key) (v : V) :
    weight f (store.insert k v) = weight f (store.erase k) + f k v := by
  have hsame : (store.insert k v).erase k = store.erase k := by
    refine Std.ExtTreeMap.ext_getElem? ?_
    intro a
    rw [get_erase, get_erase, get_insert]
    by_cases hk : k = a <;> simp [hk]
  have h := weight_erase_add f (store.insert k v) k
  rw [hsame, Std.ExtTreeMap.getElem?_insert_self, Option.elim_some] at h
  omega

theorem weight_mono (h : ∀ k v, store[k]? = some v → f k v ≤ g k v) :
    weight f store ≤ weight g store := by
  refine sum_le_sum fun kv hkv => ?_
  exact h kv.1 kv.2 (mem_toList_iff.mp hkv)

theorem weight_congr (h : ∀ k v, store[k]? = some v → f k v = g k v) :
    weight f store = weight g store :=
  Nat.le_antisymm (weight_mono fun k v hv => (h k v hv).le)
    (weight_mono fun k v hv => (h k v hv).ge)

theorem weight_change (hget : store[k]? = some v)
    (h : ∀ a w, a ≠ k → store[a]? = some w → f a w = g a w) :
    weight f store + g k v = weight g store + f k v := by
  have hrest : weight f (store.erase k) = weight g (store.erase k) := by
    refine weight_congr fun a w ha => ?_
    rw [get_erase] at ha
    split at ha
    · cases ha
    · rename_i hne
      exact h a w (.symm hne) ha
  have hf := weight_erase_add f store k
  have hg := weight_erase_add g store k
  rw [hget, Option.elim_some] at hf hg
  omega

theorem weight_erase_of_zero (h : ∀ v, f k v = 0) (store : KVStore V) :
    weight f (store.erase k) = weight f store := by
  have hadd := weight_erase_add f store k
  cases hv : store[k]? with
  | none => simpa [hv] using hadd
  | some v => simpa [hv, h v] using hadd

theorem weight_insert_of_zero (h : ∀ v, f k v = 0) (store : KVStore V) (v : V) :
    weight f (store.insert k v) = weight f store := by
  rw [weight_insert, h v, weight_erase_of_zero h, Nat.add_zero]

theorem sum_scan_filterMap (store : KVStore V) (pre : Key) (g : V → Option A) (f : A → Nat) :
    (((store.scan pre).filterMap fun kv => g kv.2).map f).sum =
      weight (fun k v => if pre <+: k then (g v).elim 0 f else 0) store := by
  unfold scan weight
  induction store.toList with
  | nil => rfl
  | cons kv _ ih =>
    by_cases hp : pre <+: kv.1
    · have hp' := isPrefixOf_iff_prefix.mpr hp
      cases hg : g kv.2 with
      | none | some a => simpa [hp, hp', hg] using ih
    have hp' : pre.isPrefixOf kv.1 = false := by
      rw [Bool.eq_false_iff, ne_eq, isPrefixOf_iff_prefix]
      exact hp
    simpa [hp, hp'] using ih

theorem length_scan (store : KVStore V) (pre : Key) :
    (store.scan pre).length = weight (fun k _ => if pre <+: k then 1 else 0) store := by
  have hsum := sum_scan_filterMap store pre some fun _ => 1
  simpa [Function.comp_def] using hsum

theorem length_scan_insert_le (store : KVStore V) (pre k : Key) (v : V) :
    (scan (store.insert k v) pre).length ≤
      (store.scan pre).length + if pre <+: k then 1 else 0 := by
  have herase := weight_erase_add (fun k _ => if pre <+: k then 1 else 0) store k
  rw [length_scan, length_scan, weight_insert]
  omega

theorem length_scan_erase (h : store[k]? = some v) (pre : Key) :
    (scan (store.erase k) pre).length + (if pre <+: k then 1 else 0) = (store.scan pre).length := by
  have herase := weight_erase_add (fun k _ => if pre <+: k then 1 else 0) store k
  rw [h, Option.elim_some] at herase
  rw [length_scan, length_scan]
  exact herase

theorem length_scan_erase_le (store : KVStore V) (pre k : Key) :
    (scan (store.erase k) pre).length ≤ (store.scan pre).length := by
  have herase := weight_erase_add (fun k _ => if pre <+: k then 1 else 0) store k
  rw [length_scan, length_scan]
  omega

theorem length_scan_insert_of_get {w : V} (h : store[k]? = some w) (pre : Key) (v : V) :
    (scan (store.insert k v) pre).length = (store.scan pre).length := by
  have herase := weight_erase_add (fun k _ => if pre <+: k then 1 else 0) store k
  rw [h, Option.elim_some] at herase
  rw [length_scan, length_scan, weight_insert]
  exact herase

theorem length_scan_insert_of_not (store : KVStore V) (v : V) (h : ¬ pre <+: k) :
    (scan (store.insert k v) pre).length = (store.scan pre).length := by
  rw [length_scan, length_scan, weight_insert_of_zero fun _ => if_neg h]

theorem length_scan_erase_of_not (store : KVStore V) (h : ¬ pre <+: k) :
    (scan (store.erase k) pre).length = (store.scan pre).length := by
  rw [length_scan, length_scan, weight_erase_of_zero fun _ => if_neg h]

theorem weight_le_of_injection (φ : Key → V → Key × V)
    (hmem : ∀ k v, store[k]? = some v → f k v ≠ 0 →
      store[(φ k v).1]? = some (φ k v).2 ∧ f k v ≤ g (φ k v).1 (φ k v).2)
    (hinj : ∀ k v k' v', store[k]? = some v → store[k']? = some v' → f k v ≠ 0 → f k' v' ≠ 0 →
      φ k v = φ k' v' → k = k') : weight f store ≤ weight g store := by
  classical
  -- both sums are sums over the finite set of entries
  have hset : ∀ h : Key → V → Nat,
      weight h store = ∑ kv ∈ store.toList.toFinset, h kv.1 kv.2 := by
    intro _
    rw [sum_toFinset _ store.nodup_toList, weight]
  rw [hset f, hset g]
  let S := store.toList.toFinset.filter fun kv => f kv.1 kv.2 ≠ 0
  have hS : ∀ kv ∈ S, store[kv.1]? = some kv.2 ∧ f kv.1 kv.2 ≠ 0 := by
    intro kv hkv
    obtain ⟨hin, hne⟩ := Finset.mem_filter.mp hkv
    exact ⟨mem_toList_iff.mp (mem_toFinset.mp hin), hne⟩
  have hinjS : Set.InjOn (fun kv : Key × V => φ kv.1 kv.2) S := by
    intro a ha b hb hab
    obtain ⟨ha1, ha2⟩ := hS a ha
    obtain ⟨hb1, hb2⟩ := hS b hb
    have hk : a.1 = b.1 := hinj _ _ _ _ ha1 hb1 ha2 hb2 hab
    have hv : a.2 = b.2 := by
      rw [hk, hb1] at ha1
      exact (Option.some.inj ha1).symm
    exact Prod.ext hk hv
  calc ∑ kv ∈ store.toList.toFinset, f kv.1 kv.2
      = ∑ kv ∈ S, f kv.1 kv.2 := (Finset.sum_filter_ne_zero _).symm
    _ ≤ ∑ kv ∈ S, g (φ kv.1 kv.2).1 (φ kv.1 kv.2).2 := by
        refine Finset.sum_le_sum ?_
        intro kv hkv
        obtain ⟨h1, h2⟩ := hS kv hkv
        exact (hmem _ _ h1 h2).2
    _ = ∑ kv ∈ S.image (fun kv => φ kv.1 kv.2), g kv.1 kv.2 :=
        (Finset.sum_image (f := fun kv => g kv.1 kv.2) hinjS).symm
    _ ≤ ∑ kv ∈ store.toList.toFinset, g kv.1 kv.2 := by
        refine Finset.sum_le_sum_of_subset ?_
        intro _ hkv
        obtain ⟨a, ha, rfl⟩ := Finset.mem_image.mp hkv
        obtain ⟨h1, h2⟩ := hS a ha
        exact mem_toFinset.mpr (mem_toList_iff.mpr (hmem _ _ h1 h2).1)

end KVStore

end HyperPax.Lib
