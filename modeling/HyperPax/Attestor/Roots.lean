/-
  Attestor/Roots.lean --- the registry of trusted roots.

  Source: x/attestor/keeper/roots.go (SetFamilyRoots), x/attestor/types/msgs.go (ValidateBasic),
  precompiles/teeattestor/handlers.go (handleRootOf, handleRootCount).
-/
import HyperPax.Attestor.Verify
import HyperPax.Attestor.Wire

set_option autoImplicit false

namespace HyperPax.Attestor

open Lib KVStore

/-- The errors of `ValidateBasic`. -/
inductive UpdateError where
  | invalidAddress
  | unknownFamily (family : UInt32)
  | emptyRoot (i : Nat)
deriving DecidableEq

/-- `ValidateBasic`; whether the authority is an address is a parameter. -/
def MsgUpdateTEERoots.validateBasic (isAddress : List UInt8 → Bool) (msg : MsgUpdateTEERoots) :
    Except UpdateError Unit :=
  if isAddress msg.authority then
    if familyMax.toUInt32 < msg.family then .error (.unknownFamily msg.family)
    else match msg.roots.findIdx? (·.length = 0) with
      | some i => .error (.emptyRoot i)
      | none => .ok ()
  else .error .invalidAddress

/-- An accepted update: its family is known and its roots are not empty.  They fit a block, which
is far smaller than `2^32` bytes. -/
structure RootUpdate where
  family : UInt8
  roots : List (List UInt8)
  family_le : ¬ familyMax < family
  ne_nil : ∀ root ∈ roots, root ≠ []
  length_lt : roots.length < 2 ^ 32

theorem MsgUpdateTEERoots.validateBasic_ok {isAddress : List UInt8 → Bool}
    {msg : MsgUpdateTEERoots} (h : msg.validateBasic isAddress = .ok ()) :
    ¬ familyMax < msg.family.toUInt8 ∧ ∀ root ∈ msg.roots, root ≠ [] := by
  unfold validateBasic at h
  split_ifs at h with haddress hfamily
  refine ⟨?_, ?_⟩
  · have hle : msg.family.toNat ≤ familyMax.toNat := by
      have hnot := mt UInt32.lt_iff_toNat_lt.mpr hfamily
      rw [UInt8.toNat_toUInt32] at hnot
      exact not_lt.mp hnot
    rw [UInt8.lt_iff_toNat_lt, UInt32.toNat_toUInt8]
    exact not_lt.mpr ((Nat.mod_le _ _).trans hle)
  · split at h
    · cases h
    rename_i hnone
    rw [List.findIdx?_eq_none_iff] at hnone
    intro root hroot hempty
    simpa [hempty] using hnone root hroot

/-- The update of an accepted message, with `FamilyByte`. -/
def MsgUpdateTEERoots.update {isAddress : List UInt8 → Bool} (msg : MsgUpdateTEERoots)
    (h : msg.validateBasic isAddress = .ok ()) (hlength : msg.roots.length < 2 ^ 32) : RootUpdate :=
  ⟨msg.family.toUInt8, msg.roots, (validateBasic_ok h).1, (validateBasic_ok h).2, hlength⟩

/-- The loop that writes the roots. -/
def writeRoots (family : UInt8) (roots : List (List UInt8)) (store : Store) : Store :=
  roots.zipIdx.foldl (fun store r => store.insert (rootKey family (.ofNat r.2)) (.root r.1)) store

/-- `SetFamilyRoots`: the records under the prefix of the family are deleted, then the new ones
and their number are written.  `none` is `ErrUnknownFamily`. -/
def setFamilyRoots (store : Store) (family : UInt8) (roots : List (List UInt8)) : Option Store :=
  if familyMax < family then none
  else
    let oldKeys := (store.scan [0x01, family]).map Prod.fst
    let cleared := oldKeys.foldl (fun store key => store.erase key) store
    some ((writeRoots family roots cleared).insert (rootCountKey family)
      (.count (.ofNat roots.length)))

/-- `handleRootOf`: the index has to fit `uint64` and is narrowed to `uint32`. -/
def handleRootOf (store : Store) (family : UInt8) (index : Nat) : Except String (List UInt8) :=
  if index < 2 ^ 64 then .ok ((rootOf store family (.ofNat index)).getD [])
  else .error "rootOf: index out of uint64 range"

/-- `handleRootCount`. -/
def handleRootCount (store : Store) (family : UInt8) : Nat := (rootCount store family).toNat

/-- The roots that were set last. -/
def lastRoots (updates : List RootUpdate) (family : UInt8) : List (List UInt8) :=
  updates.foldl (fun roots u => if u.family = family then u.roots else roots) []

/-- The keeper reads these roots, and no others, for the family. -/
structure Holds (store : Store) (family : UInt8) (roots : List (List UInt8)) : Prop where
  root : ∀ i : UInt32, rootOf store family i = roots[i.toNat]?
  count : rootCount store family = .ofNat roots.length
  ne_nil : ∀ root ∈ roots, root ≠ []
  length_lt : roots.length < 2 ^ 32

variable {store : Store} {family : UInt8} {roots : List (List UInt8)}

theorem rootKey_inj {family' : UInt8} {i i' : UInt32} :
    rootKey family i = rootKey family' i' ↔ family = family' ∧ i = i' := by
  refine ⟨fun h => ?_, fun ⟨hf, hi⟩ => by rw [hf, hi]⟩
  rw [rootKey, rootKey, List.cons_inj_right, List.cons.injEq] at h
  have hi := congrArg Abi.fromBigEndian h.2
  rw [Abi.fromBigEndian_bigEndian, Abi.fromBigEndian_bigEndian,
    show 256 ^ 4 = 2 ^ 32 from rfl, Nat.mod_eq_of_lt i.toNat_lt, Nat.mod_eq_of_lt i'.toNat_lt] at hi
  exact ⟨h.1, UInt32.toNat_inj.mp hi⟩

theorem get_foldl_erase (keys : List Key) (store : Store) (k : Key) :
    (keys.foldl (fun store key => store.erase key) store)[k]? =
      if k ∈ keys then none else store[k]? := by
  induction keys generalizing store with
  | nil => rfl
  | cons key keys ih =>
    rw [List.foldl_cons, ih, get_erase]
    grind

theorem get_cleared (store : Store) (pre k : Key) :
    (((store.scan pre).map Prod.fst).foldl (fun store key => store.erase key) store)[k]? =
      if pre <+: k then none else store[k]? := by
  rw [get_foldl_erase]
  by_cases hmem : k ∈ (store.scan pre).map Prod.fst
  · obtain ⟨⟨_, v⟩, hscan, rfl⟩ := List.mem_map.mp hmem
    rw [if_pos hmem, if_pos (mem_scan_iff.mp hscan).2]
  rw [if_neg hmem]
  split_ifs with hpre
  · cases hget : store[k]? with
    | none => rfl
    | some v => exact absurd (List.mem_map_of_mem (mem_scan_iff.mpr ⟨hget, hpre⟩)) hmem
  · rfl

theorem writeRoots_concat (root : List UInt8) : writeRoots family (roots ++ [root]) store =
      (writeRoots family roots store).insert (rootKey family (.ofNat roots.length))
        (.root root) := by
  rw [writeRoots, List.zipIdx_append, List.foldl_append, Nat.zero_add]
  rfl

theorem get_writeRoots_of_ne {k : Key} (hk : ∀ i, rootKey family i ≠ k) :
    (writeRoots family roots store)[k]? = store[k]? := by
  induction roots using List.reverseRecOn with
  | nil => rfl
  | append_singleton roots root ih => rw [writeRoots_concat, get_insert_of_ne _ _ (hk _), ih]

theorem get_writeRoots (hlen : roots.length ≤ 2 ^ 32) (i : UInt32) :
    (writeRoots family roots store)[rootKey family i]? =
      (roots[i.toNat]?.map .root).or store[rootKey family i]? := by
  induction roots using List.reverseRecOn with
  | nil => rfl
  | append_singleton roots root ih =>
    rw [List.length_append, List.length_singleton] at hlen
    have hindex : UInt32.ofNat roots.length = i ↔ roots.length = i.toNat := by
      rw [← UInt32.toNat_inj, UInt32.toNat_ofNat_of_lt' hlen]
    rw [writeRoots_concat, get_insert, ih (by omega)]
    split_ifs with hkey
    · rw [← hindex.mp (rootKey_inj.mp hkey).2, List.getElem?_concat_length]
      rfl
    have hne : roots.length ≠ i.toNat := fun h => hkey (rootKey_inj.mpr ⟨rfl, hindex.mpr h⟩)
    rw [List.getElem?_append]
    grind

theorem setFamilyRoots_holds {roots : UInt8 → List (List UInt8)} (u : RootUpdate)
    (h : ∀ family, Holds store family (roots family)) : ∃ store',
      setFamilyRoots store u.family u.roots = some store' ∧
      ∀ family, Holds store' family (if u.family = family then u.roots else roots family) := by
  refine ⟨_, if_neg u.family_le, fun family => ?_⟩
  split_ifs with hfamily
  · subst hfamily
    refine ⟨fun i => ?_, ?_, u.ne_nil, u.length_lt⟩
    · rw [rootOf, if_neg u.family_le, get_insert_of_ne _ _ (by simp [rootCountKey, rootKey]),
        get_writeRoots u.length_lt.le, get_cleared, if_pos (by simp [rootKey]), Option.or_none]
      cases u.roots[i.toNat]? <;> rfl
    · rw [rootCount, if_neg u.family_le, get_insert, if_pos rfl]
      rfl
  refine ⟨fun i => ?_, ?_, (h family).ne_nil, (h family).length_lt⟩
  · have hpre : ¬ [0x01, u.family] <+: rootKey family i := by simp [rootKey, hfamily]
    rw [rootOf, get_insert_of_ne _ _ (by simp [rootCountKey, rootKey]),
      get_writeRoots_of_ne fun j hj => hfamily (rootKey_inj.mp hj).1, get_cleared, if_neg hpre]
    exact (h family).root i
  have hpre : ¬ [0x01, u.family] <+: rootCountKey family := by simp [rootCountKey]
  rw [rootCount, get_insert_of_ne _ _ (by simp [rootCountKey, hfamily]),
    get_writeRoots_of_ne (by simp [rootCountKey, rootKey]), get_cleared, if_neg hpre]
  exact (h family).count

theorem foldlM_setFamilyRoots_holds {roots : UInt8 → List (List UInt8)}
    (updates : List RootUpdate) (h : ∀ family, Holds store family (roots family)) : ∃ store',
      updates.foldlM (fun store u => setFamilyRoots store u.family u.roots) store = some store' ∧
      ∀ family, Holds store' family (updates.foldl
        (fun roots u => if u.family = family then u.roots else roots) (roots family)) := by
  induction updates generalizing store roots with
  | nil => exact ⟨store, rfl, h⟩
  | cons u updates ih =>
    obtain ⟨next, hnext, hholds⟩ := setFamilyRoots_holds u h
    obtain ⟨store', hrun, hlast⟩ := ih hholds
    refine ⟨store', ?_, hlast⟩
    rw [List.foldlM_cons, hnext]
    exact hrun

theorem filterMap_range_eq_take {f : Nat → Option (List UInt8)} {n : Nat} (hn : n ≤ roots.length)
    (hf : ∀ i < n, f i = roots[i]?) : (List.range n).filterMap f = roots.take n := by
  induction n with
  | zero => rfl
  | succ n ih =>
    rw [List.range_succ, List.filterMap_append, ih (by omega) fun i hi => hf i (by omega),
      List.take_add_one]
    simp [hf n (by omega), List.getElem?_eq_getElem hn]

theorem Holds.answers (h : Holds store family roots) :
    handleRootCount store family = roots.length ∧ rootsForFamily store family = roots ∧
      ∀ index, handleRootOf store family index = .ok (roots.getD index []) ↔
        index < 2 ^ 64 ∧ (index < 2 ^ 32 ∨ roots.length ≤ index % 2 ^ 32) := by
  have hlen := h.length_lt
  have hcount : (rootCount store family).toNat = roots.length := by
    rw [h.count, UInt32.toNat_ofNat_of_lt' hlen]
  refine ⟨hcount, ?_, fun index => ?_⟩
  · rw [rootsForFamily, hcount, filterMap_range_eq_take le_rfl fun i hi => ?_, List.take_length]
    rw [h.root, UInt32.toNat_ofNat_of_lt' (hi.trans hlen)]
  have hmod : (UInt32.ofNat index).toNat = index % 2 ^ 32 := UInt32.toNat_ofNat
  rw [handleRootOf, h.root, hmod, List.getD_eq_getElem?_getD]
  split_ifs with hindex
  · rw [Except.ok.injEq, and_iff_right hindex]
    refine ⟨fun heq => ?_, fun hright => ?_⟩
    · -- A root under the low bits of a larger index is an answer, and not the empty one.
      by_contra hwrong
      rw [not_or, not_lt, not_le] at hwrong
      rw [List.getElem?_eq_getElem hwrong.2, List.getElem?_eq_none (by omega)] at heq
      exact h.ne_nil _ (List.getElem_mem hwrong.2) heq
    · rcases hright with hlt | hle
      · rw [Nat.mod_eq_of_lt hlt]
      · have := Nat.mod_le index (2 ^ 32)
        rw [List.getElem?_eq_none hle, List.getElem?_eq_none (by omega)]
  · exact iff_of_false (by simp) fun h => hindex h.1

/-- The registry answers as it should exactly for the indices that fit 64 bits and whose low 32
bits are the index itself or no index of a root. -/
theorem roots_registered_iff (updates : List RootUpdate) (family : UInt8) :
    ∃ store, updates.foldlM (fun store u => setFamilyRoots store u.family u.roots) ∅ = some store ∧
      handleRootCount store family = (lastRoots updates family).length ∧
      rootsForFamily store family = lastRoots updates family ∧
      ∀ index, handleRootOf store family index = .ok ((lastRoots updates family).getD index []) ↔
        index < 2 ^ 64 ∧ (index < 2 ^ 32 ∨ (lastRoots updates family).length ≤ index % 2 ^ 32) := by
  have hempty : ∀ family, Holds ∅ family [] := fun family =>
    ⟨fun i => by simp [rootOf], by simp [rootCount], by simp, by simp⟩
  obtain ⟨store, hrun, hholds⟩ := foldlM_setFamilyRoots_holds updates hempty
  exact ⟨store, hrun, (hholds family).answers⟩

/-- A root for each of two families, by two messages. -/
theorem two_families_registered :
    let isAddress : List UInt8 → Bool := fun authority => authority = [0x70]
    let tdx := @MsgUpdateTEERoots.update isAddress ⟨[0x70], 0, [[7]]⟩ rfl (by decide)
    let sev := @MsgUpdateTEERoots.update isAddress ⟨[0x70], 1, [[8], [9]]⟩ rfl
      (by decide)
    lastRoots [tdx, sev] familyIntelTDX = [[7]] ∧
      ∃ store, [tdx, sev].foldlM (fun store u => setFamilyRoots store u.family u.roots) ∅ =
          some store ∧ handleRootCount store familyIntelTDX = 1 ∧
        rootsForFamily store familyIntelTDX = [[7]] := by
  intro isAddress tdx sev
  obtain ⟨store, hrun, hcount, hroots, -⟩ := roots_registered_iff [tdx, sev] familyIntelTDX
  exact ⟨rfl, store, hrun, hcount, hroots⟩

/-- One root, of one byte, is also found under the index `2^32`. -/
theorem rootOf_narrowed : (setFamilyRoots ∅ familyIntelTDX [[7]]).map
      (fun store => handleRootOf store familyIntelTDX (2 ^ 32)) = some (.ok [7]) := by
  decide +kernel

end HyperPax.Attestor
