/-
  Lib/Wire.lean --- tagged fields, written from the end of a buffer and read from its start.

  Writing.  An operation on a buffer `Writes` some bytes when it puts them in front of what
  is written, or panics for want of room.  Such operations compose.

  Reading.  A message is seen as the pieces of its fields, a number or a content each.  A
  decoder replaces the piece of a singular field or adds one to a repeated field, and a
  piece it takes up is no longer than the bytes it has read for it.  So a message that is
  still to be completed owes bytes (`owed`), and a decoder that reads forward cannot read
  more of it than there are bytes: `Steps.owed_le`.
-/
import HyperPax.Lib.Varint

set_option autoImplicit false

namespace HyperPax.Lib

open List Function

/-! ## Buffers -/

/-- A buffer and the index of the byte written last. -/
abbrev Buffer : Type := List UInt8 × Int

/-- `i--; data[i] = b`.  Outside the buffer this panics. -/
def putByte (b : UInt8) (buffer : Buffer) : Option Buffer :=
  if 0 ≤ buffer.2 - 1 ∧ buffer.2 - 1 < buffer.1.length then
    some (buffer.1.set (buffer.2 - 1).toNat b, buffer.2 - 1)
  else none

/-- `i -= len(src); copy(data[i:], src)`. -/
def putSlice (src : List UInt8) (buffer : Buffer) : Option Buffer :=
  let i := buffer.2 - src.length
  if 0 ≤ i ∧ i ≤ buffer.1.length then
    some (buffer.1.take i.toNat ++ src.take (buffer.1.length - i.toNat) ++
      buffer.1.drop (i.toNat + src.length), i)
  else none

/-- The lowest group is written first, and each further group before it. -/
def putVarint (v : Nat) (buffer : Buffer) : Option Buffer :=
  if 0x80 ≤ v then (putByte (.ofNat (v % 128 + 128)) buffer).bind (putVarint (v / 128))
  else putByte (.ofNat v) buffer
termination_by v
decreasing_by omega

/-- A loop over a list from its last element to its first. -/
def putEach {α : Type} (put : α → Buffer → Option Buffer) : List α → Buffer → Option Buffer
  | [], buffer => some buffer
  | a :: as, buffer => (putEach put as buffer).bind (put a)

/-- Write into `data[:i]`; the slice shares its bytes with the buffer. -/
def putInside (put : Buffer → Option Buffer) (buffer : Buffer) : Option Buffer :=
  if 0 ≤ buffer.2 ∧ buffer.2 ≤ buffer.1.length then
    (put (buffer.1.take buffer.2.toNat, buffer.2)).map fun inner =>
      (inner.1 ++ buffer.1.drop buffer.2.toNat, inner.2)
  else none

/-- Fill a buffer of `size` zeros from its end and return as many bytes as were written. -/
def fill (size : Nat) (put : Buffer → Option Buffer) : Option (List UInt8) :=
  (put (.replicate size 0, (size : Int))).map fun buffer =>
    buffer.1.take (size - buffer.2).toNat

/-- The operation puts the bytes in front of what is written, or panics for want of room. -/
def Writes (put : Buffer → Option Buffer) (bytes : List UInt8) : Prop :=
  ∀ front tail : List UInt8, put (front ++ tail, (front.length : Int)) =
    if bytes.length ≤ front.length then
      some (front.take (front.length - bytes.length) ++ (bytes ++ tail),
        ((front.length - bytes.length : Nat) : Int))
    else none

namespace Writes

variable {put put' : Buffer → Option Buffer} {bytes bytes' : List UInt8}

theorem nothing : Writes some [] := by
  intro _ _
  simp

theorem bind (h : Writes put bytes) (h' : Writes put' bytes') :
    Writes (fun buffer => (put buffer).bind put') (bytes' ++ bytes) := by
  intro front tail
  dsimp only
  rw [h, length_append]
  by_cases hroom : bytes.length ≤ front.length
  · rw [if_pos hroom, Option.bind_some]
    have hleft : (front.take (front.length - bytes.length)).length =
        front.length - bytes.length := length_take_of_le (Nat.sub_le _ _)
    have hrest := h' (front.take (front.length - bytes.length)) (bytes ++ tail)
    rw [hleft] at hrest
    rw [hrest]
    by_cases hroom' : bytes'.length ≤ front.length - bytes.length
    · rw [if_pos hroom', if_pos (by omega), take_take, Nat.min_eq_left (Nat.sub_le _ _)]
      have hsub : front.length - bytes.length - bytes'.length =
          front.length - (bytes'.length + bytes.length) := by omega
      rw [hsub, append_assoc]
    · rw [if_neg hroom', if_neg (by omega)]
  · rw [if_neg hroom, if_neg (by omega)]
    rfl

theorem putByte (b : UInt8) : Writes (putByte b) [b] := by
  intro front _
  unfold Lib.putByte
  cases front using List.reverseRecOn with
  | nil => rfl
  | append_singleton front x =>
    have hi : ((front ++ [x]).length : Int) - 1 = front.length := by simp
    rw [hi, if_pos (by simp), if_pos (by simp), Int.toNat_natCast]
    simp

theorem putSlice (src : List UInt8) : Writes (putSlice src) src := by
  intro front tail
  unfold Lib.putSlice
  by_cases hroom : src.length ≤ front.length
  · have hi : (front.length : Int) - src.length = (front.length - src.length : Nat) := by omega
    have htake : (front ++ tail).take (front.length - src.length) =
        front.take (front.length - src.length) := by
      rw [take_append_of_le_length (Nat.sub_le _ _)]
    have hdrop : (front ++ tail).drop (front.length - src.length + src.length) = tail := by
      rw [show front.length - src.length + src.length = front.length by omega, drop_left]
    have hsrc : src.take ((front ++ tail).length - (front.length - src.length)) = src := by
      rw [length_append]
      exact take_of_length_le (by omega)
    rw [hi, if_pos hroom, if_pos (by rw [length_append]; omega), Int.toNat_natCast, htake,
      hdrop, hsrc, append_assoc]
  · rw [if_neg (by omega), if_neg hroom]

theorem putVarint (v : Nat) : Writes (putVarint v) (varintBytes v).reverse := by
  induction v using Nat.strongRecOn with
  | ind v ih =>
    by_cases hle : 0x80 ≤ v
    · have hput : Lib.putVarint v = fun buffer =>
          (Lib.putByte (.ofNat (v % 128 + 128)) buffer).bind (Lib.putVarint (v / 128)) := by
        funext buffer
        rw [Lib.putVarint, if_pos hle]
      rw [hput, varintBytes_of_le hle, reverse_cons]
      exact (Writes.putByte _).bind (ih (v / 128) (by omega))
    · have hput : Lib.putVarint v = Lib.putByte (.ofNat v) := by
        funext buffer
        rw [Lib.putVarint, if_neg hle]
      rw [hput, varintBytes_of_lt (not_le.mp hle)]
      exact .putByte _

theorem putEach {α : Type} {put : α → Buffer → Option Buffer} {bytes : α → List UInt8}
    {as : List α} (h : ∀ a ∈ as, Writes (put a) (bytes a)) :
    Writes (putEach put as) (as.flatMap bytes) := by
  induction as with
  | nil => exact nothing
  | cons a _ ih =>
    have hrest := ih fun b hb => h b (mem_cons_of_mem _ hb)
    exact hrest.bind (h a mem_cons_self)

theorem putInside (h : Writes put bytes) : Writes (putInside put) bytes := by
  intro front _
  unfold Lib.putInside
  have hinner := h front []
  rw [append_nil, append_nil] at hinner
  rw [if_pos (by rw [length_append]; omega), Int.toNat_natCast, take_left', drop_left', hinner]
  · split
    · rw [Option.map_some, append_assoc]
    · rfl
  · rfl
  · rfl

theorem fill_eq (h : Writes put bytes) : fill bytes.length put = some bytes := by
  have hput := h (.replicate bytes.length 0) []
  rw [append_nil, length_replicate, if_pos (le_refl _), Nat.sub_self, take_zero,
    nil_append, append_nil] at hput
  rw [fill, hput, Option.map_some]
  simp

theorem fill_eq_none (h : Writes put bytes) {size : Nat} (hsize : size < bytes.length) :
    fill size put = none := by
  have hput := h (.replicate size 0) []
  rw [append_nil, length_replicate, if_neg (not_le.mpr hsize)] at hput
  rw [fill, hput]
  rfl

end Writes

/-! ## Pieces -/

/-- What a field holds once: a number, or a content. -/
inductive Piece where
  | varint (v : Nat)
  | bytes (content : List UInt8)
deriving DecidableEq

namespace Piece

/-- The number written behind the tag: the value, or the length of the content. -/
def number : Piece → Nat
  | varint v => v
  | bytes content => content.length

def content : Piece → List UInt8
  | varint _ => []
  | bytes content => content

def wireType : Piece → Nat
  | varint _ => 0
  | bytes _ => 2

theorem wireType_mem (p : Piece) : p.wireType ∈ [0, 2] := by
  cases p with
  | varint => exact mem_cons_self
  | bytes => exact mem_cons_of_mem _ mem_cons_self

/-- The tag, the number with its groups in reverse, the content. -/
def encode (num : Nat) (p : Piece) : List UInt8 :=
  .ofNat (num * 8 + p.wireType) :: ((varintBytes p.number).reverse ++ p.content)

/-- The number of bytes of a piece. -/
def size (p : Piece) : Nat := 1 + varintSize p.number + p.content.length

@[simp] theorem length_encode (num : Nat) (p : Piece) : (p.encode num).length = p.size := by
  rw [encode, size, length_cons, length_append, length_reverse, length_varintBytes]
  omega

/-- The number takes one group. -/
def Short (p : Piece) : Prop := p.number < 128
deriving Decidable

theorem encode_eq (num : Nat) (p : Piece) :
    ∃ b rest, p.encode num = .ofNat (num * 8 + p.wireType) :: b :: (rest ++ p.content) ∧
      b < 0x80 ∧ (∀ c ∈ rest, ¬ c < 0x80) ∧ rest.length + 1 = varintSize p.number ∧
      (p.Short → b.toNat = p.number ∧ rest = []) := by
  obtain ⟨b, rest, hnumber, hb, hrest⟩ := varintBytes_reverse p.number
  have hlength := congrArg List.length hnumber
  rw [length_reverse, length_varintBytes, length_cons] at hlength
  refine ⟨b, rest, by rw [encode, hnumber]; rfl, hb, hrest, hlength.symm, ?_⟩
  intro hshort
  rw [varintBytes_of_lt hshort] at hnumber
  obtain ⟨rfl, rfl⟩ := List.cons.inj hnumber
  unfold Short at hshort
  rw [UInt8.toNat_ofNat']
  exact ⟨Nat.mod_eq_of_lt (by omega), rfl⟩

theorem sparse_encode_append {limit num : Nat} {p : Piece} {rest : List UInt8}
    (htag : num * 8 + p.wireType < 128) (hcontent : ∀ b ∈ p.content, b < 0x80)
    (hnumber : p.number < 2 ^ (7 * (limit + 1))) (hrest : Sparse limit rest 0) :
    Sparse limit (p.encode num ++ rest) 0 := by
  obtain ⟨b, more, heq, hb, hmore, _, -⟩ := p.encode_eq num
  have hsize := varintSize_le hnumber
  have hbehind : Sparse limit (p.content ++ rest) 0 := by
    cases hc : p.content with
    | nil => exact hrest
    | cons =>
      rw [hc] at hcontent
      exact Sparse.plain_append (cons_ne_nil _ _) hcontent (hrest.mono (Nat.zero_le _))
  have hgroups : Sparse limit (more ++ (p.content ++ rest)) limit :=
    Sparse.append_continued hmore (by omega) hbehind
  have hplain : ∀ c ∈ [.ofNat (num * 8 + p.wireType), b], c < 0x80 := by
    intro _ hc
    rw [mem_cons, mem_singleton] at hc
    cases hc with
    | inl hc =>
      have hbound : UInt8.toNat 0x80 = 128 := rfl
      rw [hc, UInt8.lt_iff_toNat_lt, UInt8.toNat_ofNat']
      omega
    | inr hc => exact hc ▸ hb
  rw [heq]
  have hall := Sparse.plain_append (cons_ne_nil _ _) hplain hgroups
  simpa using hall

end Piece

/-! ## Fields -/

/-- A field: its number, whether it is repeated, and whether a zero or an empty content is left
out. -/
structure Slot where
  num : Nat
  repeated : Bool
  omits : Bool
deriving DecidableEq

namespace Slot

/-- A piece is left out. -/
def Omitted (s : Slot) (p : Piece) : Prop := s.omits ∧ p.number = 0
deriving Decidable

def encode (s : Slot) (p : Piece) : List UInt8 := if s.Omitted p then [] else p.encode s.num

def size (s : Slot) (p : Piece) : Nat := if s.Omitted p then 0 else p.size

@[simp] theorem length_encode (s : Slot) (p : Piece) : (s.encode p).length = s.size p := by
  unfold encode size
  split
  · rfl
  · exact p.length_encode s.num

variable {s : Slot} {p : Piece}

theorem sparse_encode_append {limit : Nat} {rest : List UInt8} (htag : s.num < 16)
    (hcontent : ∀ b ∈ p.content, b < 0x80) (hnumber : p.number < 2 ^ (7 * (limit + 1)))
    (hrest : Sparse limit rest 0) : Sparse limit (s.encode p ++ rest) 0 := by
  unfold encode
  split
  · exact hrest
  refine Piece.sparse_encode_append ?_ hcontent hnumber hrest
  cases p with
  | varint v | bytes content =>
    rw [Piece.wireType]
    omega

theorem size_le (s : Slot) (p : Piece) : s.size p ≤ p.size := by
  unfold size
  split
  · exact Nat.zero_le _
  · exact le_refl _

variable {c : Prop} (homits : s.omits) (hc : c ↔ p.number ≠ 0)

include homits hc

theorem omitted_iff : s.Omitted p ↔ ¬ c := by
  rw [Omitted, hc, not_not]
  exact and_iff_right homits

theorem size_optional [Decidable c] : s.size p = if c then p.size else 0 := by
  rw [size]
  by_cases h : c
  · rw [if_pos h, if_neg fun homit => (omitted_iff homits hc).mp homit h]
  · rw [if_neg h, if_pos ((omitted_iff homits hc).mpr h)]

end Slot

variable {s : Slot} {p : Piece}

theorem Writes.optional (homits : s.omits) {c : Prop} [Decidable c] (hc : c ↔ p.number ≠ 0)
    {put : Buffer → Option Buffer} (h : Writes put (p.encode s.num)) :
    Writes (fun buffer => if c then put buffer else some buffer) (s.encode p) := by
  rw [Slot.encode]
  by_cases hwritten : c
  · simp only [if_pos hwritten]
    rwa [if_neg fun homit => (Slot.omitted_iff homits hc).mp homit hwritten]
  simp only [if_neg hwritten]
  rw [if_pos ((Slot.omitted_iff homits hc).mpr hwritten)]
  exact nothing

/-- The pieces of each field. -/
abbrev View : Type := Nat → List Piece

/-- The bytes of the given fields. -/
def wire (schema : List Slot) (V : View) : List UInt8 :=
  schema.flatMap fun s => (V s.num).flatMap s.encode

theorem length_flatMap_encode (s : Slot) (ps : List Piece) :
    (ps.flatMap s.encode).length = (ps.map s.size).sum := by
  rw [length_flatMap]
  simp only [Slot.length_encode]

/-- Take up a piece: a singular field has it in place of the old one, a repeated one besides. -/
def Slot.absorb (s : Slot) (p : Piece) (V : View) : View :=
  update V s.num (if s.repeated then V s.num ++ [p] else [p])

theorem Slot.absorb_self (s : Slot) (p : Piece) (V : View) :
    s.absorb p V s.num = if s.repeated then V s.num ++ [p] else [p] := update_self _ _ _

theorem Slot.absorb_of_ne {num : Nat} (h : num ≠ s.num) (p : Piece) (V : View) :
    s.absorb p V num = V num := update_of_ne h _ _

theorem View.eq_absorb {V V' : View}
    (hself : V' s.num = if s.repeated then V s.num ++ [p] else [p])
    (hother : ∀ num, num ≠ s.num → V' num = V num) : V' = s.absorb p V := by
  funext num
  by_cases hnum : num = s.num
  · rw [hnum, s.absorb_self]
    exact hself
  · rw [Slot.absorb_of_ne hnum]
    exact hother num hnum

/-! ## Reading forward -/

/-- One iteration over `n` bytes: a field that is not known, or a piece no longer than them. -/
inductive Absorbs (schema : List Slot) (V : View) (n : Nat) : View → Prop where
  | skip (hn : 0 < n) : Absorbs schema V n V
  | read (s : Slot) (p : Piece) (hs : s ∈ schema) (hn : 0 < n) (hsize : s.size p ≤ n) :
    Absorbs schema V n (s.absorb p V)

/-- Iterations over `n` bytes in all. -/
inductive Steps (schema : List Slot) : View → Nat → View → Prop where
  | refl {V : View} : Steps schema V 0 V
  | head {V V' V'' : View} {n k : Nat} : Absorbs schema V n V' → Steps schema V' k V'' →
    Steps schema V (n + k) V''

namespace Steps

variable {schema : List Slot} {V V' V'' : View} {n k : Nat}

theorem single (h : Absorbs schema V n V') : Steps schema V n V' := .head h .refl

theorem trans (h : Steps schema V n V') (h' : Steps schema V' k V'') :
    Steps schema V (n + k) V'' := by
  induction h with
  | refl =>
    rw [Nat.zero_add]
    exact h'
  | head hfirst _ ih =>
    rw [Nat.add_assoc]
    exact .head hfirst (ih h')

end Steps

variable {schema : List Slot} {T V V' : View}

variable {n : Nat} {s : Slot}

theorem Absorbs.isPrefix (hnodup : (schema.map Slot.num).Nodup) (h : Absorbs schema V n V')
    (hs : s ∈ schema) (hrep : s.repeated) : V s.num <+: V' s.num := by
  cases h with
  | skip => exact prefix_refl _
  | read s' _ hs' =>
    by_cases hnum : s.num = s'.num
    · obtain rfl : s = s' := inj_on_of_nodup_map hnodup hs hs' hnum
      rw [s.absorb_self, if_pos hrep]
      exact prefix_append _ _
    · rw [Slot.absorb_of_ne hnum]

theorem Steps.isPrefix (hnodup : (schema.map Slot.num).Nodup) (h : Steps schema V n V')
    (hs : s ∈ schema) (hrep : s.repeated) : V s.num <+: V' s.num := by
  induction h with
  | refl => exact prefix_refl _
  | head hfirst _ ih => exact (hfirst.isPrefix hnodup hs hrep).trans ih

/-- The bytes of the pieces a field still lacks. -/
def Slot.owed (s : Slot) (T V : View) : Nat :=
  if s.repeated then (((T s.num).drop (V s.num).length).map s.size).sum
  else if V s.num = T s.num then 0
  else ((T s.num).map s.size).sum

/-- The bytes of the pieces a message still lacks. -/
def owed (schema : List Slot) (T V : View) : Nat := (schema.map fun s => s.owed T V).sum

theorem owed_self (schema : List Slot) (T : View) : owed schema T T = 0 := by
  refine sum_eq_zero ?_
  intro _ hn
  obtain ⟨_, -, rfl⟩ := mem_map.mp hn
  unfold Slot.owed
  split
  · rw [drop_length]
    rfl
  · exact if_pos rfl

theorem sum_map_le_add {ι κ : Type} (key : ι → κ) {f g : ι → Nat} (a : ι) {l : List ι}
    (hnodup : (l.map key).Nodup) (hother : ∀ b, key b ≠ key a → f b ≤ g b)
    (hsame : ∀ b ∈ l, key b = key a → f b ≤ g b + n) : (l.map f).sum ≤ (l.map g).sum + n := by
  induction l with
  | nil => exact Nat.zero_le _
  | cons b l ih =>
    rw [map_cons, nodup_cons] at hnodup
    simp only [map_cons, sum_cons]
    by_cases hkey : key b = key a
    · have hrest : (l.map f).sum ≤ (l.map g).sum := by
        refine sum_le_sum fun c hc => hother c ?_
        intro hcb
        refine hnodup.1 ?_
        rw [hkey, ← hcb]
        exact mem_map_of_mem hc
      have hhead := hsame b mem_cons_self hkey
      omega
    · have hhead := hother b hkey
      have hrest := ih hnodup.2 fun c hc => hsame c (mem_cons_of_mem _ hc)
      omega

section

variable (hnodup : (schema.map Slot.num).Nodup)

include hnodup

variable {p : Piece}

theorem owed_le_absorb (hs : s ∈ schema) (hlead : s.repeated → s.absorb p V s.num <+: T s.num) :
    owed schema T V ≤ owed schema T (s.absorb p V) + s.size p := by
  refine sum_map_le_add Slot.num s hnodup ?_ ?_
  · intro s' hne
    unfold Slot.owed
    rw [Slot.absorb_of_ne hne]
  intro s' hs' hnum
  obtain rfl : s' = s := inj_on_of_nodup_map hnodup hs' hs hnum
  unfold Slot.owed
  rw [s'.absorb_self]
  by_cases hrep : s'.repeated
  · have hgrown := hlead hrep
    rw [s'.absorb_self, if_pos hrep] at hgrown
    obtain ⟨_, hrest⟩ := hgrown
    simp only [if_pos hrep]
    rw [← hrest, append_assoc, drop_left', ← append_assoc, drop_left']
    · simp only [singleton_append, map_cons, sum_cons]
      omega
    · rfl
    · rfl
  · simp only [if_neg hrep]
    by_cases hdone : [p] = T s'.num
    · rw [if_pos hdone, ← hdone]
      split
      · exact Nat.zero_le _
      · simp
    · rw [if_neg hdone]
      split <;> omega

theorem owed_le_absorb_of_ne (hs : s ∈ schema) (hsing : s.repeated = false)
    (hne : T s.num ≠ [p]) : owed schema T V ≤ owed schema T (s.absorb p V) := by
  refine sum_map_le_add Slot.num s (n := 0) hnodup ?_ ?_
  · intro s' hne
    unfold Slot.owed
    rw [Slot.absorb_of_ne hne]
  intro s' hs' hnum
  obtain rfl : s' = s := inj_on_of_nodup_map hnodup hs' hs hnum
  have hrep : ¬ s'.repeated := by simp [hsing]
  unfold Slot.owed
  rw [s'.absorb_self]
  simp only [if_neg hrep]
  rw [if_neg hne.symm]
  split <;> omega

theorem Steps.owed_le (h : Steps schema V n V')
    (hlead : ∀ s ∈ schema, s.repeated → V' s.num <+: T s.num) :
    owed schema T V ≤ owed schema T V' + n := by
  induction h with
  | refl => exact Nat.le_add_right _ _
  | head hfirst hrest ih =>
    have hle := ih hlead
    cases hfirst with
    | skip => omega
    | read s p hs =>
      have hstep := owed_le_absorb (T := T) hnodup hs (p := p) fun hrep =>
        (hrest.isPrefix hnodup hs hrep).trans (hlead s hs hrep)
      omega

theorem Steps.owed_le_total (h : Steps schema V n T) : owed schema T V ≤ n := by
  have hle := h.owed_le hnodup (T := T) fun _ _ _ => prefix_refl _
  rwa [owed_self, Nat.zero_add] at hle

end

theorem owed_initial (hrep : ∀ s ∈ schema, s.repeated → V s.num = [])
    (hsing : ∀ s ∈ schema, s.repeated = false →
      V s.num = T s.num → (T s.num).flatMap s.encode = []) :
    (wire schema T).length ≤ owed schema T V := by
  rw [wire, length_flatMap, owed]
  refine sum_le_sum fun s hs => ?_
  unfold Slot.owed
  by_cases hr : s.repeated
  · rw [if_pos hr, hrep s hs hr, length_nil, drop_zero, length_flatMap_encode]
  rw [if_neg hr]
  split
  · rename_i hsame
    rw [hsing s hs (by simpa using hr) hsame]
    exact Nat.zero_le _
  · rw [length_flatMap_encode]

end HyperPax.Lib
