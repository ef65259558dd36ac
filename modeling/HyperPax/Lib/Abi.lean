/-
  Lib/Abi.lean --- the contract ABI: words, heads and tails.

  Values of contract types are encoded in 32-byte words.  A composite is a row of
  components.  The head of a static component is its encoding; the head of a dynamic
  one is the offset of its tail, counted from the start of the row.  The heads come
  first, the tails after them.

      Ty  Tys            types and rows of types, with their canonical names
      encode  decode     the encoding, and the reader of one

  A reader is given the data from the start of an encoding to the end of the input.
-/
import HyperPax.Lib.Word

set_option autoImplicit false

namespace HyperPax.Lib.Abi

abbrev Bytes : Type := List UInt8

/-! ## Words -/

/-- The low `k` bytes of a number, most significant first. -/
def bigEndian : Nat → Nat → Bytes
  | 0, _ => []
  | k + 1, n => bigEndian k (n / 256) ++ [.ofNat n]

def fromBigEndian (bytes : Bytes) : Nat := bytes.foldl (fun n b => n * 256 + b.toNat) 0

theorem length_bigEndian (k n : Nat) : (bigEndian k n).length = k := by
  induction k generalizing n with
  | zero => rfl
  | succ k ih => rw [bigEndian, List.length_append, ih, List.length_singleton]

theorem fromBigEndian_bigEndian (k n : Nat) : fromBigEndian (bigEndian k n) = n % 256 ^ k := by
  induction k generalizing n with
  | zero => simp [bigEndian, fromBigEndian, Nat.mod_one]
  | succ k ih =>
    have hlast : fromBigEndian (bigEndian k (n / 256) ++ [.ofNat n]) =
        fromBigEndian (bigEndian k (n / 256)) * 256 + n % 256 := by
      simp [fromBigEndian, UInt8.toNat_ofNat']
    rw [bigEndian, hlast, ih, Nat.pow_succ', Nat.mod_mul, Nat.mul_comm, Nat.add_comm]

def word (n : Nat) : Bytes := bigEndian 32 n

@[simp] theorem length_word (n : Nat) : (word n).length = 32 := length_bigEndian 32 n

/-- The first word of some data. -/
def readWord (data : Bytes) : Option Nat :=
  if 32 ≤ data.length then some (fromBigEndian (data.take 32)) else none

/-! ## Types -/

mutual

/-- The types of arguments. -/
inductive Ty where
  | uint (bits : Nat) (le : bits ≤ 256)
  | int (bits : Nat) (le : bits ≤ 256)
  | array (elem : Ty)
  | tuple (fields : Tys)

/-- A row of types; there are no empty structures. -/
inductive Tys where
  | one (t : Ty)
  | cons (t : Ty) (ts : Tys)

end

mutual

/-- The canonical name of a type: a structure is the tuple of its fields. -/
def Ty.name : Ty → String
  | .uint bits _ => "uint" ++ toString bits
  | .int bits _ => "int" ++ toString bits
  | .array elem => elem.name ++ "[]"
  | .tuple fields => "(" ++ fields.names ++ ")"

def Tys.names : Tys → String
  | .one t => t.name
  | .cons t ts => t.name ++ "," ++ ts.names

end

mutual

def Ty.Val : Ty → Type
  | .uint bits _ => Uint bits
  | .int bits _ => Sint bits
  | .array elem => List elem.Val
  | .tuple fields => fields.Val

def Tys.Val : Tys → Type
  | .one t => t.Val
  | .cons t ts => t.Val × ts.Val

end

mutual

def Ty.isDynamic : Ty → Bool
  | .uint _ _ | .int _ _ => false
  | .array _ => true
  | .tuple fields => fields.anyDynamic

def Tys.anyDynamic : Tys → Bool
  | .one t => t.isDynamic
  | .cons t ts => t.isDynamic || ts.anyDynamic

end

mutual

/-- The size of the head of a component in a row. -/
def Ty.headSize : Ty → Nat
  | .uint _ _ | .int _ _ | .array _ => 32
  | .tuple fields => if fields.anyDynamic then 32 else fields.headSizes

def Tys.headSizes : Tys → Nat
  | .one t => t.headSize
  | .cons t ts => t.headSize + ts.headSizes

end

/-! ## Rows -/

/-- A component of a row, encoded. -/
structure Part where
  dynamic : Bool
  body : Bytes

def Part.headLength (p : Part) : Nat := if p.dynamic then 32 else p.body.length

/-- The heads of a row whose next tail is at `off`. -/
def heads : Nat → List Part → Bytes
  | _, [] => []
  | off, p :: ps =>
    if p.dynamic then word off ++ heads (off + p.body.length) ps else p.body ++ heads off ps

def tails : List Part → Bytes
  | [] => []
  | p :: ps => if p.dynamic then p.body ++ tails ps else tails ps

def headLengths (ps : List Part) : Nat := (ps.map Part.headLength).sum

def row (ps : List Part) : Bytes := heads (headLengths ps) ps ++ tails ps

mutual

/-- The encoding of a value. -/
def encode : (t : Ty) → t.Val → Bytes
  | .uint _ _, v => word v.val
  | .int _ _, v => word (v.val % 2 ^ 256).toNat
  | .array elem, vs => word vs.length ++ row (vs.map fun v => ⟨elem.isDynamic, encode elem v⟩)
  | .tuple fields, vs => row (parts fields vs)

def parts : (ts : Tys) → ts.Val → List Part
  | .one t, v => [⟨t.isDynamic, encode t v⟩]
  | .cons t ts, (v, vs) => ⟨t.isDynamic, encode t v⟩ :: parts ts vs

end

/-! ## Reading -/

variable {α : Type}

/-- The component of a row whose head is at `pos`. -/
def component (dynamic : Bool) (dec : Bytes → Option α) (block : Bytes) (pos : Nat) : Option α :=
  if dynamic then (readWord (block.drop pos)).bind fun off => dec (block.drop off)
  else dec (block.drop pos)

/-- A row of `n` components of one type. -/
def decodeElems (dynamic : Bool) (dec : Bytes → Option α) (size : Nat) (block : Bytes) :
    Nat → Nat → Option (List α)
  | 0, _ => some []
  | n + 1, pos =>
    (component dynamic dec block pos).bind fun v =>
      (decodeElems dynamic dec size block n (pos + size)).bind fun vs => some (v :: vs)

mutual

/-- Read a value. -/
def decode : (t : Ty) → Bytes → Option t.Val
  | .uint _ _, data => (readWord data).bind Uint.check
  | .int _ _, data => (readWord data).bind fun n => Sint.check ((n : Int).bmod (2 ^ 256))
  | .array elem, data => (readWord data).bind fun n =>
    decodeElems elem.isDynamic (fun d => decode elem d) elem.headSize (data.drop 32) n 0
  | .tuple fields, data => decodeRow fields data 0

def decodeRow : (ts : Tys) → Bytes → Nat → Option ts.Val
  | .one t, block, pos => component t.isDynamic (fun d => decode t d) block pos
  | .cons t ts, block, pos =>
    (component t.isDynamic (fun d => decode t d) block pos).bind fun v =>
      (decodeRow ts block (pos + t.headSize)).bind fun vs => some (v, vs)

end

end HyperPax.Lib.Abi
