/-
  Lib/Hex.lean --- hexadecimal texts.

  A text may have its letters small or in capitals, digit by digit; the reader takes both.

      encode  decode     the digits of bytes, and the bytes that digits begin with
      toHex  fromHex     the same behind `0x`
-/
import Mathlib

set_option autoImplicit false

namespace HyperPax.Lib.Hex

/-- The digit of a number below 16. -/
def digit (capital : Bool) (n : Nat) : UInt8 :=
  .ofNat (n + if n < 10 then 0x30 else if capital then 0x37 else 0x57)

def fromHexChar (c : UInt8) : Option Nat :=
  if 0x30 ≤ c ∧ c ≤ 0x39 then some (c.toNat - 0x30)
  else if 0x61 ≤ c ∧ c ≤ 0x66 then some (c.toNat - 0x57)
  else if 0x41 ≤ c ∧ c ≤ 0x46 then some (c.toNat - 0x37)
  else none

/-- `capital i` tells whether digit `i` is a capital. -/
def encode : (Nat → Bool) → List UInt8 → List UInt8
  | _, [] => []
  | capital, b :: bytes => digit (capital 0) (b.toNat / 16) :: digit (capital 1) (b.toNat % 16) ::
      encode (fun i => capital (i + 2)) bytes

/-- The bytes before the first digit that is none. -/
def decode : List UInt8 → List UInt8
  | c :: c' :: text =>
    match fromHexChar c, fromHexChar c' with
    | some n, some n' => .ofNat (16 * n + n') :: decode text
    | _, _ => []
  | _ => []

def toHex (capital : Nat → Bool) (bytes : List UInt8) : List UInt8 :=
  0x30 :: 0x78 :: encode capital bytes

/-- The text without `0x` or `0X`. -/
def strip : List UInt8 → List UInt8
  | 0x30 :: 0x78 :: text | 0x30 :: 0x58 :: text => text
  | text => text

/-- A text of odd length has a zero in front. -/
def fromHex (text : List UInt8) : List UInt8 :=
  if (strip text).length % 2 = 1 then decode (0x30 :: strip text) else decode (strip text)

theorem fromHexChar_digit : ∀ capital, ∀ n < 16, fromHexChar (digit capital n) = some n := by
  decide +kernel

variable (capital : Nat → Bool) (bytes : List UInt8)

theorem decode_encode : decode (encode capital bytes) = bytes := by
  induction bytes generalizing capital with
  | nil => rfl
  | cons b bytes ih =>
    have hlt := b.toNat_lt
    have hhigh := fromHexChar_digit (capital 0) (b.toNat / 16) (by omega)
    have hlow := fromHexChar_digit (capital 1) (b.toNat % 16) (by omega)
    simp [encode, decode, hhigh, hlow, ih, Nat.div_add_mod]

theorem length_encode : (encode capital bytes).length = 2 * bytes.length := by
  induction bytes generalizing capital with
  | nil => rfl
  | cons b bytes ih => simp only [encode, List.length_cons, ih, Nat.mul_add]

@[simp] theorem fromHex_toHex : fromHex (toHex capital bytes) = bytes := by
  have heven : (strip (toHex capital bytes)).length % 2 ≠ 1 := by
    simp only [toHex, strip, length_encode]
    omega
  rw [fromHex, if_neg heven]
  exact decode_encode capital bytes

end HyperPax.Lib.Hex
