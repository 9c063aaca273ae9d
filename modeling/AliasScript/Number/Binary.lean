/-!
# The exact value of a number

Numbers are binary floating-point values of 64 bits. A finite one is, exactly, a sign, a natural
significand and a power of two; this module reads that triple off the bits and writes it back.
Dropping the fraction, the remainder of a division, array positions and 32-bit words are then
computed on integers, so that no rounding takes part in them.
-/

namespace AliasScript

/-- The value `± significand * 2 ^ exponent`. -/
structure Scaled where
  /-- The sign, which zero has too. -/
  negative : Bool
  significand : Nat
  exponent : Int
deriving DecidableEq, Repr

/-- What the bits of a number say. -/
inductive Parts where
  | nan
  | infinite (negative : Bool)
  | finite (value : Scaled)
deriving DecidableEq, Repr

namespace Scaled

/-- The magnitude without its fraction. -/
def floor (s : Scaled) : Nat :=
  if 0 ≤ s.exponent then s.significand <<< s.exponent.toNat
  else s.significand >>> (-s.exponent).toNat

/-- The least natural number that is not below the magnitude. -/
def ceil (s : Scaled) : Nat :=
  if 0 ≤ s.exponent then s.significand <<< s.exponent.toNat
  else (s.significand + ((1 <<< (-s.exponent).toNat) - 1)) >>> (-s.exponent).toNat

/-- The significand that belongs to a smaller exponent. -/
def significandAt (s : Scaled) (exponent : Int) : Nat :=
  s.significand <<< (s.exponent - exponent).toNat

/-- The number with this value. Bits below the least significant place of the format are dropped, so
the result is exact for every value that the format has. -/
def toFloat (s : Scaled) : Float :=
  let signBit := if s.negative then 1 <<< 63 else 0
  if s.significand = 0 then Float.ofBits (UInt64.ofNat signBit)
  else
    let exponent := max (-1074) (s.exponent + (s.significand.log2 : Int) - 52)
    let significand :=
      if exponent ≤ s.exponent then s.significandAt exponent
      else s.significand >>> (exponent - s.exponent).toNat
    let magnitude :=
      if significand < 1 <<< 52 then significand
      else ((exponent + 1075).toNat <<< 52) + (significand - (1 <<< 52))
    Float.ofBits (UInt64.ofNat (signBit + magnitude))

end Scaled

namespace Number

/-- Positive infinity. -/
def infinity : Float :=
  Float.ofBits 0x7FF0000000000000

/-- The value that no other value equals. -/
def notANumber : Float :=
  Float.ofBits 0x7FF8000000000000

/-- The sign, the exponent and the significand of a number, as its bits give them. -/
def parts (x : Float) : Parts :=
  let bits := x.toBits.toNat
  let negative := decide (1 <<< 63 ≤ bits)
  let exponent : Nat := (bits >>> 52) % (1 <<< 11)
  let fraction : Nat := bits % (1 <<< 52)
  if exponent = 2047 then
    if fraction = 0 then .infinite negative else .nan
  else if exponent = 0 then .finite ⟨negative, fraction, -1074⟩
  else .finite ⟨negative, (1 <<< 52) + fraction, (exponent : Int) - 1075⟩

/-- The number without its fraction; the sign stays, also that of a zero. -/
def trunc (x : Float) : Float :=
  match parts x with
  | .finite s => Scaled.toFloat ⟨s.negative, s.floor, 0⟩
  | _ => x

/-- The remainder of a division that goes towards zero. It has the sign of the dividend and is
exact; there is none for an infinite dividend or for the divisor zero. -/
def remainder (x y : Float) : Float :=
  match parts x, parts y with
  | .finite a, .finite b =>
    if b.significand = 0 then notANumber
    else
      let exponent := min a.exponent b.exponent
      Scaled.toFloat ⟨a.negative, a.significandAt exponent % b.significandAt exponent, exponent⟩
  | .finite _, .infinite _ => x
  | _, _ => notANumber

/-- The position that a number names in a sequence of the given length: its fraction is dropped, and
what is left has to be the index of an element. -/
def position? (x : Float) (length : Nat) : Option Nat :=
  match parts x with
  | .finite s =>
    if s.negative ∧ 0 < s.floor then none
    else if s.floor < length then some s.floor else none
  | _ => none

theorem position?_lt {x : Float} {length i : Nat} (h : position? x length = some i) :
    i < length := by
  unfold position? at h
  split at h
  · split at h
    · simp at h
    · split at h
      · next hlt => simpa using (Option.some.inj h) ▸ hlt
      · simp at h
  · simp at h

/-- How many elements a number removes from the end of a sequence of the given length: any number
from zero to the length will do, and its fraction is dropped. -/
def removal? (x : Float) (length : Nat) : Option Nat :=
  match parts x with
  | .finite s =>
    if s.negative ∧ 0 < s.significand then none
    else if s.ceil ≤ length then some s.floor else none
  | _ => none

/-- The 32-bit word nearest to the number without its fraction; zero for the value that is no
number. -/
def word (x : Float) : Int :=
  match parts x with
  | .nan => 0
  | .infinite negative => if negative then Int32.minValue.toInt else Int32.maxValue.toInt
  | .finite s =>
    if s.negative then max Int32.minValue.toInt (-(s.floor : Int))
    else min Int32.maxValue.toInt (s.floor : Int)

/-- Shifts a word to the left. Only the low five bits of the amount count, and bits that leave the
word are lost. -/
def shiftLeft (value amount : Int) : Int :=
  Int.bmod (value * (1 <<< (amount % 32).toNat : Nat)) UInt32.size

/-- Shifts a word to the right, with copies of its sign from the left. Only the low five bits of the
amount count. -/
def shiftRight (value amount : Int) : Int :=
  Int.fdiv value (1 <<< (amount % 32).toNat : Nat)

end Number

end AliasScript
