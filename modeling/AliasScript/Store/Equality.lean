import AliasScript.Store
import Std.Data.TreeSet

/-!
# Equality of values

Arrays are equal if they are one array, or if they have the same length and equal elements. An array
can contain itself, so two arrays that have been met together once are not compared again: nothing
then speaks against their being equal. What is left to compare is kept in a list, and opening two
arrays puts their elements in front of it; so nesting costs no more than length, and any two arrays
are opened together at most once.

Numbers compare as numbers, so the value that is no number does not equal itself. All other things
in the store are equal to themselves only.
-/

namespace AliasScript

/-- Pairs of arrays, by their numbers. -/
abbrev ArrayPairs := Std.TreeSet (Nat × Nat) lexOrd.compare

/-- How far values can be compared without opening arrays. -/
inductive Comparison where
  /-- Nothing is left to compare. -/
  | settled
  /-- Two values differ. -/
  | differ
  /-- Two arrays have to be opened, and the rest is still to be compared. -/
  | arrays (a b : Nat) (rest : List (Value × Value))

namespace Store

/-- Equality of values that are not both arrays. -/
def equalFlat : Value → Value → Bool
  | .nil, .nil => true
  | .bool a, .bool b => a == b
  | .num a, .num b => a == b
  | .str a, .str b => a == b
  | .function a, .function b => a == b
  | .classValue a, .classValue b => a == b
  | .builtin a, .builtin b => a == b
  | .object a, .object b => a == b
  | .reference a, .reference b => a == b
  | _, _ => false

/-- Compares pairs of values up to the first two arrays that are different ones and have not been
met together. -/
def compareFlat (met : ArrayPairs) : List (Value × Value) → Comparison
  | [] => .settled
  | (.array a, .array b) :: rest =>
    if a == b || met.contains (a, b) then compareFlat met rest else .arrays a b rest
  | (x, y) :: rest => if equalFlat x y then compareFlat met rest else .differ

variable (s : Store)

/-- Whether the pairs of values are equal, where the arrays that have been met together are taken to
be. Opens a bounded number of pairs of arrays. -/
def equalWithin : Nat → ArrayPairs → List (Value × Value) → Bool
  | 0, _, _ => true
  | n + 1, met, pending =>
    match compareFlat met pending with
    | .settled => true
    | .differ => false
    | .arrays a b rest =>
      match s.arrays[a]?, s.arrays[b]? with
      | some xs, some ys =>
        if xs.size = ys.size then
          equalWithin n (met.insert (a, b)) (xs.toList.zip ys.toList ++ rest)
        else false
      | _, _ => false

/-- Equality of values. There are no more pairs of arrays to open than the square of the number of
arrays, so the bound is never met. -/
def equal (x y : Value) : Bool :=
  s.equalWithin (s.arrays.size * s.arrays.size + 1) {} [(x, y)]

end Store

end AliasScript
