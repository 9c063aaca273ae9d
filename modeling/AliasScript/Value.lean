import AliasScript.Program

/-!
# Values

Plain values are what they are. Arrays, functions, classes, instances and references live in a
store, and a value names one of them by its number: two such values are the same exactly if their
numbers are. Numbers are given in the order of creation.
-/

namespace AliasScript

/-- The number of a frame in the store. -/
abbrev FrameId := Nat

/-- The number of a class in the store. -/
abbrev ClassId := Nat

/-- The values of the language. -/
inductive Value where
  | nil
  | bool (value : Bool)
  | num (value : Float)
  | str (value : String)
  | array (id : Nat)
  | function (id : Nat)
  | classValue (id : ClassId)
  | builtin (id : Nat)
  | object (id : Nat)
  /-- An alias. Only a variable holds one, and reading the variable goes on to what it stands for.
  -/
  | reference (id : Nat)
deriving DecidableEq, Repr, Inhabited

namespace Value

/-- Everything but `nil` and `false` counts as true. -/
def isTruthy : Value → Bool
  | nil | bool false => false
  | _ => true

/-- The value of a literal. -/
def ofLiteral : Literal → Value
  | .nil => nil
  | .bool b => bool b
  | .num x => num x
  | .str s => str s

end Value

/-! ### Names bound to things -/

/-- Names, each bound to one thing, in the order in which they were first bound. -/
abbrev Bindings (α : Type) := List (String × α)

namespace Bindings

variable {α : Type}

/-- What a name is bound to. -/
def get? (b : Bindings α) (name : String) : Option α :=
  b.lookup name

/-- Binds a name. A name that is bound already keeps its place. -/
def insert : Bindings α → String → α → Bindings α
  | [], name, a => [(name, a)]
  | (name', a') :: rest, name, a =>
    if name == name' then (name, a) :: rest else (name', a') :: insert rest name a

/-- Binds names one after the other. -/
def ofPairs (pairs : List (String × α)) : Bindings α :=
  pairs.foldl (fun b pair ↦ insert b pair.1 pair.2) []

/-- The bound names. -/
def names (b : Bindings α) : List String :=
  b.map Prod.fst

theorem get?_insert_self (b : Bindings α) (name : String) (a : α) :
    (b.insert name a).get? name = some a := by
  induction b with
  | nil => simp [insert, get?]
  | cons entry rest ih =>
    obtain ⟨name', a'⟩ := entry
    unfold insert
    split
    · simp [get?]
    · next h => simpa [get?, List.lookup_cons, h] using ih

theorem get?_insert_ne (b : Bindings α) {name other : String} (a : α) (h : other ≠ name) :
    (b.insert name a).get? other = b.get? other := by
  have hne : (other == name) = false := by simpa using h
  induction b with
  | nil => simp [insert, get?, List.lookup_cons, hne]
  | cons entry rest ih =>
    obtain ⟨name', a'⟩ := entry
    unfold insert
    split
    · next heq => simp [get?, List.lookup_cons, ← eq_of_beq heq, hne]
    · simp only [get?, List.lookup_cons] at ih ⊢
      rw [ih]

end Bindings

end AliasScript
