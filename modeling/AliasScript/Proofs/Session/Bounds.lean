import AliasScript.Proofs.Evaluation.Arity
import AliasScript.Proofs.Number.Truncated
import AliasScript.Proofs.Session.History

/-!
# Nothing is out of bounds

What is called is called with as many arguments as it takes, in every run of every accepted program
and on every way to it (`exacting`): a call, a getter, a getter of a superclass, and the initializer
that a class runs for its new instance.

An array is read and written inside of its bounds, and no more is removed from it than there is.
Which element a number names is said by its exact value alone; any other number, be it negative, too
large, infinite or none at all, is a fault, and a fault changes nothing. This does not depend on how
the state came about (`Machine.Bounded`).
-/

namespace AliasScript

/-! ### Arrays -/

namespace Machine

/-- The machine with other elements in an array. -/
def withArray (m : Machine) (id : Nat) (xs : Array Value) : Machine :=
  { m with store := { m.store with arrays := m.store.arrays.setIfInBounds id xs } }

/-- The machine with one more array. -/
def withNewArray (m : Machine) (xs : Array Value) : Machine :=
  { m with store := (m.store.addArray xs).2 }

/-- **The array is used inside of its bounds, and a fault changes nothing.** -/
structure Bounded (m : Machine) (id : Nat) (xs : Array Value) : Prop where
  /-- A number that names an element reads it. -/
  read : ∀ bracket x i, Number.CutsTo x i → ∀ h : i < xs.size,
    Evaluator.element bracket (.array id) (.num x) m = .ok xs[i] m
  readOutside : ∀ bracket x, (∀ i < xs.size, ¬ Number.CutsTo x i) →
    Evaluator.element bracket (.array id) (.num x) m = .error (.fault ⟨bracket, .indexOutOfRange⟩) m
  /-- A number that names an element replaces it. -/
  write : ∀ bracket x i v, Number.CutsTo x i → ∀ h : i < xs.size,
    Evaluator.setElement bracket (.array id) (.num x) v m = .ok () (m.withArray id (xs.set i v h))
  writeOutside : ∀ bracket x v, (∀ i < xs.size, ¬ Number.CutsTo x i) →
    Evaluator.setElement bracket (.array id) (.num x) v m =
      .error (.fault ⟨bracket, .indexOutOfRange⟩) m
  /-- Only numbers name elements, or how many to remove. -/
  notNumber : ∀ token w v, (∀ x, w ≠ .num x) →
    Evaluator.element token (.array id) w m = .error (.fault ⟨token, .indexNotNumber⟩) m ∧
      Evaluator.setElement token (.array id) w v m = .error (.fault ⟨token, .indexNotNumber⟩) m ∧
      Evaluator.difference token (.array id) w m = .error (.fault ⟨token, .differenceOperands⟩) m
  /-- A value from zero to the size leaves a prefix, as a new array. -/
  remove : ∀ operator x q, Number.value? x = some q → 0 ≤ q → q ≤ xs.size →
    ∃ kept : Nat, kept + ⌊q⌋₊ = xs.size ∧
      Evaluator.difference operator (.array id) (.num x) m =
        .ok (.array m.store.arrays.size) (m.withNewArray (xs.extract 0 kept))
  removeOutside : ∀ operator x, (∀ q, Number.value? x = some q → ¬ (0 ≤ q ∧ q ≤ xs.size)) →
    Evaluator.difference operator (.array id) (.num x) m =
      .error (.fault ⟨operator, .removal x xs.size⟩) m

end Machine

section Arrays

variable {m : Machine} {id : Nat} {xs : Array Value} (hxs : m.store.arrays[id]? = some xs)

include hxs

theorem Run.elements_eq : Run.elements id m = .ok xs m := by
  simp only [elements, bind, EStateM.bind, read, hxs]
  rfl

namespace Evaluator

theorem position_of_some (bracket : Token) {x : Float} {i : Nat}
    (h : Number.position? x xs.size = some i) :
    position bracket (.array id) (.num x) m = .ok (id, i) m := by
  simp only [position, bind, EStateM.bind, Run.elements_eq hxs, h]
  rfl

theorem position_of_none (bracket : Token) {x : Float} (h : Number.position? x xs.size = none) :
    position bracket (.array id) (.num x) m = .error (.fault ⟨bracket, .indexOutOfRange⟩) m := by
  simp only [position, bind, EStateM.bind, Run.elements_eq hxs, h]
  rfl

theorem position_of_ne_num (bracket : Token) {w : Value} (h : ∀ x, w ≠ .num x) :
    position bracket (.array id) w m = .error (.fault ⟨bracket, .indexNotNumber⟩) m := by
  simp only [position, bind, EStateM.bind, Run.elements_eq hxs]
  cases w with
  | num x => exact absurd rfl (h x)
  | _ => rfl

theorem element_of_some (bracket : Token) {x : Float} {i : Nat}
    (h : Number.position? x xs.size = some i) (hi : i < xs.size) :
    element bracket (.array id) (.num x) m = .ok xs[i] m := by
  simp only [element, bind, EStateM.bind, position_of_some hxs bracket h, Run.elements_eq hxs,
    Array.getElem?_eq_getElem hi]
  rfl

theorem setElement_of_some (bracket : Token) {x : Float} {i : Nat} (v : Value)
    (h : Number.position? x xs.size = some i) (hi : i < xs.size) :
    setElement bracket (.array id) (.num x) v m = .ok () (m.withArray id (xs.set i v hi)) := by
  have hmodify : m.store.arrays.modify id (·.setIfInBounds i v) =
      m.store.arrays.setIfInBounds id (xs.set i v hi) := by
    refine Array.ext_getElem? fun j ↦ ?_
    rw [Array.getElem?_modify, Array.getElem?_setIfInBounds]
    split
    · next heq =>
      subst heq
      rw [hxs, if_pos (Array.getElem?_eq_some_iff.1 hxs).1]
      simp [Array.setIfInBounds, hi]
    · rfl
  simp only [setElement, bind, EStateM.bind, position_of_some hxs bracket h, Run.changeArray,
    Run.changeStore_eq, hmodify]
  rfl

theorem difference_of_some (operator : Token) {x : Float} {k : Nat}
    (h : Number.removal? x xs.size = some k) :
    difference operator (.array id) (.num x) m =
      .ok (.array m.store.arrays.size) (m.withNewArray (xs.extract 0 (xs.size - k))) := by
  simp only [difference, bind, EStateM.bind, Run.elements_eq hxs, h]
  rfl

theorem difference_of_none (operator : Token) {x : Float}
    (h : Number.removal? x xs.size = none) :
    difference operator (.array id) (.num x) m =
      .error (.fault ⟨operator, .removal x xs.size⟩) m := by
  simp only [difference, bind, EStateM.bind, Run.elements_eq hxs, h]
  rfl

end Evaluator

/-- **Every array is used inside of its bounds.** -/
theorem Machine.bounded : m.Bounded id xs where
  read bracket x i hx hi :=
    Evaluator.element_of_some hxs bracket (Number.position?_eq_some_iff.2 ⟨hx, hi⟩) hi
  readOutside bracket x hx := by
    have hnone := Number.position?_eq_none_iff.2 hx
    simp only [Evaluator.element, bind, EStateM.bind,
      Evaluator.position_of_none hxs bracket hnone]
  write bracket x i v hx hi :=
    Evaluator.setElement_of_some hxs bracket v (Number.position?_eq_some_iff.2 ⟨hx, hi⟩) hi
  writeOutside bracket x v hx := by
    have hnone := Number.position?_eq_none_iff.2 hx
    simp only [Evaluator.setElement, bind, EStateM.bind,
      Evaluator.position_of_none hxs bracket hnone]
  notNumber token w v hw := by
    have hposition := Evaluator.position_of_ne_num hxs token hw
    refine ⟨?_, ?_, ?_⟩
    · simp only [Evaluator.element, bind, EStateM.bind, hposition]
    · simp only [Evaluator.setElement, bind, EStateM.bind, hposition]
    · cases w with
      | num x => exact absurd rfl (hw x)
      | _ => rfl
  remove operator x q hq hzero hsize := by
    have hsome := Number.removal?_eq_some_iff.2 ⟨q, hq, hzero, hsize, rfl⟩
    exact ⟨_, Nat.sub_add_cancel (Number.removal?_le hsome),
      Evaluator.difference_of_some hxs operator hsome⟩
  removeOutside operator x hx :=
    Evaluator.difference_of_none hxs operator (Number.removal?_eq_none_iff.2 hx)

end Arrays

/-! ### Calls -/

/-- Whatever is called is called with as many arguments as it takes, and runs as if it were called
only if they fit. No built-in function misses an argument, and no array is looked for in vain. -/
def exacting : Watch where
  enters _ activity m := ∀ callee arguments, activity = .call callee arguments →
    arguments.length = m.store.calleeArity callee ∧
      ∀ (r : Evaluator) (h : Halt) (paren : Token),
        r.applyStep paren callee arguments m = r.applyExactly h paren callee arguments m
  leaves _ _ _ ending _ :=
    ending ≠ .halt (.breach .argumentCount) ∧ ending ≠ .halt (.breach .dangling)

theorem justified_exacting : Watch.Justified fun _ ↦ exacting where
  enters := by
    rintro o lab m activity hm hready - - callee arguments rfl
    exact ⟨(Applicable.arity hready).symm,
      fun r h paren ↦ (Applicable.applyExactly_eq hready hm r h paren).symm⟩
  leaves := by
    rintro o o' lab m m' activity ending - - - hending -
    have hnone (b : Breach) : ending ≠ .halt (.breach b) := by
      rintro rfl
      cases hending with
      | halt hhalt => exact hhalt b rfl
    exact ⟨hnone _, hnone _⟩

/-- **No call and no use of an array is out of bounds.** -/
theorem Machine.nothing_out_of_bounds (arguments : List String) (world : World) (tracing : Bool)
    (turns : List Turn) :
    exacting.FindsNothing (initial arguments world tracing) turns ∧
      ∀ (m : Machine) (id : Nat) (xs : Array Value), m.store.arrays[id]? = some xs →
        m.Bounded id xs := by
  obtain ⟨o, -, hnothing⟩ :=
    sound_after justified_exacting (rests_initial arguments world tracing) turns
  exact ⟨hnothing o (.refl o _), fun m id xs hxs ↦ bounded hxs⟩

end AliasScript
