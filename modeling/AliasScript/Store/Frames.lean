import AliasScript.Text.Quoted
import AliasScript.Value

/-!
# Frames

A frame binds the names of one scope while it is running, and knows the frame around it. Frames
are never removed, since a function or an alias may still look into them.

There are two ways to reach a name: through all frames outward, and in the frame at a known
distance, without searching.
-/

namespace AliasScript

/-- The names of a scope. -/
structure Frame where
  /-- The frame around this one; the outermost has none. -/
  parent : Option FrameId
  bindings : Bindings Value
deriving DecidableEq, Repr, Inhabited

/-- All frames, by number. -/
abbrev Frames := Array Frame

namespace Frames

variable (fs : Frames)

/-- The value of a name in one frame. -/
def valueIn (f : FrameId) (name : String) : Option Value :=
  fs[f]?.bind (·.bindings.get? name)

/-- Binds a name in one frame. -/
def define (f : FrameId) (name : String) (value : Value) : Frames :=
  fs.modify f fun frame ↦ { frame with bindings := frame.bindings.insert name value }

/-- The frame around a frame. -/
def parent? (f : FrameId) : Option FrameId :=
  fs[f]?.bind Frame.parent

/-! ### What defining a name changes -/

@[simp] theorem size_define (f : FrameId) (name : String) (value : Value) :
    (define fs f name value).size = fs.size := by
  simp [define]

@[simp] theorem parent?_define (f g : FrameId) (name : String) (value : Value) :
    parent? (define fs f name value) g = parent? fs g := by
  unfold parent? define
  rw [Array.getElem?_modify]
  split
  · cases fs[g]? <;> rfl
  · rfl

/-- **Defining a name changes that name in that frame and nothing else.** -/
theorem valueIn_define {f : FrameId} (hf : f < fs.size) (g : FrameId) (name other : String)
    (value : Value) :
    valueIn (define fs f name value) g other =
      if g = f ∧ other = name then some value else valueIn fs g other := by
  unfold valueIn define
  rw [Array.getElem?_modify]
  by_cases hg : f = g
  · subst hg
    by_cases ho : other = name
    · subst ho
      simp [hf, Bindings.get?_insert_self]
    · simp [ho, hf, Bindings.get?_insert_ne]
  · have hg' : ¬ g = f := fun h ↦ hg h.symm
    simp [hg, hg']

/-! ### Two ways to a name -/

/-- The frame at a distance. -/
def ancestor? (f : FrameId) : Nat → Option FrameId
  | 0 => some f
  | distance + 1 => (parent? fs f).bind fun g ↦ ancestor? g distance

/-- The frame at a distance, if it binds a name. -/
def binderAt? (f : FrameId) (distance : Nat) (name : String) : Option FrameId :=
  (ancestor? fs f distance).filter fun g ↦ (valueIn fs g name).isSome

/-- The value of a name in the frame at a distance. -/
def getAt (f : FrameId) (distance : Nat) (name : String) : Option Value :=
  (ancestor? fs f distance).bind fun g ↦ valueIn fs g name

/-- Changes a name in the frame at a distance, if it is bound there. -/
def assignAt (f : FrameId) (distance : Nat) (name : String) (value : Value) : Option Frames :=
  (binderAt? fs f distance name).map fun g ↦ define fs g name value

/-- The nearest frame that binds a name, among so many frames outward. -/
def findWithin (name : String) : Nat → FrameId → Option FrameId
  | 0, _ => none
  | n + 1, f =>
    if (valueIn fs f name).isSome then some f
    else (parent? fs f).bind (findWithin name n)

/-- The nearest frame that binds a name. A chain of frames is no longer than there are frames. -/
def find? (f : FrameId) (name : String) : Option FrameId :=
  findWithin fs name fs.size f

/-- The value of a name in the nearest frame that binds it. -/
def get (f : FrameId) (name : String) : Option Value :=
  (find? fs f name).bind fun g ↦ valueIn fs g name

/-- Changes a name in the nearest frame that binds it. -/
def assign (f : FrameId) (name : String) (value : Value) : Option Frames :=
  (find? fs f name).map fun g ↦ define fs g name value

/-- A frame as text: its names in the order of their bytes, and whether there is a frame around
it. -/
def describe (f : FrameId) : String :=
  let names := (fs[f]?.elim [] fun frame ↦ frame.bindings.names).mergeSort
    fun a b ↦ decide (a ≤ b)
  "Environment \x7b names: [" ++ String.intercalate ", " (names.map Text.quoted) ++
    "], enclosed: " ++ (if (parent? fs f).isSome then "true" else "false") ++ " \x7d"

end Frames

end AliasScript
