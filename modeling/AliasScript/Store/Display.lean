import AliasScript.Store
import Std.Data.TreeSet

/-!
# Values as text

The text that printing a value shows. An array can contain itself; inside its own text it is written
as an abbreviation. An array that merely occurs twice is written out twice.

`textWithin` says what the text is, by recursion on how deep arrays nest. `write` produces it from
left to right and keeps the arrays that are not yet closed in a list, so nesting costs no more than
length; `write_eq` says that both agree.
-/

namespace AliasScript

/-- An array that is being written. -/
structure OpenArray where
  /-- How many more arrays may be open inside it. -/
  depth : Nat
  /-- The arrays that are open up to here, itself among them. -/
  path : Std.TreeSet Nat
  /-- The elements that are still to be written. -/
  rest : List Value

namespace Store

variable (s : Store)

/-- The elements of an array. -/
def elements (id : Nat) : List Value :=
  (s.arrays[id]?.getD #[]).toList

/-- The text of a value that is no array, and of an array that is not written out. -/
def textFlat : Value → String
  | .nil => "nil"
  | .bool b => if b then "true" else "false"
  | .num x => Number.text x
  | .str text => text
  | .function id =>
    match s.closures[id]?.bind (·.declaration.name) with
    | some name => "<fn " ++ name.lexeme ++ ">"
    | none => "<fn>"
  | .classValue id => s.classes[id]?.elim "" ClassObject.name
  | .builtin _ => "<native fn>"
  | .object id =>
    "<" ++ ((s.objects[id]?.bind (s.classes[·.classId]?)).elim "" ClassObject.name) ++ " instance>"
  | .reference _ => "<ref>"
  | .array _ => "[...]"

/-- The text of a value inside the texts of the arrays on the path, to a bounded depth. -/
def textWithin : Nat → Std.TreeSet Nat → Value → String
  | n + 1, path, .array id =>
    if path.contains id then "[...]"
    else
      "[" ++ String.intercalate ", " ((s.elements id).map (textWithin n (path.insert id))) ++ "]"
  | _, _, v => s.textFlat v

/-! ### Writing from left to right -/

/-- The array that a value opens inside the arrays on the path: none if it is no array, or one that
is open already. -/
def opened? : Nat → Std.TreeSet Nat → Value → Option OpenArray
  | n + 1, path, .array id =>
    if path.contains id then none else some ⟨n, path.insert id, s.elements id⟩
  | _, _, _ => none

/-- What stands between elements, if any are to follow. -/
def separator (rest : List Value) : String :=
  if rest.isEmpty then "" else ", "

/-- What stands between the end of an array and the elements to follow in the array around it. -/
def separatorIn : List OpenArray → String
  | [] => ""
  | around :: _ => separator around.rest

/-- The length of the longest array. -/
def longest : Nat :=
  s.arrays.foldl (fun n elements ↦ max n elements.size) 0

/-- The steps that are set aside for one element, by how deep arrays may still nest in it. -/
def share : Nat → Nat
  | 0 => 1
  | depth + 1 => share depth * (s.longest + 2)

theorem share_pos : ∀ depth, 0 < s.share depth
  | 0 => Nat.one_pos
  | depth + 1 => Nat.mul_pos (share_pos depth) (Nat.succ_pos _)

/-- A bound on the steps that it takes to write the rest of the open arrays. -/
def effort : List OpenArray → Nat
  | [] => 0
  | a :: around => (a.rest.length + 1) * s.share a.depth + effort around

/-- A greatest size is above the one to start with and above those of all arrays. -/
theorem le_foldl_max (arrays : List (Array Value)) (n : Nat) :
    n ≤ arrays.foldl (fun n elements ↦ max n elements.size) n ∧
      ∀ elements ∈ arrays, elements.size ≤
        arrays.foldl (fun n elements ↦ max n elements.size) n := by
  induction arrays generalizing n with
  | nil => simp
  | cons first rest ih =>
    obtain ⟨hn, hrest⟩ := ih (max n first.size)
    simp only [List.foldl_cons, List.mem_cons, forall_eq_or_imp]
    exact ⟨by omega, by omega, hrest⟩

theorem length_elements_le (id : Nat) : (s.elements id).length ≤ s.longest := by
  unfold elements longest
  cases h : s.arrays[id]? with
  | none => simp
  | some elements =>
    have hmem : elements ∈ s.arrays.toList := by
      simpa using Array.mem_of_getElem? h
    simpa [← Array.foldl_toList] using (le_foldl_max s.arrays.toList 0).2 elements hmem

/-- Writing an array that is opened takes fewer steps than are set aside for one element of the
array around it. -/
theorem effort_opened {n : Nat} {path : Std.TreeSet Nat} {v : Value} {inner : OpenArray}
    (h : s.opened? n path v = some inner) :
    (inner.rest.length + 1) * s.share inner.depth < s.share n := by
  unfold opened? at h
  split at h
  · next id =>
    split at h
    · simp at h
    · obtain rfl := Option.some.inj h
      have hle := s.length_elements_le id
      rw [share, Nat.mul_comm]
      exact Nat.mul_lt_mul_of_pos_left (by simp; omega) (s.share_pos _)
  · simp at h

/-- Writes the rest of the open arrays, the innermost first. -/
def write (stack : List OpenArray) (written : String) : String :=
  match stack with
  | [] => written
  | ⟨_, _, []⟩ :: around => write around (written ++ "]" ++ separatorIn around)
  | ⟨depth, path, v :: rest⟩ :: around =>
    match _ : s.opened? depth path v with
    | some inner => write (inner :: ⟨depth, path, rest⟩ :: around) (written ++ "[")
    | none => write (⟨depth, path, rest⟩ :: around) (written ++ s.textFlat v ++ separator rest)
termination_by s.effort stack
decreasing_by
  all_goals simp only [effort, List.length_cons]
  · exact Nat.lt_add_of_pos_left (Nat.mul_pos (Nat.succ_pos _) (s.share_pos _))
  · have := s.effort_opened ‹_›
    rw [Nat.add_mul (rest.length + 1) 1]
    omega
  · have := s.share_pos depth
    rw [Nat.add_mul (rest.length + 1) 1]
    omega

/-! ### What is written -/

/-- The texts of the elements that are still to be written, and the end of the array. -/
def textRest (a : OpenArray) : String :=
  String.intercalate ", " (a.rest.map (s.textWithin a.depth a.path)) ++ "]"

/-- The texts of the rests of the open arrays, the innermost first. -/
def textStack : List OpenArray → String
  | [] => ""
  | a :: around => s.textRest a ++ separatorIn around ++ textStack around

/-- A separator stands after the first text exactly if others follow. -/
theorem intercalate_cons (t : String) (rest : List Value) (f : Value → String) :
    String.intercalate ", " (t :: rest.map f) =
      t ++ separator rest ++ String.intercalate ", " (rest.map f) := by
  cases rest <;> simp [separator]

/-- A value that opens an array is written as what is left of that array at its start. -/
theorem textWithin_of_opened {n : Nat} {path : Std.TreeSet Nat} {v : Value} {inner : OpenArray}
    (h : s.opened? n path v = some inner) :
    s.textWithin n path v = "[" ++ s.textRest inner := by
  unfold opened? at h
  split at h
  · split at h
    · simp at h
    · next hpath =>
      obtain rfl := Option.some.inj h
      simp [textWithin, textRest, hpath, String.append_assoc]
  · simp at h

theorem textWithin_of_not_opened {n : Nat} {path : Std.TreeSet Nat} {v : Value}
    (h : s.opened? n path v = none) : s.textWithin n path v = s.textFlat v := by
  unfold opened? at h
  split at h
  · split at h
    · next hpath => simp [textWithin, textFlat, hpath]
    · simp at h
  · next hnot =>
    unfold textWithin
    split
    · exact (hnot _ _ rfl rfl).elim
    · rfl

/-- Writing adds the texts of the rests of the open arrays. -/
theorem write_eq (stack : List OpenArray) (written : String) :
    s.write stack written = written ++ s.textStack stack := by
  fun_induction write s stack written with
  | case1 => simp [textStack]
  | case2 written depth path around ih =>
    rw [ih]
    simp [textStack, textRest, String.append_assoc]
  | case3 written depth path v rest around inner h ih =>
    rw [ih]
    simp [textStack, textRest, separatorIn, intercalate_cons, s.textWithin_of_opened h,
      String.append_assoc]
  | case4 written depth path v rest around h ih =>
    rw [ih]
    simp [textStack, textRest, intercalate_cons, s.textWithin_of_not_opened h,
      String.append_assoc]

/-- The text of a value. Open arrays are different ones, so there are no more of them than there are
arrays, and the bound on the depth is never met. -/
def text (v : Value) : String :=
  match s.opened? (s.arrays.size + 1) {} v with
  | some outermost => s.write [outermost] "["
  | none => s.textFlat v

theorem text_eq_textWithin (v : Value) : s.text v = s.textWithin (s.arrays.size + 1) {} v := by
  unfold text
  split
  · next h => simp [write_eq, textStack, separatorIn, s.textWithin_of_opened h]
  · next h => rw [s.textWithin_of_not_opened h]

end Store

end AliasScript
