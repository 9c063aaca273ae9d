import AliasScript.Proofs.Machine.Sound
import AliasScript.Store.Display
import AliasScript.Store.Equality

/-!
# What is shown and compared

The text of a value and the equality of values have a case for aliases, which is there for
completeness only. `textUsing` and `equalUsing` leave open what is said of values that are no
arrays; the text and the equality of the language are the cases of them with its own answers
(`textUsing_textFlat`, `equalUsing_equalFlat`). If no element of an array is an alias, then the
answer for aliases makes no difference to values that are none (`Store.BlindToAliases`).
-/

namespace AliasScript

namespace Store

variable (s : Store)

/-! ### Texts and equality with open answers -/

/-- The text of a value inside the texts of the arrays on the path, with given texts of values that
are not written out. -/
def textWithinUsing (flat : Value → String) : Nat → Std.TreeSet Nat → Value → String
  | n + 1, path, .array id =>
    if path.contains id then "[...]"
    else
      "[" ++ String.intercalate ", "
        ((s.elements id).map (textWithinUsing flat n (path.insert id))) ++ "]"
  | _, _, v => flat v

/-- The text of a value, with given texts of values that are not written out. -/
def textUsing (flat : Value → String) (v : Value) : String :=
  s.textWithinUsing flat (s.arrays.size + 1) {} v

/-- Compares pairs of values up to the first two arrays to open, with a given equality of values
that are not both arrays. -/
def compareUsing (flat : Value → Value → Bool) (met : ArrayPairs) :
    List (Value × Value) → Comparison
  | [] => .settled
  | (.array a, .array b) :: rest =>
    if a == b || met.contains (a, b) then compareUsing flat met rest else .arrays a b rest
  | (x, y) :: rest => if flat x y then compareUsing flat met rest else .differ

/-- Whether the pairs of values are equal, with a given equality of values that are not both arrays.
-/
def equalWithinUsing (flat : Value → Value → Bool) :
    Nat → ArrayPairs → List (Value × Value) → Bool
  | 0, _, _ => true
  | n + 1, met, pending =>
    match compareUsing flat met pending with
    | .settled => true
    | .differ => false
    | .arrays a b rest =>
      match s.arrays[a]?, s.arrays[b]? with
      | some xs, some ys =>
        if xs.size = ys.size then
          equalWithinUsing flat n (met.insert (a, b)) (xs.toList.zip ys.toList ++ rest)
        else false
      | _, _ => false

/-- Equality of values, with a given equality of values that are not both arrays. -/
def equalUsing (flat : Value → Value → Bool) (x y : Value) : Bool :=
  s.equalWithinUsing flat (s.arrays.size * s.arrays.size + 1) {} [(x, y)]

/-- **What is said of aliases makes no difference** to the text of a value that is none, nor to the
equality of two of them. -/
structure BlindToAliases : Prop where
  text : ∀ flat : Value → String, (∀ v, v.isReference = false → flat v = s.textFlat v) →
    ∀ v, v.isReference = false → s.textUsing flat v = s.text v
  equal : ∀ flat : Value → Value → Bool,
    (∀ v w, v.isReference = false → w.isReference = false → flat v w = equalFlat v w) →
    ∀ v w, v.isReference = false → w.isReference = false → s.equalUsing flat v w = s.equal v w

/-! ### The answers of the language -/

section Congruence

variable {p : Value → Prop} (hp : ∀ id, ∀ v ∈ s.elements id, p v)

include hp

/-- Texts agree if their answers agree on the value and on all elements of arrays. -/
theorem textWithinUsing_congr {flat : Value → String} (hflat : ∀ v, p v → flat v = s.textFlat v)
    (n : Nat) (path : Std.TreeSet Nat) {v : Value} (hv : p v) :
    s.textWithinUsing flat n path v = s.textWithin n path v := by
  induction n generalizing path v with
  | zero => exact hflat v hv
  | succ n ih =>
    cases v with
    | array id =>
      simp only [textWithinUsing, textWithin]
      rw [List.map_congr_left fun w hw ↦ ih (path.insert id) (hp id w hw)]
    | _ => exact hflat _ hv

omit hp in
/-- Comparisons agree if their answers agree on all that is pending, and leave no more of it. -/
theorem compareUsing_congr {flat : Value → Value → Bool}
    (hflat : ∀ v w, p v → p w → flat v w = equalFlat v w) (met : ArrayPairs)
    {pending : List (Value × Value)} (hpending : ∀ q ∈ pending, p q.1 ∧ p q.2) :
    compareUsing flat met pending = compareFlat met pending ∧
      ∀ a b rest, compareFlat met pending = .arrays a b rest → rest ⊆ pending := by
  induction pending with
  | nil => exact ⟨rfl, nofun⟩
  | cons q rest ih =>
    obtain ⟨hq, hrest⟩ := List.forall_mem_cons.1 hpending
    obtain ⟨hcompare, hsubset⟩ := ih hrest
    have hlater : ∀ a b rest', compareFlat met rest = .arrays a b rest' → rest' ⊆ q :: rest :=
      fun a b rest' h ↦ List.Subset.trans (hsubset a b rest' h) (List.subset_cons_self q rest)
    obtain ⟨v, w⟩ := q
    -- Two arrays are compared by what is open, so only on other pairs the two answers could differ.
    by_cases harrays : ∃ a b, v = .array a ∧ w = .array b
    · obtain ⟨a, b, rfl, rfl⟩ := harrays
      simp only [compareUsing, compareFlat]
      split
      · exact ⟨hcompare, hlater⟩
      · refine ⟨rfl, ?_⟩
        rintro _ _ _ ⟨⟩
        exact List.subset_cons_self _ _
    · have hnot : ∀ a b, v = .array a → w = .array b → False := fun a b hv hw ↦
        harrays ⟨a, b, hv, hw⟩
      rw [compareUsing, compareFlat, hflat v w hq.1 hq.2]
      · split
        · exact ⟨hcompare, hlater⟩
        · exact ⟨rfl, nofun⟩
      · exact hnot
      · exact hnot

theorem equalWithinUsing_congr {flat : Value → Value → Bool}
    (hflat : ∀ v w, p v → p w → flat v w = equalFlat v w) (n : Nat) (met : ArrayPairs)
    {pending : List (Value × Value)} (hpending : ∀ q ∈ pending, p q.1 ∧ p q.2) :
    s.equalWithinUsing flat n met pending = s.equalWithin n met pending := by
  have helements {id : Nat} {xs : Array Value} (hxs : s.arrays[id]? = some xs) :
      ∀ v ∈ xs.toList, p v := fun v hv ↦ hp id v (by simpa [elements, hxs] using hv)
  induction n generalizing met pending with
  | zero => rfl
  | succ n ih =>
    obtain ⟨hcompare, hsubset⟩ := compareUsing_congr hflat met hpending
    simp only [equalWithinUsing, equalWithin, hcompare]
    cases hstep : compareFlat met pending with
    | settled | differ => rfl
    | arrays a b rest =>
      dsimp only
      cases hxs : s.arrays[a]? with
      | none => rfl
      | some xs =>
        cases hys : s.arrays[b]? with
        | none => rfl
        | some ys =>
          have hopened : ∀ q ∈ xs.toList.zip ys.toList ++ rest, p q.1 ∧ p q.2 := by
            intro q hq
            rcases List.mem_append.1 hq with hq | hq
            · obtain ⟨hx, hy⟩ := List.of_mem_zip hq
              exact ⟨helements hxs q.1 hx, helements hys q.2 hy⟩
            · exact hpending q (hsubset a b rest hstep hq)
          simp only [ih (met.insert (a, b)) hopened]

end Congruence

theorem textUsing_textFlat (v : Value) : s.textUsing s.textFlat v = s.text v := by
  rw [text_eq_textWithin]
  exact s.textWithinUsing_congr (p := fun _ ↦ True) (fun _ _ _ ↦ trivial) (fun _ _ ↦ rfl) _ _
    trivial

theorem equalUsing_equalFlat (v w : Value) : s.equalUsing equalFlat v w = s.equal v w :=
  s.equalWithinUsing_congr (p := fun _ ↦ True) (fun _ _ _ ↦ trivial) (fun _ _ _ _ ↦ rfl) _ _
    fun _ _ ↦ ⟨trivial, trivial⟩

/-- **If no element of an array is an alias, what is said of aliases makes no difference.** -/
theorem blindToAliases (h : ∀ id, ∀ v ∈ s.elements id, v.isReference = false) :
    s.BlindToAliases where
  text flat hflat v hv := by
    rw [text_eq_textWithin]
    exact s.textWithinUsing_congr h hflat _ _ hv
  equal flat hflat v w hv hw := by
    refine s.equalWithinUsing_congr h hflat _ _ fun q hq ↦ ?_
    cases List.mem_singleton.1 hq
    exact ⟨hv, hw⟩

end Store

end AliasScript
