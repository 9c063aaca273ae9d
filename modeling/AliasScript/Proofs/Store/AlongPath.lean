import AliasScript.Proofs.Store.Bisimilar

/-!
# Equality along a path

`equal` remembers every pair of arrays that it has opened. Values can also be compared by recursion
on what is inside of arrays, remembering the way that led there and nothing else: two arrays are
taken to be equal while their elements are compared, and when that is over they are forgotten, so
they are opened again where they are met again, then on another path. This is `equalOnPath`.

On a path, the answer is right under an assumption. `BisimilarOn path` is the greatest relation that
has a reason for each of its pairs but those on the path, and what is found equal on a path is
related by it (`equalOnPath_iff`). The pair that a comparison adds to the path can be forgotten
because an assumption is used inside of arrays only: if the elements of two arrays are related
provided that the arrays are, then the arrays are related (`BisimilarOn.discharge`).

Nothing is assumed of the empty path. So both ways to compare give bisimilarity, and they agree
(`equalOnPath_eq_equal`). What equality is, and which laws it obeys, is said of both at once
(`equal_isBisimilarity`).
-/

namespace AliasScript

namespace Store

variable (s : Store)

/-- Equality of values inside of the arrays on a path, which are taken to be equal, to a bounded
depth. -/
def equalOnPath : Nat → List (Nat × Nat) → Value → Value → Bool
  | n + 1, path, .array a, .array b =>
    if a = b then true
    else
      match s.arrays[a]?, s.arrays[b]? with
      | some xs, some ys =>
        if xs.size = ys.size then
          if (a, b) ∈ path then true
          else (xs.toList.zip ys.toList).all fun p ↦ equalOnPath n ((a, b) :: path) p.1 p.2
        else false
      | _, _ => false
  | _, _, x, y => equalFlat x y

/-! ### Bisimilarity under assumptions -/

/-- The relation has a reason for each pair of arrays that is not on the path. -/
def BisimulationOn (path : List (Nat × Nat)) (R : Nat → Nat → Prop) : Prop :=
  ∀ a b, R a b → (a, b) ∉ path → a = b ∨ ∃ xs ys, s.arrays[a]? = some xs ∧
    s.arrays[b]? = some ys ∧ List.Forall₂ (Related R) xs.toList ys.toList

/-- **Bisimilarity under the assumption of the pairs on the path.** -/
def BisimilarOn (path : List (Nat × Nat)) (a b : Nat) : Prop :=
  ∃ R, s.BisimulationOn path R ∧ R a b

variable {s} {path : List (Nat × Nat)} {a b n : Nat} {x y : Value} {xs ys : Array Value}

namespace BisimilarOn

theorem bisimulationOn (s : Store) (path : List (Nat × Nat)) :
    s.BisimulationOn path (s.BisimilarOn path) := by
  rintro a b ⟨R, hR, hab⟩ hpath
  refine (hR a b hab hpath).imp_right ?_
  rintro ⟨xs, ys, hxs, hys, helements⟩
  exact ⟨xs, ys, hxs, hys, helements.imp fun _ _ h ↦ h.mono fun _ _ h ↦ ⟨R, hR, h⟩⟩

theorem refl (s : Store) (path : List (Nat × Nat)) (a : Nat) : s.BisimilarOn path a a :=
  ⟨Eq, fun _ _ h _ ↦ .inl h, rfl⟩

theorem of_mem (hab : (a, b) ∈ path) : s.BisimilarOn path a b :=
  ⟨fun a b ↦ (a, b) ∈ path, fun _ _ h hnot ↦ absurd h hnot, hab⟩

theorem cons (p : Nat × Nat) (h : s.BisimilarOn path a b) : s.BisimilarOn (p :: path) a b := by
  obtain ⟨R, hR, hab⟩ := h
  exact ⟨R, fun a b hab hnot ↦ hR a b hab fun hmem ↦ hnot (List.mem_cons_of_mem p hmem), hab⟩

/-- **An assumption is discharged by what is inside of the arrays**: they are bisimilar if their
elements are, under the assumption that the arrays themselves are. -/
theorem discharge (hxs : s.arrays[a]? = some xs) (hys : s.arrays[b]? = some ys)
    (helements : List.Forall₂ (Related (s.BisimilarOn ((a, b) :: path))) xs.toList ys.toList) :
    s.BisimilarOn path a b := by
  refine ⟨s.BisimilarOn ((a, b) :: path), fun a' b' hab hpath ↦ ?_, of_mem List.mem_cons_self⟩
  by_cases heq : (a', b') = (a, b)
  · cases heq
    exact .inr ⟨xs, ys, hxs, hys, helements⟩
  · exact bisimulationOn s _ a' b' hab fun hmem ↦ (List.mem_cons.1 hmem).elim heq hpath

end BisimilarOn

theorem bisimilarOn_nil : s.BisimilarOn [] = s.Bisimilar := by
  funext a b
  simp only [BisimilarOn, BisimulationOn, Bisimilar, Bisimulation, List.not_mem_nil,
    not_false_eq_true, true_implies]

/-! ### Comparison on a path -/

/-- The pairs of arrays that are being compared: no pair twice, and the two of a pair of one length.
-/
structure Compared (s : Store) (path : List (Nat × Nat)) : Prop where
  nodup : path.Nodup
  sizes : ∀ a b, (a, b) ∈ path → ∃ xs ys, s.arrays[a]? = some xs ∧ s.arrays[b]? = some ys ∧
    xs.size = ys.size

namespace Compared

theorem nil (s : Store) : Compared s [] :=
  ⟨.nil, fun _ _ hab ↦ (List.not_mem_nil hab).elim⟩

theorem cons (h : Compared s path) (hxs : s.arrays[a]? = some xs) (hys : s.arrays[b]? = some ys)
    (hsize : xs.size = ys.size) (hnew : (a, b) ∉ path) : Compared s ((a, b) :: path) where
  nodup := List.nodup_cons.2 ⟨hnew, h.nodup⟩
  sizes a' b' hab := by
    rcases List.mem_cons.1 hab with heq | hold
    · cases heq
      exact ⟨xs, ys, hxs, hys, hsize⟩
    · exact h.sizes a' b' hold

theorem length_le (h : Compared s path) : path.length ≤ s.arrays.size * s.arrays.size := by
  refine length_le_of_nodup h.nodup fun a b hab ↦ ?_
  obtain ⟨xs, ys, hxs, hys, -⟩ := h.sizes a b hab
  exact ⟨(Array.getElem?_eq_some_iff.1 hxs).1, (Array.getElem?_eq_some_iff.1 hys).1⟩

/-- What two different arrays have in common that are bisimilar under the assumption of the path. -/
theorem reason (h : Compared s path) (hne : a ≠ b) (hab : s.BisimilarOn path a b) :
    ∃ xs ys, s.arrays[a]? = some xs ∧ s.arrays[b]? = some ys ∧ xs.size = ys.size ∧
      ((a, b) ∉ path → List.Forall₂ (Related (s.BisimilarOn path)) xs.toList ys.toList) := by
  by_cases hmem : (a, b) ∈ path
  · obtain ⟨xs, ys, hxs, hys, hsize⟩ := h.sizes a b hmem
    exact ⟨xs, ys, hxs, hys, hsize, fun hnot ↦ absurd hmem hnot⟩
  · obtain ⟨xs, ys, hxs, hys, helements⟩ :=
      (BisimilarOn.bisimulationOn s path a b hab hmem).resolve_left hne
    exact ⟨xs, ys, hxs, hys, by simpa using helements.length_eq, fun _ ↦ helements⟩

end Compared

/-- What is found equal to any depth is related: at the greatest depth two different arrays are not
found equal. -/
theorem related_of_equalOnPath (h : s.equalOnPath n path x y = true) :
    Related (s.BisimilarOn path) x y := by
  fun_induction equalOnPath s n path x y with
  | case1 n path a => exact .arrays (.refl s path a)
  | case2 n path a b hne xs ys hys hxs hsize hmem => exact .arrays (.of_mem hmem)
  | case3 n path a b hne xs ys hys hxs hsize hmem ih =>
    refine .arrays (.discharge hxs hys (List.forall₂_iff_zip.2 ⟨by simpa using hsize, ?_⟩))
    intro x y hxy
    exact ih (x, y) (List.all_eq_true.1 h (x, y) hxy)
  | case4 => cases h
  | case5 => cases h
  | case6 => exact .flat h

theorem equalOnPath_of_equalFlat (h : equalFlat x y = true) : s.equalOnPath n path x y = true := by
  unfold equalOnPath
  split
  · cases h
  · exact h

/-- What is related is found equal, if the depth allows for all pairs of arrays that are not on the
path. -/
theorem equalOnPath_of_related (hpath : Compared s path)
    (hn : s.arrays.size * s.arrays.size < n + path.length)
    (h : Related (s.BisimilarOn path) x y) : s.equalOnPath n path x y = true := by
  induction n generalizing path x y with
  | zero => exact absurd hpath.length_le (by omega)
  | succ n ih =>
    cases h with
    | flat hflat => exact equalOnPath_of_equalFlat hflat
    | @arrays a b hab =>
      by_cases heq : a = b
      · rw [equalOnPath, if_pos heq]
      · obtain ⟨xs, ys, hxs, hys, hsize, helements⟩ := hpath.reason heq hab
        simp only [equalOnPath, heq, hxs, hys, hsize, if_false, if_true]
        split
        · rfl
        · next hnew =>
          refine List.all_eq_true.2 fun p hp ↦
            ih (hpath.cons hxs hys hsize hnew) (by rw [List.length_cons]; omega) ?_
          exact ((List.forall₂_iff_zip.1 (helements hnew)).2 hp).mono fun _ _ ↦ .cons (a, b)

/-- **What is found equal on a path is bisimilar under the assumption of it.** -/
theorem equalOnPath_iff (hpath : Compared s path)
    (hn : s.arrays.size * s.arrays.size < n + path.length) (x y : Value) :
    s.equalOnPath n path x y = true ↔ Related (s.BisimilarOn path) x y :=
  ⟨related_of_equalOnPath, equalOnPath_of_related hpath hn⟩

/-- **Forgetting what was compared changes no answer**: equality on the empty path is equality. -/
theorem equalOnPath_eq_equal (s : Store) (hn : s.arrays.size * s.arrays.size < n) (x y : Value) :
    s.equalOnPath n [] x y = s.equal x y := by
  rw [Bool.eq_iff_iff, equalOnPath_iff (.nil s) (by simpa using hn), bisimilarOn_nil,
    equal_iff_related]

/-! ### Equality -/

/-- **Equality of values is bisimilarity.** It does not depend on the bound on the steps, and
comparing along paths gives the same; on arrays it is the greatest relation that has a reason for
each of its pairs, and on other values the comparison of what they are; it is symmetric and
transitive, and every value but one that is no number equals itself. -/
theorem equal_isBisimilarity (s : Store) :
    (∀ n x y, s.arrays.size * s.arrays.size < n →
      s.equalWithin n {} [(x, y)] = s.equal x y ∧ s.equalOnPath n [] x y = s.equal x y) ∧
    s.Bisimulation s.Bisimilar ∧
    (∀ a b, s.equal (.array a) (.array b) = true ↔ s.Bisimilar a b) ∧
    (∀ x y, (∀ a b, ¬ (x = .array a ∧ y = .array b)) → s.equal x y = equalFlat x y) ∧
    (∀ x y, s.equal x y = s.equal y x) ∧
    (∀ x y z, s.equal x y = true → s.equal y z = true → s.equal x z = true) ∧
    ∀ x, s.equal x x = true ↔ ∀ number, x = .num number → number.isNaN = false := by
  refine ⟨fun n x y hn ↦ ⟨?_, s.equalOnPath_eq_equal hn x y⟩, Bisimilar.bisimulation s,
    fun a b ↦ ?_, fun x y h ↦ ?_, fun x y ↦ ?_, fun x y z hxy hyz ↦ ?_, fun x ↦ ?_⟩
  · rw [Bool.eq_iff_iff, s.equalWithin_iff hn, s.equal_iff_related]
  · rw [s.equal_iff_related]
    refine ⟨fun h ↦ ?_, .arrays⟩
    cases h with
    | arrays h => exact h
    | flat h => cases h
  · rw [Bool.eq_iff_iff, s.equal_iff_related, related_iff_equalFlat h]
  · have hsymm : ∀ {x y}, Related s.Bisimilar x y → Related s.Bisimilar y x := fun h ↦
      h.symm.mono fun _ _ ↦ Bisimilar.symm
    rw [Bool.eq_iff_iff, s.equal_iff_related, s.equal_iff_related]
    exact ⟨hsymm, hsymm⟩
  · rw [s.equal_iff_related] at hxy hyz ⊢
    exact (hxy.trans hyz).mono fun a c ⟨b, hab, hbc⟩ ↦ hab.trans hbc
  · rw [s.equal_iff_related, related_self_iff]

end Store

end AliasScript
