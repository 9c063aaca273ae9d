import AliasScript.Store.Equality
import Mathlib

/-!
# Equality is bisimilarity

Arrays can contain themselves, so which of them are equal cannot be said by recursion on what is
inside. It is the greatest relation that can be justified step by step: `Bisimulation s R` says that
`R` relates two arrays only if they are one array, or have the same length and elements that are
related in turn, and `Bisimilar s` is the union of all such relations.

`equalWithin` looks for a reason against, and takes the pairs of arrays that it has opened for
equal. That is right in both directions:

* if a bisimulation relates all that is pending, no step finds a reason against
  (`equalWithin_of_related`);
* if no reason is found, the pairs that were opened in the end are a bisimulation together with the
diagonal (`related_of_equalWithin`). This needs that the bound is not met, and it is not: each step
opens a pair of arrays that was not open before.

Bisimilarity is symmetric and transitive whatever is inside, since equality of numbers is
(`Number.equal_iff`), and every array is bisimilar to itself, also one that contains a value that is
no number.
-/

namespace AliasScript

open Float.Model (UnpackedFloat)

/-! ### Numbers -/

namespace Number

/-- The point on the number line, if there is one. Both zeros are one point. -/
def point? (x : Float) : Option UnpackedFloat :=
  match x.toModel.unpack with
  | .notANumber => none
  | .zero _ => some (.zero .positive)
  | u => some u

/-- **Numbers are equal if they are the same point**; what is no number equals nothing. -/
theorem equal_iff (x y : Float) : (x == y) = true ↔ ∃ p, point? x = some p ∧ point? y = some p := by
  show UnpackedFloat.beq x.toModel.unpack y.toModel.unpack = true ↔ _
  unfold point?
  generalize x.toModel.unpack = u
  generalize y.toModel.unpack = v
  cases u with
  | notANumber => simp [UnpackedFloat.beq, UnpackedFloat.compare]
  | infinity s =>
    cases v with
    | infinity t =>
      cases s <;> cases t <;> simp [UnpackedFloat.beq, UnpackedFloat.compare] <;> decide
    | _ => cases s <;> simp [UnpackedFloat.beq, UnpackedFloat.compare]
  | zero s =>
    cases v with
    | finite t | infinity t => cases t <;> simp [UnpackedFloat.beq, UnpackedFloat.compare]
    | _ => simp [UnpackedFloat.beq, UnpackedFloat.compare]
  | finite s mantissa exponent =>
    cases v with
    | finite t mantissa' exponent' =>
      cases s <;> cases t <;>
        simp [UnpackedFloat.beq, UnpackedFloat.compare, Ordering.then_eq_eq] <;> grind
    | infinity t => cases t <;> cases s <;> simp [UnpackedFloat.beq, UnpackedFloat.compare]
    | _ => cases s <;> simp [UnpackedFloat.beq, UnpackedFloat.compare]

/-- A float that is no number has no point. -/
theorem point?_eq_none_iff (x : Float) : point? x = none ↔ x.isNaN = true := by
  show _ ↔ UnpackedFloat.isNaN x.toModel.unpack = true
  unfold point?
  cases x.toModel.unpack <;> simp [UnpackedFloat.isNaN]

end Number

/-- What a value that is no array is compared by: a number by its point, anything else by what it
is. -/
def Value.identity? : Value → Option (Value ⊕ UnpackedFloat)
  | .array _ => none
  | .num x => (Number.point? x).map .inr
  | v => some (.inl v)

namespace Store

/-! ### Values that are not both arrays -/

/-- Values that are no arrays are equal if they are identified by the same. -/
theorem equalFlat_iff (x y : Value) :
    equalFlat x y = true ↔ ∃ i, x.identity? = some i ∧ y.identity? = some i := by
  cases x with
  | num a =>
    cases y with
    | num b =>
      rw [equalFlat, Number.equal_iff]
      constructor
      · rintro ⟨p, ha, hb⟩
        exact ⟨.inr p, by simp [Value.identity?, ha], by simp [Value.identity?, hb]⟩
      · rintro ⟨i, ha, hb⟩
        obtain ⟨p, hp, rfl⟩ := Option.map_eq_some_iff.1 ha
        obtain ⟨q, hq, heq⟩ := Option.map_eq_some_iff.1 hb
        cases heq
        exact ⟨p, hp, hq⟩
    | _ => simp [equalFlat, Value.identity?]
  | _ => cases y <;> simp [equalFlat, Value.identity?] <;> grind

/-- Flat equality is symmetric. -/
theorem equalFlat_comm (x y : Value) : equalFlat x y = equalFlat y x := by
  rw [Bool.eq_iff_iff, equalFlat_iff, equalFlat_iff]
  simp only [and_comm]

/-- Flat equality is transitive, since only numbers that are numbers are equal. -/
theorem equalFlat_trans {x y z : Value} (hxy : equalFlat x y = true) (hyz : equalFlat y z = true) :
    equalFlat x z = true := by
  obtain ⟨i, hx, hy⟩ := (equalFlat_iff x y).1 hxy
  obtain ⟨j, hy', hz⟩ := (equalFlat_iff y z).1 hyz
  cases hy.symm.trans hy'
  exact (equalFlat_iff x z).2 ⟨i, hx, hz⟩

/-- An array is compared with another array only. -/
theorem equalFlat_array (a : Nat) (y : Value) : equalFlat (.array a) y = false := by
  cases y <;> rfl

/-! ### Bisimulations -/

/-- Two values are equal if the arrays that `R` relates are. -/
inductive Related (R : Nat → Nat → Prop) : Value → Value → Prop
  | arrays {a b : Nat} : R a b → Related R (.array a) (.array b)
  | flat {x y : Value} : equalFlat x y = true → Related R x y

variable (s : Store)

/-- The relation has a reason for each pair of arrays: they are one array, or have the same length
and elements that are related. -/
def Bisimulation (R : Nat → Nat → Prop) : Prop :=
  ∀ a b, R a b → a = b ∨ ∃ xs ys, s.arrays[a]? = some xs ∧ s.arrays[b]? = some ys ∧
    List.Forall₂ (Related R) xs.toList ys.toList

/-- **The greatest relation that has a reason for each of its pairs.** -/
def Bisimilar (a b : Nat) : Prop :=
  ∃ R, s.Bisimulation R ∧ R a b

variable {s} {R R' : Nat → Nat → Prop} {x y z : Value}

namespace Related

/-- More pairs of arrays relate more values. -/
theorem mono (hR : ∀ a b, R a b → R' a b) (h : Related R x y) : Related R' x y := by
  cases h with
  | arrays h => exact .arrays (hR _ _ h)
  | flat h => exact .flat h

/-- Relatedness is symmetric, with the relation of arrays turned round. -/
theorem symm (h : Related R x y) : Related (fun a b ↦ R b a) y x := by
  cases h with
  | arrays h => exact .arrays h
  | flat h => exact .flat (equalFlat_comm x y ▸ h)

/-- Relatedness is transitive, with the relations of arrays composed. -/
theorem trans (h : Related R x y) (h' : Related R' y z) :
    Related (fun a c ↦ ∃ b, R a b ∧ R' b c) x z := by
  cases h with
  | arrays h =>
    cases h' with
    | arrays h' => exact .arrays ⟨_, h, h'⟩
    | flat h' => exact absurd ((equalFlat_array _ z).symm.trans h') (by decide)
  | flat h =>
    cases h' with
    | arrays h' =>
      exact absurd ((equalFlat_comm x _ ▸ equalFlat_array _ x).symm.trans h) (by decide)
    | flat h' => exact .flat (equalFlat_trans h h')

end Related

/-- So is relatedness of lists of values. -/
theorem forall₂_related_trans {R R' : Nat → Nat → Prop} {xs ys zs : List Value}
    (h : List.Forall₂ (Related R) xs ys) (h' : List.Forall₂ (Related R') ys zs) :
    List.Forall₂ (Related fun a c ↦ ∃ b, R a b ∧ R' b c) xs zs := by
  induction h generalizing zs with
  | nil =>
    cases h'
    exact .nil
  | cons h _ ih =>
    cases h' with
    | cons h' hrest => exact .cons (h.trans h') (ih hrest)

namespace Bisimilar

variable {a b c : Nat}

/-- Bisimilarity has a reason for each of its pairs, too. -/
theorem bisimulation (s : Store) : s.Bisimulation s.Bisimilar := by
  rintro a b ⟨R, hR, hab⟩
  refine (hR a b hab).imp_right ?_
  rintro ⟨xs, ys, hxs, hys, helements⟩
  exact ⟨xs, ys, hxs, hys, helements.imp fun _ _ h ↦ h.mono fun _ _ h ↦ ⟨R, hR, h⟩⟩

/-- Every array is bisimilar to itself, since its elements are related to themselves. -/
theorem refl (s : Store) (a : Nat) : s.Bisimilar a a :=
  ⟨Eq, fun _ _ h ↦ .inl h, rfl⟩

/-- Bisimilarity is symmetric. -/
theorem symm (h : s.Bisimilar a b) : s.Bisimilar b a := by
  refine ⟨fun a b ↦ s.Bisimilar b a, fun a b hab ↦ ?_, h⟩
  rcases bisimulation s b a hab with rfl | ⟨xs, ys, hxs, hys, helements⟩
  · exact .inl rfl
  · exact .inr ⟨ys, xs, hys, hxs, helements.flip.imp fun _ _ h ↦ h.symm⟩

/-- A reason for `a` and `c` is put together from one for `a` and `b` and one for `b` and `c`; if
one of them is that both are the same array, the other one will do. -/
theorem trans (h : s.Bisimilar a b) (h' : s.Bisimilar b c) : s.Bisimilar a c := by
  refine ⟨fun a c ↦ ∃ b, s.Bisimilar a b ∧ s.Bisimilar b c, ?_, b, h, h'⟩
  rintro a c ⟨b, hab, hbc⟩
  have hleft : ∀ {x y}, Related s.Bisimilar x y →
      Related (fun a c ↦ ∃ b, s.Bisimilar a b ∧ s.Bisimilar b c) x y :=
    Related.mono fun a b h ↦ ⟨b, h, refl s b⟩
  rcases bisimulation s a b hab with rfl | ⟨xs, ys, hxs, hys, helements⟩
  · refine (bisimulation s a c hbc).imp_right ?_
    rintro ⟨xs, zs, hxs, hzs, helements⟩
    exact ⟨xs, zs, hxs, hzs, helements.imp fun _ _ h ↦ hleft h⟩
  · refine .inr ?_
    rcases bisimulation s b c hbc with rfl | ⟨ys', zs, hys', hzs, helements'⟩
    · exact ⟨xs, ys, hxs, hys, helements.imp fun _ _ h ↦ hleft h⟩
    · cases hys.symm.trans hys'
      exact ⟨xs, zs, hxs, hzs, forall₂_related_trans helements helements'⟩

end Bisimilar

/-! ### No reason against what is related -/

/-- What comparing without opening arrays finds, if a relation that has been met in part relates all
that is pending. -/
theorem compareFlat_of_related (met : ArrayPairs) {pending : List (Value × Value)}
    (h : ∀ p ∈ pending, Related R p.1 p.2) :
    compareFlat met pending = .settled ∨
      ∃ a b rest, compareFlat met pending = .arrays a b rest ∧ a ≠ b ∧ R a b ∧
        ∀ p ∈ rest, Related R p.1 p.2 := by
  fun_induction compareFlat met pending with
  | case1 => exact .inl rfl
  | case2 a b rest hmet ih => exact ih fun p hp ↦ h p (by simp [hp])
  | case3 a b rest hmet =>
    have hab : R a b := by
      cases h (.array a, .array b) (by simp) with
      | arrays h => exact h
      | flat h => cases h
    exact .inr ⟨a, b, rest, rfl, by simpa using fun heq ↦ hmet (by simp [heq]), hab,
      fun p hp ↦ h p (by simp [hp])⟩
  | case4 x y rest _ hflat ih => exact ih fun p hp ↦ h p (by simp [hp])
  | case5 x y rest hnot hflat =>
    cases h (x, y) (by simp) with
    | arrays h => exact (hnot _ _ rfl rfl).elim
    | flat h => exact absurd h hflat

/-- **What a bisimulation relates is found equal.** -/
theorem equalWithin_of_related (hR : s.Bisimulation R) (n : Nat) {met : ArrayPairs}
    {pending : List (Value × Value)} (h : ∀ p ∈ pending, Related R p.1 p.2) :
    s.equalWithin n met pending = true := by
  induction n generalizing met pending with
  | zero => rfl
  | succ n ih =>
    rcases compareFlat_of_related met h with hflat | ⟨a, b, rest, hflat, hne, hab, hrest⟩
    · rw [equalWithin, hflat]
    · obtain ⟨xs, ys, hxs, hys, helements⟩ := (hR a b hab).resolve_left hne
      have hsize : xs.size = ys.size := by simpa using helements.length_eq
      rw [equalWithin, hflat]
      simp only [hxs, hys, hsize, if_true]
      refine ih fun p hp ↦ ?_
      rcases List.mem_append.1 hp with hp | hp
      · exact (List.forall₂_iff_zip.1 helements).2 hp
      · exact hrest p hp

/-! ### What is found equal is related -/

/-- Two arrays that are taken to be equal: they are one array, or have been opened together. -/
def Assumed (opened : List (Nat × Nat)) (a b : Nat) : Prop :=
  a = b ∨ (a, b) ∈ opened

/-- The pairs that have been met are those that were opened, each of them once, and what is inside
of them is equal or still pending. -/
structure Opened (s : Store) (met : ArrayPairs) (opened : List (Nat × Nat))
    (pending : List (Value × Value)) : Prop where
  contains_iff : ∀ p, met.contains p = true ↔ p ∈ opened
  nodup : opened.Nodup
  reason : ∀ a b, (a, b) ∈ opened → ∃ xs ys, s.arrays[a]? = some xs ∧ s.arrays[b]? = some ys ∧
    xs.size = ys.size ∧
    ∀ p ∈ xs.toList.zip ys.toList, Related (Assumed opened) p.1 p.2 ∨ p ∈ pending

/-- What is known of the pending pairs from how far they can be compared: those that were passed
over are equal. -/
def Passes (opened : List (Nat × Nat)) (pending : List (Value × Value)) : Comparison → Prop
  | .settled => ∀ p ∈ pending, Related (Assumed opened) p.1 p.2
  | .differ => True
  | .arrays a b rest => (a, b) ∉ opened ∧
    ∀ p ∈ pending, Related (Assumed opened) p.1 p.2 ∨ p = (.array a, .array b) ∨ p ∈ rest

/-- A pair that is related by assumption may be put before those that pass. -/
theorem Passes.cons {opened : List (Nat × Nat)} {pending : List (Value × Value)} {c : Comparison}
    (h : Passes opened pending c) (hxy : Related (Assumed opened) x y) :
    Passes opened ((x, y) :: pending) c := by
  cases c with
  | settled => exact List.forall_mem_cons.2 ⟨hxy, h⟩
  | differ => trivial
  | arrays a b rest => exact ⟨h.1, List.forall_mem_cons.2 ⟨.inl hxy, h.2⟩⟩

/-- A comparison of values that are no arrays passes if they are related. -/
theorem passes_compareFlat {met : ArrayPairs} {opened : List (Nat × Nat)}
    (hmet : ∀ p, met.contains p = true ↔ p ∈ opened) (pending : List (Value × Value)) :
    Passes opened pending (compareFlat met pending) := by
  fun_induction compareFlat met pending with
  | case1 => exact fun p hp ↦ (List.not_mem_nil hp).elim
  | case2 a b rest hknown ih =>
    refine ih.cons (.arrays ?_)
    rcases Bool.or_eq_true_iff.1 hknown with heq | hcontains
    · exact .inl (eq_of_beq heq)
    · exact .inr ((hmet _).1 hcontains)
  | case3 a b rest hknown =>
    refine ⟨fun hmem ↦ hknown ?_, List.forall_mem_cons.2 ⟨.inr (.inl rfl), fun p hp ↦ ?_⟩⟩
    · rw [(hmet _).2 hmem, Bool.or_true]
    · exact .inr (.inr hp)
  | case4 x y rest _ hflat ih => exact ih.cons (.flat hflat)
  | case5 => trivial

/-- There are no more pairs of arrays than the square of the number of arrays. -/
theorem length_le_of_nodup {pairs : List (Nat × Nat)} (hnodup : pairs.Nodup)
    (hexist : ∀ a b, (a, b) ∈ pairs → a < s.arrays.size ∧ b < s.arrays.size) :
    pairs.length ≤ s.arrays.size * s.arrays.size := by
  have hsubset : pairs ⊆ List.range s.arrays.size ×ˢ List.range s.arrays.size := by
    rintro ⟨a, b⟩ hab
    simpa using hexist a b hab
  simpa [List.length_product] using (List.Nodup.subperm hnodup hsubset).length_le

namespace Opened

variable {met : ArrayPairs} {opened : List (Nat × Nat)} {pending rest : List (Value × Value)}
  {a b : Nat} {xs ys : Array Value}

/-- Only pairs of arrays that are there are opened, each of them once. -/
theorem length_le (h : Opened s met opened pending) :
    opened.length ≤ s.arrays.size * s.arrays.size := by
  refine length_le_of_nodup h.nodup fun a b hab ↦ ?_
  obtain ⟨xs, ys, hxs, hys, -⟩ := h.reason a b hab
  exact ⟨(Array.getElem?_eq_some_iff.1 hxs).1, (Array.getElem?_eq_some_iff.1 hys).1⟩

/-- **Opening two arrays leaves their elements pending.** -/
theorem insert (h : Opened s met opened pending) (hxs : s.arrays[a]? = some xs)
    (hys : s.arrays[b]? = some ys) (hsize : xs.size = ys.size) (hnew : (a, b) ∉ opened)
    (hpending : ∀ p ∈ pending, Related (Assumed opened) p.1 p.2 ∨
      p = (.array a, .array b) ∨ p ∈ rest) :
    Opened s (met.insert (a, b)) ((a, b) :: opened) (xs.toList.zip ys.toList ++ rest) where
  contains_iff p := by
    rw [Std.TreeSet.contains_insert, Bool.or_eq_true, h.contains_iff, List.mem_cons, beq_iff_eq,
      Std.LawfulEqCmp.compare_eq_iff_eq, eq_comm]
  nodup := List.nodup_cons.2 ⟨hnew, h.nodup⟩
  reason a' b' hab := by
    rcases List.mem_cons.1 hab with heq | hold
    · cases heq
      exact ⟨xs, ys, hxs, hys, hsize, fun p hp ↦ .inr (List.mem_append_left _ hp)⟩
    · obtain ⟨xs', ys', hxs', hys', hsize', helements⟩ := h.reason a' b' hold
      refine ⟨xs', ys', hxs', hys', hsize', fun p hp ↦ ?_⟩
      have hmono : ∀ {x y}, Related (Assumed opened) x y →
          Related (Assumed ((a, b) :: opened)) x y :=
        Related.mono fun _ _ hassumed ↦ hassumed.imp_right (List.mem_cons_of_mem _)
      rcases helements p hp with hrelated | hp
      · exact .inl (hmono hrelated)
      -- What an older pair waits for is settled, or is the new pair, or is still pending.
      rcases hpending p hp with hrelated | rfl | hp
      · exact .inl (hmono hrelated)
      · exact .inl (.arrays (.inr List.mem_cons_self))
      · exact .inr (List.mem_append_right _ hp)

/-- If nothing is pending that is not equal, the pairs that were opened are a bisimulation together
with the diagonal. -/
theorem bisimulation (h : Opened s met opened pending)
    (hpending : ∀ p ∈ pending, Related (Assumed opened) p.1 p.2) :
    s.Bisimulation (Assumed opened) := by
  rintro a b (rfl | hab)
  · exact .inl rfl
  · obtain ⟨xs, ys, hxs, hys, hsize, helements⟩ := h.reason a b hab
    refine .inr ⟨xs, ys, hxs, hys, List.forall₂_iff_zip.2 ⟨by simpa using hsize, ?_⟩⟩
    intro x y hxy
    exact (helements (x, y) hxy).elim id (hpending (x, y))

end Opened

/-- **What is found equal is related by a bisimulation**, if the bound is not met. -/
theorem related_of_equalWithin {n : Nat} {met : ArrayPairs} {opened : List (Nat × Nat)}
    {pending : List (Value × Value)} (h : Opened s met opened pending)
    (hn : s.arrays.size * s.arrays.size < n + opened.length)
    (heq : s.equalWithin n met pending = true) :
    ∃ R, s.Bisimulation R ∧ (∀ a b, Assumed opened a b → R a b) ∧
      ∀ p ∈ pending, Related R p.1 p.2 := by
  induction n generalizing met opened pending with
  | zero => exact absurd h.length_le (by omega)
  | succ n ih =>
    have hflat := passes_compareFlat h.contains_iff pending
    rw [equalWithin] at heq
    split at heq
    · next hsettled =>
      rw [hsettled] at hflat
      -- Nothing speaks against the pairs that are open: they are the bisimulation.
      exact ⟨Assumed opened, h.bisimulation hflat, fun _ _ ↦ id, hflat⟩
    · cases heq
    · next a b rest harrays =>
      rw [harrays] at hflat
      obtain ⟨hnew, hpending⟩ := hflat
      split at heq
      · next xs ys hxs hys =>
        split at heq
        · next hsize =>
          -- What the rest of the walk gives relates the pair that is opened here as well.
          obtain ⟨R, hR, hassumed, hrelated⟩ :=
            ih (h.insert hxs hys hsize hnew hpending) (by simp; omega) heq
          have hold : ∀ a b, Assumed opened a b → R a b := fun a b hab ↦
            hassumed a b (hab.imp_right (List.mem_cons_of_mem _))
          refine ⟨R, hR, hold, fun p hp ↦ ?_⟩
          rcases hpending p hp with hp | rfl | hp
          · exact hp.mono hold
          · exact .arrays (hassumed a b (.inr List.mem_cons_self))
          · exact hrelated p (List.mem_append_right _ hp)
        · cases heq
      · cases heq

/-! ### Equality -/

/-- **Equality on any sufficient bound is bisimilarity.** -/
theorem equalWithin_iff (s : Store) {n : Nat} (hn : s.arrays.size * s.arrays.size < n)
    (x y : Value) : s.equalWithin n {} [(x, y)] = true ↔ Related s.Bisimilar x y := by
  have hstart : Opened s {} [] [(x, y)] :=
    ⟨fun p ↦ by simp, .nil, fun _ _ hab ↦ (List.not_mem_nil hab).elim⟩
  constructor
  · intro heq
    obtain ⟨R, hR, -, hrelated⟩ := related_of_equalWithin hstart (by simpa using hn) heq
    exact (hrelated (x, y) (by simp)).mono fun a b hab ↦ ⟨R, hR, hab⟩
  · intro h
    exact equalWithin_of_related (Bisimilar.bisimulation s) n (by simpa using h)

/-- **Values are equal if they are related by bisimilarity.** -/
theorem equal_iff_related (s : Store) (x y : Value) :
    s.equal x y = true ↔ Related s.Bisimilar x y :=
  s.equalWithin_iff (Nat.lt_succ_self _) x y

/-- Values that are not both arrays are related if they are equal as they are. -/
theorem related_iff_equalFlat (h : ∀ a b, ¬ (x = .array a ∧ y = .array b)) :
    Related R x y ↔ equalFlat x y = true := by
  constructor
  · rintro (_ | hflat)
    · exact absurd ⟨rfl, rfl⟩ (h _ _)
    · exact hflat
  · exact .flat

/-- Only what is no number differs from itself. -/
theorem related_self_iff (s : Store) (x : Value) :
    Related s.Bisimilar x x ↔ ∀ number, x = .num number → number.isNaN = false := by
  cases x with
  | array a => exact ⟨nofun, fun _ ↦ .arrays (Bisimilar.refl s a)⟩
  | num number =>
    rw [related_iff_equalFlat (by simp), equalFlat, Number.equal_iff]
    have hpoint := Number.point?_eq_none_iff number
    cases h : Number.point? number <;> simp_all
  | _ => exact ⟨nofun, fun _ ↦ .flat (by simp [equalFlat])⟩

end Store

end AliasScript
