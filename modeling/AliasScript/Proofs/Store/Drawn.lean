import AliasScript.Store.Display
import Mathlib.Data.Finset.SDiff
import Mathlib.Data.Finset.Card
import Mathlib.Data.Finset.Range
import Mathlib.Logic.Relation

/-!
# How arrays are drawn

The text of an array is said without a bound, by the rules of `Store.Writes`: inside of the texts of
the arrays on a path, an array is abbreviated exactly if it is on the path, and every other one is
written in full, with its elements in order. The path is that of the occurrence, so an array that
was written before, and is not being written any more, is written in full again.

`text` gives up at a depth that depends on the number of arrays. It is never met: the arrays on a
path are different ones, and each of them but the last has elements, so it is there
(`writes_textWithin`). A value has one text by the rules (`Writes.unique`), so they say what `text`
is.

Where no cycle can be reached nothing is abbreviated, and the rules come down to the plain recursion
of `Store.PlainText`; and that recursion comes to an end only there.

The path need not be passed down by value. `textMarking` writes with one set that it changes as it
goes: every array gives back the set that it was given (`textMarking_eq`), so what stands behind an
array is written as if the array had never been in the set.
-/

namespace AliasScript

open Relation (ReflTransGen TransGen)

/-- Whether the value is an array. -/
def Value.isArray : Value → Bool
  | array _ => true
  | _ => false

namespace Store

variable (s : Store)

/-! ### The rules -/

/-- The text of an array, made of the texts of its elements. -/
def textInFull (id : Nat) (texts : Value → String) : String :=
  "[" ++ String.intercalate ", " ((s.elements id).map texts) ++ "]"

/-- **How a value is written inside of the arrays on a path**, the innermost of which comes first.
-/
inductive Writes : List Nat → Value → String → Prop
  | flat {path : List Nat} {v : Value} : v.isArray = false → Writes path v (s.textFlat v)
  /-- An array that is being written already. -/
  | abbreviated {path : List Nat} {id : Nat} : id ∈ path → Writes path (.array id) "[...]"
  | full {path : List Nat} {id : Nat} {texts : Value → String} : id ∉ path →
      (∀ v ∈ s.elements id, Writes (id :: path) v (texts v)) →
      Writes path (.array id) (s.textInFull id texts)

/-- The plain recursion: every array is written in full. -/
inductive PlainText : Value → String → Prop
  | flat {v : Value} : v.isArray = false → PlainText v (s.textFlat v)
  | full {id : Nat} {texts : Value → String} :
      (∀ v ∈ s.elements id, PlainText v (texts v)) → PlainText (.array id) (s.textInFull id texts)

/-- The array has the other one as an element. -/
def Nests (a b : Nat) : Prop :=
  .array b ∈ s.elements a

/-- **No cycle can be reached from the value**: no array inside of it is inside of itself. -/
def CycleFree (v : Value) : Prop :=
  ∀ a b, v = .array a → ReflTransGen s.Nests a b → ¬ TransGen s.Nests b b

variable {s} {path : List Nat} {v w : Value} {t t' : String} {id : Nat}

/-- Texts of an array differ only if those of its elements do. -/
theorem textInFull_congr {texts texts' : Value → String}
    (h : ∀ v ∈ s.elements id, texts v = texts' v) :
    s.textInFull id texts = s.textInFull id texts' := by
  rw [textInFull, textInFull, List.map_congr_left h]

theorem Writes.unique (h : s.Writes path v t) (h' : s.Writes path v t') : t = t' := by
  induction h generalizing t' with
  | flat hflat =>
    cases h' with
    | flat => rfl
    | abbreviated | full => cases hflat
  | abbreviated hmem =>
    cases h' with
    | flat hflat => cases hflat
    | abbreviated => rfl
    | full hnot => exact absurd hmem hnot
  | full hnot _ ih =>
    cases h' with
    | flat hflat => cases hflat
    | abbreviated hmem => exact absurd hmem hnot
    | full _ helements => exact textInFull_congr fun v hv ↦ ih v hv (helements v hv)

theorem PlainText.unique (h : s.PlainText v t) (h' : s.PlainText v t') : t = t' := by
  induction h generalizing t' with
  | flat hflat =>
    cases h' with
    | flat => rfl
    | full => cases hflat
  | full _ ih =>
    cases h' with
    | flat hflat => cases hflat
    | full helements => exact textInFull_congr fun v hv ↦ ih v hv (helements v hv)

/-! ### The depth is never met -/

theorem lt_size_of_mem_elements (h : v ∈ s.elements id) : id < s.arrays.size := by
  by_contra hnot
  rw [elements, Array.getElem?_eq_none (Nat.not_lt.1 hnot)] at h
  cases h

/-- The arrays that are not on a path. -/
def unopened (s : Store) (path : List Nat) : Finset Nat :=
  Finset.range s.arrays.size \ path.toFinset

/-- One array fewer is left to be opened inside of an array with elements. -/
theorem card_unopened_cons_lt (hid : id < s.arrays.size) (hnot : id ∉ path) :
    (s.unopened (id :: path)).card < (s.unopened path).card := by
  have hmem : id ∈ s.unopened path :=
    Finset.mem_sdiff.2 ⟨Finset.mem_range.2 hid, by simpa using hnot⟩
  rw [unopened, List.toFinset_cons, Finset.sdiff_insert]
  exact Finset.card_erase_lt_of_mem hmem

theorem textWithin_flat (n : Nat) (opened : Std.TreeSet Nat) (h : v.isArray = false) :
    s.textWithin n opened v = s.textFlat v := by
  cases v with
  | array => cases h
  | _ => cases n <;> rfl

/-- **The text of a value is written by the rules**, if the depth allows for all arrays that are not
open yet. -/
theorem writes_textWithin {n : Nat} {opened : Std.TreeSet Nat} (hn : (s.unopened path).card < n)
    (hpath : ∀ id, opened.contains id = true ↔ id ∈ path) (v : Value) :
    s.Writes path v (s.textWithin n opened v) := by
  induction n generalizing path opened v with
  | zero => exact absurd hn (Nat.not_lt_zero _)
  | succ n ih =>
    cases harray : v.isArray with
    | false => exact textWithin_flat (n + 1) opened harray ▸ .flat harray
    | true =>
      cases v with
      | array id =>
        rw [textWithin]
        split
        · next hopen => exact .abbreviated ((hpath id).1 hopen)
        · next hopen =>
          have hnot : id ∉ path := fun hmem ↦ hopen ((hpath id).2 hmem)
          refine .full hnot fun w hw ↦ ih ?_ (fun k ↦ ?_) w
          · have hlt := card_unopened_cons_lt (lt_size_of_mem_elements hw) hnot
            omega
          · rw [Std.TreeSet.contains_insert, Bool.or_eq_true, hpath, List.mem_cons, beq_iff_eq,
              Std.LawfulEqCmp.compare_eq_iff_eq, eq_comm]
      | _ => cases harray

theorem writes_text (v : Value) : s.Writes [] v (s.text v) := by
  rw [text_eq_textWithin]
  refine writes_textWithin ?_ (fun id ↦ by simp) v
  simp [unopened]

/-! ### One set for all that is being written -/

/-- The texts of values one after the other, with a set that is passed along. -/
def textsAlong (text : Value → Std.TreeSet Nat → String × Std.TreeSet Nat) :
    List Value → Std.TreeSet Nat → List String × Std.TreeSet Nat
  | [], seen => ([], seen)
  | v :: rest, seen =>
    let (first, seen) := text v seen
    let (texts, seen) := textsAlong text rest seen
    (first :: texts, seen)

/-- The text of a value, where one set is passed along: an array is put into it before its elements
are written and taken out of it behind them, and it is abbreviated if it is in the set already. To a
bounded depth. -/
def textMarking (s : Store) : Nat → Value → Std.TreeSet Nat → String × Std.TreeSet Nat
  | n + 1, .array id, seen =>
    if seen.contains id then ("[...]", seen)
    else
      let (texts, seen) := textsAlong (textMarking s n) (s.elements id) (seen.insert id)
      ("[" ++ String.intercalate ", " texts ++ "]", seen.erase id)
  | _, v, seen => (s.textFlat v, seen)

/-- Two sets with the same arrays in them. -/
def SameArrays (seen opened : Std.TreeSet Nat) : Prop :=
  ∀ id, seen.contains id = opened.contains id

namespace SameArrays

variable {seen seen' opened : Std.TreeSet Nat}

theorem insert (h : SameArrays seen opened) (id : Nat) :
    SameArrays (seen.insert id) (opened.insert id) := by
  intro k
  rw [Std.TreeSet.contains_insert, Std.TreeSet.contains_insert, h k]

/-- Taking out what was put in leads back to where it was not in. -/
theorem erase (h : SameArrays seen' (opened.insert id)) (hnot : opened.contains id = false) :
    SameArrays (seen'.erase id) opened := by
  intro k
  rw [Std.TreeSet.contains_erase, h k, Std.TreeSet.contains_insert]
  cases hk : compare id k == .eq with
  | false => simp [bne, hk]
  | true =>
    obtain rfl := Std.LawfulEqCmp.compare_eq_iff_eq.1 (eq_of_beq hk)
    simp [hnot]

end SameArrays

/-- What gives back the set that it was given does so one after the other, too. -/
theorem sameArrays_textsAlong {text : Value → Std.TreeSet Nat → String × Std.TreeSet Nat}
    {plain : Value → String} {opened : Std.TreeSet Nat}
    (h : ∀ v seen, SameArrays seen opened →
      (text v seen).1 = plain v ∧ SameArrays (text v seen).2 opened)
    (vs : List Value) {seen : Std.TreeSet Nat} (hseen : SameArrays seen opened) :
    (textsAlong text vs seen).1 = vs.map plain ∧ SameArrays (textsAlong text vs seen).2 opened := by
  induction vs generalizing seen with
  | nil => exact ⟨rfl, hseen⟩
  | cons v rest ih =>
    obtain ⟨hfirst, hsame⟩ := h v seen hseen
    obtain ⟨hrest, hend⟩ := ih hsame
    rw [textsAlong, List.map_cons, ← hfirst, ← hrest]
    exact ⟨rfl, hend⟩

/-- **Each array gives back the set that it was given**, so at every array the set is the path, and
the text is the same. -/
theorem textMarking_eq (n : Nat) (v : Value) {seen opened : Std.TreeSet Nat}
    (h : SameArrays seen opened) :
    (s.textMarking n v seen).1 = s.textWithin n opened v ∧
      SameArrays (s.textMarking n v seen).2 opened := by
  induction n generalizing v seen opened with
  | zero => cases v <;> exact ⟨rfl, h⟩
  | succ n ih =>
    cases v with
    | array id =>
      rw [textMarking, textWithin, h id]
      cases hopen : opened.contains id with
      | true => exact ⟨rfl, h⟩
      | false =>
        obtain ⟨htexts, hsame⟩ :=
          sameArrays_textsAlong (fun w seen ↦ ih w) (s.elements id) (h.insert id)
        rw [← htexts]
        exact ⟨rfl, hsame.erase hopen⟩
    | _ => exact ⟨rfl, h⟩

/-! ### Where no cycle can be reached -/

/-- What is inside of an array has no cycle if the array has none. -/
theorem CycleFree.element (h : s.CycleFree (.array id)) (hv : v ∈ s.elements id) :
    s.CycleFree v := by
  rintro a b rfl hreach
  exact h id b rfl (.head hv hreach)

/-- Where no cycle can be reached, no array is abbreviated. -/
theorem Writes.plainText (h : s.Writes path v t) (hfree : s.CycleFree v)
    (hpath : ∀ p ∈ path, ∀ id, v = .array id → TransGen s.Nests p id) : s.PlainText v t := by
  induction h with
  | flat hflat => exact .flat hflat
  | abbreviated hmem => exact absurd (hpath _ hmem _ rfl) (hfree _ _ rfl .refl)
  | @full path id texts hnot helements ih =>
    refine .full fun v hv ↦ ih v hv (hfree.element hv) ?_
    -- Arrays on the path hold this one, or something that it is inside of.
    rintro p hp k rfl
    rcases List.mem_cons.1 hp with rfl | hp
    · exact .single hv
    · exact .tail (hpath p hp id rfl) hv

/-- The plain recursion ends only where no cycle can be reached. -/
theorem PlainText.cycleFree (h : s.PlainText v t) : s.CycleFree v := by
  induction h with
  | flat hflat =>
    rintro a b rfl
    cases hflat
  | @full id texts helements ih =>
    rintro a b ⟨⟩ hreach hcycle
    -- A cycle through the array itself can be reached from the element that it begins with.
    rcases ReflTransGen.cases_head hreach with rfl | ⟨k, hk, hreach⟩
    · obtain ⟨k, hk, hback⟩ := TransGen.head'_iff.1 hcycle
      exact ih (.array k) hk k id rfl hback hcycle
    · exact ih (.array k) hk k b rfl hreach hcycle

/-- **The text of a value abbreviates the cycles in it and nothing else.** It is what the rules
write, and where no cycle can be reached it is what the plain recursion gives, which comes to an end
exactly there. One set that is passed along gives the same text on any sufficient depth, and is
empty again behind it. -/
theorem text_abbreviates_cycles (s : Store) (v : Value) :
    (∀ t, s.Writes [] v t ↔ t = s.text v) ∧ ((∃ t, s.PlainText v t) ↔ s.CycleFree v) ∧
      (∀ t, s.PlainText v t → t = s.text v) ∧
      ∀ n, s.arrays.size < n → (s.textMarking n v {}).1 = s.text v ∧
        ∀ id, (s.textMarking n v {}).2.contains id = false := by
  have hwrites := writes_text (s := s) v
  have hplain : s.CycleFree v → s.PlainText v (s.text v) := fun hfree ↦
    hwrites.plainText hfree nofun
  refine ⟨fun t ↦ ⟨fun h ↦ h.unique hwrites, fun h ↦ h ▸ hwrites⟩, ⟨?_, ?_⟩, ?_, fun n hn ↦ ?_⟩
  · rintro ⟨t, ht⟩
    exact ht.cycleFree
  · exact fun hfree ↦ ⟨_, hplain hfree⟩
  · exact fun t ht ↦ ht.unique (hplain ht.cycleFree)
  · obtain ⟨htext, hsame⟩ := textMarking_eq (s := s) n v (fun _ ↦ rfl : SameArrays {} {})
    have hdepth : s.Writes [] v (s.textWithin n {} v) :=
      writes_textWithin (by simpa [unopened] using hn) (fun id ↦ by simp) v
    exact ⟨htext.trans (hdepth.unique hwrites), fun id ↦ (hsame id).trans (by simp)⟩

/-- An array that is shared is written twice, and inside of itself it is abbreviated. -/
example : text { initial with arrays := #[#[.array 1, .array 1], #[.nil, .array 1]] } (.array 0) =
    "[[nil, [...]], [nil, [...]]]" := by
  rw [text_eq_textWithin]
  decide +kernel

end Store

end AliasScript
