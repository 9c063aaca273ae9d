import AliasScript.Builtin.Call
import AliasScript.Evaluation.Operator
import AliasScript.Proofs.Evaluation.Alias

/-!
# Operators and built-in functions

Operators and built-in functions give plain values for plain operands. An operator that the grammar
allows is never an unknown one, and a built-in function with as many arguments as it takes never
stops at their number.
-/

namespace AliasScript

namespace Meets

variable {A : Family} {o : Labels} {m : Machine} {v w : Value}

/-! ### Operators -/

theorem onNumbers (hm : m.memory.Sound o) (operator : Token) {f : Float → Float → Run Value}
    (hf : ∀ x y, Meets A o m (fun _ ↦ f x y) IsPlain) :
    Meets A o m (fun _ ↦ Evaluator.onNumbers operator v w f) IsPlain := by
  unfold Evaluator.onNumbers
  split
  · exact hf _ _
  · exact .fault hm

/-- The elements of an array that is there. -/
theorem elements {α : Type} {G : Evaluator → Array Value → Run α}
    {Q : Labels → Memory → α → Prop} {id : Nat} {xs : Array Value}
    (hid : m.store.arrays[id]? = some xs) (h : Meets A o m (fun r ↦ G r xs) Q) :
    Meets A o m (fun r ↦ Run.elements id >>= G r) Q := by
  have hrun : Run.elements id m = .ok xs m := by
    show Run.require .dangling m.store.arrays[id]? m = _
    rw [hid]
    rfl
  refine h.congr fun r ↦ ?_
  show EStateM.bind (Run.elements id) (G r) m = _
  rw [EStateM.bind, hrun]

theorem newArray (hm : m.memory.Sound o) {xs : Array Value}
    (hxs : ∀ v ∈ xs, v.Plain m.memory.store) : Meets A o m (fun _ ↦ Run.newArray xs) IsPlain := by
  refine .onStore (hm.addArray hxs) ⟨?_, rfl⟩
  simp [Value.Live, Store.addArray]

theorem sum (hm : m.memory.Sound o) (operator : Token) (hv : v.Plain m.memory.store)
    (hw : w.Plain m.memory.store) :
    Meets A o m (fun _ ↦ Evaluator.sum operator v w) IsPlain := by
  unfold Evaluator.sum
  split
  · exact .pure hm ⟨trivial, rfl⟩
  · exact .pure hm ⟨trivial, rfl⟩
  · next id =>
    have helements : ∀ xs, m.memory.store.arrays[id]? = some xs →
        ∀ x ∈ xs.push w, x ∈ xs ∨ x.Plain m.memory.store := by
      intro xs _ x hx
      rcases Array.mem_push.1 hx with hx | rfl
      · exact .inl hx
      · exact .inr hw
    have hgrows := hm.changeArray helements
    exact .changeStoreThen hgrows (.pure hgrows.sound (hv.later hgrows.later))
  · exact .fault hm

theorem difference (hm : m.memory.Sound o) (operator : Token) (hv : v.Plain m.memory.store) :
    Meets A o m (fun _ ↦ Evaluator.difference operator v w) IsPlain := by
  unfold Evaluator.difference
  split
  · exact .pure hm ⟨trivial, rfl⟩
  · next id count =>
    have hid : m.store.arrays[id]? = some _ := Array.getElem?_eq_getElem hv.1
    refine .elements hid ?_
    split
    · refine .newArray hm fun v hv ↦ ?_
      obtain ⟨i, hi, rfl⟩ := Array.mem_extract_iff_getElem.1 hv
      exact hm.items (.element _) (.inl ⟨_, Array.mem_of_getElem? hid, Array.getElem_mem _⟩)
    · exact .fault hm
  · exact .fault hm

/-- **A binary operator of the grammar gives a plain value.** -/
theorem binary (hm : m.memory.Sound o) {operator : Token} {rank : Rank}
    (hrank : operator.kind.binaryRank? = some rank) (hv : v.Plain m.memory.store)
    (hw : w.Plain m.memory.store) :
    Meets A o m (fun _ ↦ Evaluator.binary operator v w) IsPlain := by
  have hnumber : ∀ x, Meets A o m (fun _ ↦ return .num x) IsPlain := fun _ ↦
    .pure hm ⟨trivial, rfl⟩
  have hbool : ∀ b, Meets A o m (fun _ ↦ return .bool b) IsPlain := fun _ ↦
    .pure hm ⟨trivial, rfl⟩
  cases hkind : operator.kind <;> rw [hkind] at hrank <;> try cases hrank
  all_goals simp only [Evaluator.binary, hkind]
  case comma => exact .pure hm hw
  case plus => exact .sum hm operator hv hw
  case minus => exact .difference hm operator hv
  case star | percent => exact .onNumbers hm operator fun _ _ ↦ hnumber _
  case greater | greaterEqual | less | lessEqual => exact .onNumbers hm operator fun _ _ ↦ hbool _
  case slash =>
    refine .onNumbers hm operator fun x y ↦ ?_
    split
    · exact .fault hm
    · exact hnumber _
  case equalEqual | bangEqual => exact .read (hbool _)

theorem unary (hm : m.memory.Sound o) {operator : Token}
    (hoperator : operator.kind = .minus ∨ operator.kind = .bang) :
    Meets A o m (fun _ ↦ Evaluator.unary operator v) IsPlain := by
  rcases hoperator with hkind | hkind <;> simp only [Evaluator.unary, hkind]
  · cases v with
    | num x => exact .pure hm ⟨trivial, rfl⟩
    | _ => exact .fault hm
  · exact .pure hm ⟨trivial, rfl⟩

/-! ### Built-in functions -/

theorem writeOut (hm : m.memory.Sound o) (paren : Token) (text : String) :
    Meets A o m (fun _ ↦ Builtin.writeOut paren text) IsPlain := by
  refine .read ?_
  split
  · refine .bind (P := fun _ _ _ ↦ True) (.changeWorld hm trivial) fun o' m' _ leads _ ↦ ?_
    exact .pure leads.grows.sound ⟨trivial, rfl⟩
  · exact .fault hm

theorem readIn (hm : m.memory.Sound o) : Meets A o m (fun _ ↦ Builtin.readIn) IsPlain := by
  refine .bind (P := fun _ _ _ ↦ True) (.onWorld hm trivial) fun o' m' line leads _ ↦ ?_
  split <;> exact .pure leads.grows.sound ⟨trivial, rfl⟩

theorem readClock (hm : m.memory.Sound o) : Meets A o m (fun _ ↦ Builtin.readClock) IsPlain := by
  unfold Builtin.readClock
  exact .onWorld hm ⟨trivial, rfl⟩

theorem lengthOf (hm : m.memory.Sound o) (hv : v.Plain m.memory.store) :
    Meets A o m (fun _ ↦ Builtin.lengthOf v) IsPlain := by
  cases v with
  | array id => exact .elements (Array.getElem?_eq_getElem hv.1) (.pure hm ⟨trivial, rfl⟩)
  | _ => exact .pure hm ⟨trivial, rfl⟩

theorem shifted (hm : m.memory.Sound o) (paren : Token) (shift : Int → Int → Int) :
    Meets A o m (fun _ ↦ Builtin.shifted paren shift v w) IsPlain := by
  unfold Builtin.shifted
  split
  · exact .pure hm ⟨trivial, rfl⟩
  · exact .fault hm

/-- What a built-in function reads from the world or says of it is a plain value. -/
theorem fromWorld {α : Type} (hm : m.memory.Sound o) {f : World → α × World} {g : α → Value}
    (hg : ∀ a s, (g a).Plain s) :
    Meets A o m (fun _ ↦ do return g (← Run.onWorld f)) IsPlain :=
  .bind (P := fun _ _ _ ↦ True) (.onWorld hm trivial) fun _ _ _ leads _ ↦
    .pure leads.grows.sound (hg _ _)

/-- **A built-in function with as many arguments as it takes gives a plain value.** -/
theorem builtin (hm : m.memory.Sound o) (paren : Token) {b : Builtin} {arguments : List Value}
    (harity : b.arity = arguments.length) (harguments : ∀ v ∈ arguments, v.Plain m.memory.store) :
    Meets A o m (fun _ ↦ b.call paren arguments) IsPlain := by
  match arguments, harity with
  | [], harity =>
    cases b <;> cases harity
    case input => exact .readIn hm
    case clock => exact .readClock hm
  | [v], harity =>
    cases b <;> cases harity
    case print | put => exact .read (.writeOut hm paren _)
    case str => exact .read (.pure hm ⟨trivial, rfl⟩)
    case num =>
      refine .read ?_
      split <;> exact .pure hm ⟨trivial, rfl⟩
    case round =>
      cases v with
      | num x => exact .pure hm ⟨trivial, rfl⟩
      | _ => exact .fault hm
    case len => exact .lengthOf hm (harguments v (by simp))
    case readFile =>
      refine .read (.bind (P := fun _ _ _ ↦ True) (.onWorld hm trivial) ?_)
      intro o' m' text leads _
      split <;> exact .pure leads.grows.sound ⟨trivial, rfl⟩
  | [v, w], harity =>
    cases b <;> cases harity
    case writeFile | appendFile => exact .read (.read (.fromWorld hm fun _ _ ↦ ⟨trivial, rfl⟩))
    case leftShift | rightShift => exact .shifted hm paren _
  | _ :: _ :: _ :: _, harity => cases b <;> cases harity

end Meets

end AliasScript
