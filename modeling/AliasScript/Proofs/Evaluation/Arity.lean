import AliasScript.Proofs.Evaluation.Call
import AliasScript.Proofs.Scope.Violations

/-!
# Arguments fit

A function takes some arguments if there are as many as it has parameters and if its frame binds
each parameter to its own argument (`Function.Takes`). The second is more than the first: of two
parameters with one name the earlier one would lose its argument. An accepted program has no such
function, since a name that is declared twice in one scope is an error
(`Accepted.nodup_parameters`).

What is called has to fit wherever arguments are taken: in a call of a function, in the initializer
that a class looks for once more when it makes an instance, in a class without an initializer, which
takes nothing, and in a built-in function. `Evaluator.applyExactly` calls something and stops with a
given halt where the arguments do not fit. Of what can be called at all it makes no difference
(`Applicable.applyExactly_eq`).
-/

namespace AliasScript

/-! ### Parameters -/

theorem nodup_append_of_redeclarations {before names : List Token}
    (hbefore : (before.map Token.lexeme).Nodup) (h : redeclarations before names = []) :
    ((before ++ names).map Token.lexeme).Nodup := by
  induction names generalizing before with
  | nil => rwa [List.append_nil]
  | cons name rest ih =>
    obtain ⟨hname, hrest⟩ := List.append_eq_nil_iff.1 h
    have hnew : name.lexeme ∉ before.map Token.lexeme := by
      intro hmem
      rw [redeclaration, if_pos hmem] at hname
      cases hname
    have hnodup : ((before ++ [name]).map Token.lexeme).Nodup := by
      rw [List.map_append, List.nodup_append']
      exact ⟨hbefore, List.nodup_singleton _, by simpa using hnew⟩
    rw [List.append_cons]
    exact ih hnodup hrest

/-- **The parameters of a function of an accepted program have different names.** -/
theorem Accepted.nodup_parameters {index : Nat} {source : String} {program : Program}
    {addresses : List Address} (h : Accepted index source program addresses) {c : Context}
    {f : Function} (hv : Walks program ⟨c, .function f⟩) :
    ((f.parameters.getD []).map Token.lexeme).Nodup := by
  have hfinish := h.errors_finish hv
  rw [Visit.finish_eq] at hfinish
  have hbody : (c.atBody f).start.errors.size ≤ _ :=
    ((c.atBody f).walked (Node.function f).parts).errors
  have hclean : (c.atBody f).start.errors.toList = [] := by
    rw [← List.length_eq_zero_iff, Array.length_toList]
    exact Nat.le_zero.1 (Nat.le_trans hbody (Nat.le_of_eq hfinish))
  have hdeclared := (Resolution.declareAll_eq (Resolution.knows_enter c.start)
    (by simp [Resolution.enter]) (f.parameters.getD [])).1
  have hnone := List.append_eq_nil_iff.1 (hdeclared.symm.trans hclean)
  have hstart : (([] : List Token).map Token.lexeme).Nodup := List.nodup_nil
  exact nodup_append_of_redeclarations hstart hnone.2

theorem Memory.Visits.nodup_parameters {μ : Memory} {c : Context} {f : Function}
    (h : μ.Visits ⟨c, .function f⟩) : ((f.parameters.getD []).map Token.lexeme).Nodup := by
  obtain ⟨program, hknows, hv⟩ := h
  obtain ⟨index, source, addresses, haccepted⟩ := hknows.accepted
  exact haccepted.nodup_parameters hv

/-! ### Arguments -/

/-- **The function takes the arguments**: its frame binds each parameter to the argument at its
place, and nothing else. -/
structure Function.Takes (f : Function) (arguments : List Value) : Prop where
  count : arguments.length = f.arity
  binds : ∀ (i : Nat) (t : Token) (v : Value), (f.parameters.getD [])[i]? = some t →
    arguments[i]? = some v → (f.bindings arguments).get? t.lexeme = some v
  only : ∀ x v, (f.bindings arguments).get? x = some v →
    ∃ (i : Nat) (t : Token), (f.parameters.getD [])[i]? = some t ∧ t.lexeme = x ∧
      arguments[i]? = some v

/-- Of pairs with different names each is found. -/
theorem Bindings.get?_ofPairs {α : Type} {pairs : List (String × α)}
    (h : (pairs.map Prod.fst).Nodup) {x : String} {a : α} (hmem : (x, a) ∈ pairs) :
    (ofPairs pairs).get? x = some a := by
  have hbound : ((ofPairs pairs).get? x).isSome :=
    isSome_get?_ofPairs (List.mem_map.2 ⟨_, hmem, rfl⟩)
  obtain ⟨a', ha'⟩ := Option.isSome_iff_exists.1 hbound
  have hsame := List.inj_on_of_nodup_map h (mem_of_get?_ofPairs ha') hmem rfl
  rw [ha', Prod.mk.inj hsame |>.2]

theorem Function.takes_of_nodup {f : Function} {arguments : List Value}
    (hnodup : ((f.parameters.getD []).map Token.lexeme).Nodup)
    (hcount : f.arity = arguments.length) : f.Takes arguments where
  count := hcount.symm
  binds i t v ht hv := by
    refine Bindings.get?_ofPairs ?_ (List.mem_of_getElem? (i := i) ?_)
    · rwa [List.map_fst_zip (by simpa [Function.arity] using Nat.le_of_eq hcount)]
    · rw [List.getElem?_zip_eq_some, List.getElem?_map, ht]
      exact ⟨rfl, hv⟩
  only x v hx := by
    obtain ⟨i, hi⟩ := List.mem_iff_getElem?.1 (Bindings.mem_of_get?_ofPairs hx)
    obtain ⟨hname, hv⟩ := List.getElem?_zip_eq_some.1 hi
    rw [List.getElem?_map] at hname
    obtain ⟨t, ht, hlexeme⟩ := Option.map_eq_some_iff.1 hname
    exact ⟨i, t, ht, hlexeme, hv⟩

/-! ### Calls -/

namespace Evaluator

variable (r : Evaluator) (h : Halt)

open Classical in
/-- Calls a function if it takes the arguments. -/
noncomputable def callExactly (closure : Closure) (arguments : List Value) : Run Value :=
  if closure.declaration.Takes arguments then r.callFunction closure arguments else throw h

/-- Makes an instance and runs its initializer if it takes the arguments; without an initializer
there must be none. -/
noncomputable def constructExactly (id : ClassId) (arguments : List Value) : Run Value := do
  let object ← Run.onStore (·.addObject ⟨id, []⟩)
  match ← Run.read fun m ↦ m.store.findMethod id "init" with
  | some method =>
    let _ ← callExactly r h (← bindMethod method (.object object) true) arguments
    return .object object
  | none => if arguments.length = 0 then return .object object else throw h

/-- Runs what is called if the arguments fit. -/
noncomputable def applyExactly (paren : Token) (callee : Callee) (arguments : List Value) :
    Run Value :=
  match callee with
  | .function closure => callExactly r h closure arguments
  | .construct id _ => constructExactly r h id arguments
  | .builtin b => if arguments.length = b.arity then b.call paren arguments else throw h

variable {r h} {arguments : List Value}

theorem callExactly_eq {closure : Closure} (hclosure : closure.declaration.Takes arguments) :
    r.callExactly h closure arguments = r.callFunction closure arguments :=
  if_pos hclosure

/-- **The initializer that is run is the one that the arguments were counted for.** -/
theorem constructExactly_eq {m : Machine} {id : ClassId}
    (hsome : ∀ method, m.store.findMethod id "init" = some method →
      method.declaration.Takes arguments)
    (hnone : m.store.findMethod id "init" = none → arguments.length = 0) :
    r.constructExactly h id arguments m = r.construct id arguments m := by
  -- An instance that is made changes no class.
  have hfind : (m.store.addObject ⟨id, []⟩).2.findMethod id "init" = m.store.findMethod id "init" :=
    Store.findMethod_congr (by rfl) id "init"
  cases hinit : m.store.findMethod id "init" with
  | none =>
    simp only [constructExactly, construct, bind, EStateM.bind, Run.onStore_eq, Run.read, hfind,
      hinit, hnone hinit, if_true]
  | some method =>
    have htakes (frame : FrameId) :
        r.callExactly h ⟨method.declaration, frame, true⟩ arguments =
          r.callFunction ⟨method.declaration, frame, true⟩ arguments :=
      callExactly_eq (hsome method hinit)
    simp only [constructExactly, construct, bindMethod, Run.newFrame, bind, EStateM.bind,
      Run.onStore_eq, Run.read, pure, EStateM.pure, hfind, hinit, htakes]

end Evaluator

namespace Applicable

variable {o : Labels} {m : Machine} {f : FrameId} {callee : Callee} {arguments : List Value}

theorem arity (h : Applicable o m.memory f callee arguments) :
    m.store.calleeArity callee = arguments.length := by
  cases callee with
  | function closure => exact h.callee.2
  | construct id c => exact h.callee
  | builtin b => exact h.callee

/-- **The arguments of what can be called fit**, on whatever way they are taken. -/
theorem applyExactly_eq (h : Applicable o m.memory f callee arguments) (hm : m.memory.Sound o)
    (r : Evaluator) (halt : Halt) (paren : Token) :
    r.applyExactly halt paren callee arguments m = r.applyStep paren callee arguments m := by
  cases callee with
  | function closure =>
    obtain ⟨hclosure, harity⟩ := h.callee
    obtain ⟨c, hstands⟩ := hclosure.runnable
    have htakes := Function.takes_of_nodup hstands.visits.nodup_parameters harity
    exact congrFun (Evaluator.callExactly_eq htakes) m
  | construct id c =>
    refine Evaluator.constructExactly_eq (fun method hinit ↦ ?_) fun hnone ↦ ?_
    · have harity := Store.arity_init h.callee method hinit
      have hmethod := hm.items (.method method) (Store.has_of_findMethod hinit)
      obtain ⟨_, _, _, _, _, hvisits, -⟩ := hmethod
      exact Function.takes_of_nodup hvisits.nodup_parameters harity
    · rw [← h.arity, Store.calleeArity, hnone]
      rfl
  | builtin b => exact congrFun (if_pos h.callee.symm) m

end Applicable

end AliasScript
