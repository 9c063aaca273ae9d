import AliasScript.Evaluation.Module
import AliasScript.Proofs.Evaluation.Alias

/-!
# Sources and modules

A source that is accepted becomes a known program: its tokens are new, so their distances go into
the table without changing those of any other program (`Memory.Sound.learn`). Its statements are run
in the outermost frame, where no scope is open, so none of them returns. A module is run in the same
way, wherever it is imported.
-/

namespace AliasScript

/-- Loading a source takes indices for its tokens, and changes nothing else but the journal. -/
theorem Evaluator.load_eq (m : Machine) (source : String) :
    ∃ journal, load source m =
      .ok ((Scan.ofSource m.nextIndex source).program? >>= Program.resolve)
        { m with
          nextIndex := (Scan.ofSource m.nextIndex source).nextIndex
          journal := journal } := by
  let scanned := m.journal.note (.scanned (Scan.ofSource m.nextIndex source))
  cases hparsed : (Scan.ofSource m.nextIndex source).program? with
  | error errors =>
    refine ⟨scanned, ?_⟩
    simp only [load, bind, EStateM.bind, Run.read, modify, modifyGet, hparsed]
    rfl
  | ok program =>
    cases hresolve : program.resolve with
    | error errors =>
      refine ⟨scanned.note (.parsed program.length), ?_⟩
      simp only [load, bind, EStateM.bind, Run.read, modify, modifyGet, hparsed, Except.bind,
        hresolve]
      rfl
    | ok resolved =>
      refine ⟨(scanned.note (.parsed program.length)).note (.resolved resolved.addresses), ?_⟩
      simp only [load, bind, EStateM.bind, Run.read, modify, modifyGet, hparsed, Except.bind,
        hresolve]
      rfl

theorem Accepted.of_load {index : Nat} {source : String} {resolved : Resolved}
    (h : (Scan.ofSource index source).program? >>= Program.resolve = .ok resolved) :
    Accepted index source resolved.program resolved.addresses := by
  cases hparsed : (Scan.ofSource index source).program? with
  | error errors =>
    rw [hparsed] at h
    cases h
  | ok program =>
    rw [hparsed] at h
    change program.resolve = _ at h
    unfold Program.resolve at h
    split at h
    · next addresses hresolved =>
      cases h
      exact ⟨hparsed, hresolved⟩
    · cases h

namespace Memory.Sound

variable {o : Labels} {μ : Memory} (h : μ.Sound o)

include h

/-- A source that is scanned takes indices that no token had before. -/
theorem scanned (source : String) :
    μ.Grows o o { μ with nextIndex := (Scan.ofSource μ.nextIndex source).nextIndex } := by
  have hle := Scan.le_nextIndex μ.nextIndex source
  have hlater : μ.Later { μ with nextIndex := (Scan.ofSource μ.nextIndex source).nextIndex } :=
    { Later.refl μ with nextIndex := hle }
  refine h.grows hlater (fun _ _ hc ↦ hc) (.refl o _)
    (fun f hf hnew ↦ absurd hf (Nat.not_lt.2 hnew)) (fun i hi ↦ .inl hi) ?_
  intro i hi
  exact h.fresh i (Nat.le_trans hle hi)

/-- **A program that is accepted becomes a known one.** -/
theorem learn {source : String} {program : Program} {addresses : List Address}
    (haccepted : Accepted μ.nextIndex source program addresses) {μ' : Memory}
    (hμ' : μ' = ⟨μ.store, μ.distances.extend addresses,
      (Scan.ofSource μ.nextIndex source).nextIndex⟩) : μ.Grows o o μ' ∧ μ'.Knows program := by
  subst hμ'
  have hle := Scan.le_nextIndex μ.nextIndex source
  have hlater : μ.Later ⟨μ.store, μ.distances.extend addresses,
      (Scan.ofSource μ.nextIndex source).nextIndex⟩ :=
    { Later.refl μ with
      nextIndex := hle
      distances := fun i hi ↦ haccepted.find?_extend_of_not_mem (.inl hi) }
  constructor
  · refine h.grows hlater (fun _ _ hc ↦ hc) (.refl o _)
      (fun f hf hnew ↦ absurd hf (Nat.not_lt.2 hnew)) (fun i hi ↦ .inl hi) fun i hi ↦ ?_
    exact (haccepted.find?_extend_of_not_mem (.inr hi)).trans (h.fresh i (Nat.le_trans hle hi))
  · refine ⟨⟨_, _, _, haccepted⟩, fun v hv t ht ↦ ?_⟩
    have hmem := haccepted.mem_tokens (hv.names_subset (Node.mem_names_of_mem_uses ht))
    -- The indices of the tokens are new, so no distance of theirs was in the table.
    exact ⟨Scan.index_lt_nextIndex hmem,
      haccepted.find?_extend hv ht (h.fresh _ (Scan.le_index hmem))⟩

/-- The outermost frame can bind any name to a plain value. -/
theorem bindingSound_globals (x : String) {v : Value} (hv : v.Plain μ.store) :
    BindingSound o μ Store.globals x v where
  size := h.size
  live := hv.1
  declared := by
    rw [h.outermost]
    nofun
  mayAlias href := absurd (hv.2.symm.trans href) (by decide)

end Memory.Sound

namespace Meets

variable {A : Family} {o : Labels} {m : Machine}

/-- The instance that holds the shifts is made. -/
theorem bitwise (hm : m.memory.Sound o) : Meets A o m (fun _ ↦ Evaluator.bitwise) IsPlain := by
  have hclass := hm.addClass "Bitwise"
  have hleft := hclass.sound.addBuiltin .leftShift
  have hright := hleft.sound.addBuiltin .rightShift
  refine .onStoreThen hclass (.onStoreThen hleft (.onStoreThen hright (.bind
    (P := fun _ μ object ↦ object < μ.store.objects.size) ?_ ?_)))
  · refine .onStore (hright.sound.addObject fun x v hv ↦ ?_) (by simp [Store.addObject])
    have hmem := Bindings.mem_of_get? hv
    simp only [List.mem_cons, Prod.mk.injEq, List.not_mem_nil, or_false] at hmem
    rcases hmem with ⟨-, rfl⟩ | ⟨-, rfl⟩ <;> exact ⟨trivial, rfl⟩
  · intro o' m' object leads hobject
    exact .pure leads.grows.sound ⟨hobject, rfl⟩

end Meets

namespace Family.Sound

variable {A : Family} (hA : A.Sound) {o : Labels} {m : Machine}

include hA

/-- **No statement of a source returns.** -/
theorem executeTop (hm : m.memory.Sound o) {c : Context} {ss : List Stmt}
    (hvisits : ∀ w ∈ c.inOrder (ss.map .stmt), m.memory.Visits w)
    (hchain : Chain o m.memory.frames c.scopes c.start.scopes m.here)
    (htop : c.surroundings.inFunction = false) :
    Meets A o m (fun r ↦ r.executeTop ss) fun _ _ _ ↦ True := by
  induction ss generalizing o m c with
  | nil => exact .pure hm trivial
  | cons s rest ih =>
    have hstands : Stands o m.memory m.here ⟨c, .stmt s⟩ :=
      ⟨hvisits _ (by simp [Context.inOrder]), hchain⟩
    refine .bind (hA.execute hm hstands) fun o' m' flow leads hflow ↦ ?_
    cases flow with
    -- A `return` is accepted inside a function only, and no function is around a source.
    | returned v => exact absurd (hflow.1.1.symm.trans htop) (by decide)
    | normal =>
      exact ih (c := c.behind [.stmt s]) leads.grows.sound
        (fun w hw ↦ (hvisits w (by simp [Context.inOrder, hw])).later leads.grows.later)
        (leads.here ▸ hflow.1) htop

/-- **A source is run in the outermost frame.** -/
theorem runSource (hm : m.memory.Sound o) (hhere : m.here = Store.globals) (source : String) :
    Meets A o m (fun r ↦ r.runSource source) fun _ _ _ ↦ True := by
  obtain ⟨journal, hload⟩ := Evaluator.load_eq m source
  cases hloaded : (Scan.ofSource m.nextIndex source).program? >>= Program.resolve with
  | error errors =>
    rw [hloaded] at hload
    refine .thenFrom (fun _ ↦ hload) ⟨rfl, rfl, hm.scanned source⟩ (.pure ?_ trivial)
    exact (hm.scanned source).sound
  | ok resolved =>
    rw [hloaded] at hload
    have haccepted := Accepted.of_load hloaded
    -- The indices are taken and the distances are added in two steps, but only after both of them
    -- is the program known.
    let m' : Machine :=
      { m with
        nextIndex := (Scan.ofSource m.nextIndex source).nextIndex
        distances := m.distances.extend resolved.addresses
        journal := journal }
    obtain ⟨hgrows, hknows⟩ := hm.learn haccepted (show m'.memory = _ from rfl)
    have hstatements : Meets A o m' (fun r ↦ do
        Run.notingFault (r.executeTop resolved.program)
        return (.ok () : Except (List Diagnostic) Unit)) fun _ _ _ ↦ True := by
      refine .bind (.notingFault (hA.executeTop (c := .outermost) hgrows.sound ?_ hhere rfl)) ?_
      · intro w hw
        exact ⟨resolved.program, hknows, .top hw⟩
      · intro o' m'' _ leads _
        exact .pure leads.grows.sound trivial
    have leads : Leads o m o m' := ⟨rfl, rfl, hgrows⟩
    refine .after leads (fun r ↦ ?_) hstatements
    show EStateM.bind (Evaluator.load source) _ m = _
    rw [EStateM.bind, hload]
    rfl

/-- A module is run in the outermost frame, wherever it is imported. -/
theorem runModule (hm : m.memory.Sound o) (keyword : Token) (name source : String) :
    Meets A o m (fun r ↦ r.runModule keyword name source) fun _ _ _ ↦ True := by
  refine .noteThen hm (.bind (.inFrame (hA.runSource (by exact hm) rfl source)) ?_)
  intro o' m' result leads _
  split
  · exact .pure leads.grows.sound trivial
  · exact .fault leads.grows.sound

theorem loadPart (hm : m.memory.Sound o) (keyword : Token) (part : Library.Part) :
    Meets A o m (fun r ↦ r.loadPart keyword part) fun _ _ _ ↦ True := by
  cases part with
  | source name text => exact hA.runModule hm keyword name text
  | bitwise =>
    refine .bind (.bitwise hm) fun o' m' v leads hv ↦ ?_
    have hsound := leads.grows.sound
    have hbinding := hsound.bindingSound_globals "Bitwise" hv
    exact .changeStore (hsound.define (by decide) hbinding) trivial

theorem loadParts (hm : m.memory.Sound o) (keyword : Token) (parts : List Library.Part) :
    Meets A o m (fun r ↦ r.loadParts keyword parts) fun _ _ _ ↦ True := by
  induction parts generalizing o m with
  | nil => exact .pure hm trivial
  | cons part rest ih =>
    exact .bind (hA.loadPart hm keyword part) fun o' m' _ leads _ ↦ ih leads.grows.sound

/-- **An import keeps memory in order.** -/
theorem importPath (hm : m.memory.Sound o) (keyword : Token) (path : String) :
    Meets A o m (fun r ↦ r.importPath keyword path) fun _ _ _ ↦ True := by
  refine .noteThen hm ?_
  split
  · dsimp only
    split
    · exact hA.loadParts (by exact hm) keyword _
    · exact .fault (by exact hm)
  · refine .bind (P := fun _ _ _ ↦ True) (.onWorld (by exact hm) trivial) ?_
    intro o' m' text leads _
    split
    · exact hA.runModule leads.grows.sound keyword path _
    · exact .fault leads.grows.sound

end Family.Sound

end AliasScript
