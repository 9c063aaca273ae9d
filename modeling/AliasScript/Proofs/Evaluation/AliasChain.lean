import AliasScript.Evaluation
import AliasScript.Proofs.Evaluation.Place
import AliasScript.Session

/-!
# Chains of aliases

A variable that holds an alias of another variable leads to the cell of that other variable, and so
on. `Machine.chain?` follows such a chain cell by cell, and knows nothing of how the evaluator goes
along it: reading counts the references that it has followed in one place, and storing in another.

Both go to the end of a chain with at most `maxHops` references (`Evaluator.follow_chain`,
`Evaluator.store_chain`), where reading gives what the cell holds and storing changes that cell
only. Both give up on a longer chain (`Evaluator.follow_long`, `Evaluator.store_long`); a chain that
comes back to one of its cells is longer than any number.
-/

namespace AliasScript

/-- Where a value is kept: a name in a frame. -/
structure Cell where
  frame : FrameId
  name : String
deriving DecidableEq

namespace Frames

variable {fs fs' : Frames} {f : FrameId} {x : String}

/-- Where a name is bound depends on the parents of frames and the names in them. -/
theorem ancestor?_congr (hparent : ∀ g, parent? fs' g = parent? fs g) (f : FrameId) (d : Nat) :
    ancestor? fs' f d = ancestor? fs f d := by
  induction d generalizing f with
  | zero => rfl
  | succ d ih => simp only [ancestor?, hparent, ih]

/-- Frames with the same parents and the same names have the same binder at a distance. -/
theorem binderAt?_congr (hparent : ∀ g, parent? fs' g = parent? fs g)
    (hbound : ∀ g x, (valueIn fs' g x).isSome = (valueIn fs g x).isSome) :
    binderAt? fs' f = binderAt? fs f := by
  funext d x
  simp only [binderAt?, ancestor?_congr hparent, hbound]

/-- They have the same binder by a search with the same bound. -/
theorem findWithin_congr (hparent : ∀ g, parent? fs' g = parent? fs g)
    (hbound : ∀ g x, (valueIn fs' g x).isSome = (valueIn fs g x).isSome) (n : Nat) (f : FrameId) :
    findWithin fs' x n f = findWithin fs x n f := by
  induction n generalizing f with
  | zero => rfl
  | succ n ih =>
    rw [findWithin, findWithin, hbound, hparent, show findWithin fs' x n = _ from funext ih]

/-- They have the same binder by the full search, if they are of the same number. -/
theorem find?_congr (hsize : fs'.size = fs.size) (hparent : ∀ g, parent? fs' g = parent? fs g)
    (hbound : ∀ g x, (valueIn fs' g x).isSome = (valueIn fs g x).isSome) :
    find? fs' f x = find? fs f x := by
  rw [find?, find?, hsize, findWithin_congr hparent hbound]

end Frames

namespace Machine

variable (m : Machine)

/-- The cell of a variable that is read in a frame. -/
def cell? (f : FrameId) (name : Token) : Option Cell :=
  (match m.distances.find? name.index with
    | some distance => m.store.frames.binderAt? f distance name.lexeme
    | none => m.store.frames.find? Store.globals name.lexeme).map (⟨·, name.lexeme⟩)

/-- What a cell holds. -/
def valueAt (c : Cell) : Option Value :=
  m.store.frames.valueIn c.frame c.name

/-- The alias that a cell holds. -/
def aliasAt? (c : Cell) : Option Reference :=
  match m.valueAt c with
  | some (.reference id) => m.store.references[id]?
  | _ => none

/-- The cell that a cell is an alias of. -/
def next? (c : Cell) : Option Cell :=
  (m.aliasAt? c).bind fun r ↦
    match r.target with
    | .variable name => m.cell? r.frame name
    | _ => none

/-- The cell after so many references. -/
def chain? (c : Cell) : Nat → Option Cell
  | 0 => some c
  | k + 1 => (m.next? c).bind (chain? · k)

/-- The machine with another value in a cell. -/
def withValueAt (c : Cell) (v : Value) : Machine :=
  { m with store := { m.store with frames := m.store.frames.define c.frame c.name v } }

/-! ### Cells -/

variable {m} {c c' : Cell} {f : FrameId} {name : Token} {v w : Value} {i k : Nat} {r : Reference}

/-- A cell is named by the use that found it. -/
theorem name_of_cell? (h : m.cell? f name = some c) : c.name = name.lexeme := by
  obtain ⟨g, -, rfl⟩ := Option.map_eq_some_iff.1 h
  rfl

/-- The cell of a variable holds something. -/
theorem isSome_valueAt_of_cell? (h : m.cell? f name = some c) : (m.valueAt c).isSome := by
  obtain ⟨g, hg, rfl⟩ := Option.map_eq_some_iff.1 h
  split at hg
  · exact Frames.isSome_of_binderAt? hg
  · exact Frames.isSome_of_find? hg

/-- An alias is held as a value, with its number. -/
theorem valueAt_of_aliasAt? (h : m.aliasAt? c = some r) :
    ∃ id, m.valueAt c = some (.reference id) ∧ m.store.references[id]? = some r := by
  unfold aliasAt? at h
  split at h
  · next id hid => exact ⟨id, hid, h⟩
  · cases h

/-- The next cell is the one that the target of the alias names. -/
theorem aliasAt?_of_next? (h : m.next? c = some c') :
    ∃ r name, m.aliasAt? c = some r ∧ r.target = .variable name ∧
      m.cell? r.frame name = some c' := by
  obtain ⟨r, hr, hcell⟩ := Option.bind_eq_some_iff.1 h
  split at hcell
  · next name htarget => exact ⟨r, name, hr, htarget, hcell⟩
  · cases hcell

/-- **Changing a cell changes that cell only.** -/
theorem valueAt_withValueAt (hc : (m.valueAt c).isSome) (v : Value) (c' : Cell) :
    (m.withValueAt c v).valueAt c' = if c' = c then some v else m.valueAt c' := by
  obtain ⟨old, hold⟩ := Option.isSome_iff_exists.1 hc
  have hdefine := Frames.valueIn_define m.store.frames (Frames.lt_size_of_valueIn hold) c'.frame
    c.name c'.name v
  have hcell : (c'.frame = c.frame ∧ c'.name = c.name) ↔ c' = c := by
    cases c
    cases c'
    simp
  rw [if_congr hcell rfl rfl] at hdefine
  exact hdefine

/-- A variable keeps its cell while the value of a cell changes. -/
theorem cell?_withValueAt (hc : (m.valueAt c).isSome) (v : Value) (f : FrameId) (name : Token) :
    (m.withValueAt c v).cell? f name = m.cell? f name := by
  have hbound : ∀ g x, ((m.withValueAt c v).store.frames.valueIn g x).isSome =
      (m.store.frames.valueIn g x).isSome := by
    intro g x
    have hvalue := valueAt_withValueAt hc v ⟨g, x⟩
    split at hvalue
    · next heq =>
      rw [← heq] at hc
      exact (congrArg Option.isSome hvalue).trans hc.symm
    · exact congrArg Option.isSome hvalue
  have hparent : ∀ g, (m.withValueAt c v).store.frames.parent? g = m.store.frames.parent? g :=
    fun g ↦ Frames.parent?_define m.store.frames c.frame g c.name v
  have hsize : (m.withValueAt c v).store.frames.size = m.store.frames.size :=
    Frames.size_define m.store.frames c.frame c.name v
  unfold cell?
  rw [Frames.binderAt?_congr hparent hbound, Frames.find?_congr hsize hparent hbound]
  rfl

/-! ### Chains -/

/-- A chain may be cut at any of its cells. -/
theorem chain?_add (c : Cell) (i k : Nat) :
    m.chain? c (i + k) = (m.chain? c i).bind (m.chain? · k) := by
  induction i generalizing c with
  | zero => simp [chain?]
  | succ i ih =>
    rw [Nat.succ_add, chain?, chain?]
    cases m.next? c with
    | none => rfl
    | some c' => exact ih c'

/-- Along a chain every cell before the last one is there. -/
theorem isSome_chain?_of_le (h : (m.chain? c k).isSome) (hi : i ≤ k) : (m.chain? c i).isSome := by
  obtain ⟨j, rfl⟩ := Nat.exists_eq_add_of_le hi
  rw [chain?_add] at h
  exact Option.isSome_of_isSome_bind h

/-- The cells of a chain before its end hold aliases. -/
theorem isSome_aliasAt?_of_chain? (hlast : (m.chain? c k).isSome) (hi : i < k)
    (hc' : m.chain? c i = some c') : (m.aliasAt? c').isSome := by
  have hnext := isSome_chain?_of_le hlast (show i + 1 ≤ k from hi)
  rw [chain?_add, hc', Option.bind_some, chain?] at hnext
  obtain ⟨next, hnext⟩ := Option.isSome_iff_exists.1 (Option.isSome_of_isSome_bind hnext)
  obtain ⟨r, -, hr, -⟩ := aliasAt?_of_next? hnext
  exact hr ▸ rfl

/-- What a cell is an alias of does not depend on the values of other cells. -/
theorem next?_withValueAt (hc : (m.valueAt c).isSome) (v : Value) (hne : c' ≠ c) :
    (m.withValueAt c v).aliasAt? c' = m.aliasAt? c' ∧
      (m.withValueAt c v).next? c' = m.next? c' := by
  have halias : (m.withValueAt c v).aliasAt? c' = m.aliasAt? c' := by
    unfold aliasAt?
    rw [valueAt_withValueAt hc, if_neg hne]
    rfl
  refine ⟨halias, ?_⟩
  unfold next?
  rw [halias]
  simp only [cell?_withValueAt hc v]

/-- A cell that holds an alias is not one that holds another value. -/
theorem ne_of_aliasAt? (halias : (m.aliasAt? c').isSome) (hw : m.valueAt c = some w)
    (hplain : w.isReference = false) : c' ≠ c := by
  rintro rfl
  obtain ⟨r, hr⟩ := Option.isSome_iff_exists.1 halias
  obtain ⟨id, hid, -⟩ := valueAt_of_aliasAt? hr
  cases hid.symm.trans hw
  cases hplain

/-- **A chain leads where it led while the value at its end changes.** -/
theorem chain?_withValueAt {last : Cell} (hlast : m.chain? c k = some last)
    (hw : m.valueAt last = some w) (hplain : w.isReference = false) (v : Value) :
    (m.withValueAt last v).chain? c k = some last := by
  induction k generalizing c with
  | zero => exact hlast
  | succ k ih =>
    obtain ⟨c', hnext, hrest⟩ := Option.bind_eq_some_iff.1 hlast
    obtain ⟨r, -, halias, -⟩ := aliasAt?_of_next? hnext
    -- Before its end a chain goes through aliases only, so it does not pass the cell that changes.
    have hne := ne_of_aliasAt? (Option.isSome_iff_exists.2 ⟨r, halias⟩) hw hplain
    rw [chain?, (next?_withValueAt (hw ▸ rfl) v hne).2, hnext]
    exact ih hrest

/-- **A chain that comes back to one of its cells has no end.** -/
theorem isSome_chain?_of_cycle {j : Nat} (hij : i < j) (hi : m.chain? c i = some c')
    (hj : m.chain? c j = some c') (k : Nat) : (m.chain? c k).isSome := by
  -- Going round once more leads further than before.
  have hround : ∀ n, ∃ k', n ≤ k' ∧ m.chain? c k' = some c' := by
    intro n
    induction n with
    | zero => exact ⟨i, Nat.zero_le _, hi⟩
    | succ n ih =>
      obtain ⟨k', hk', hchain⟩ := ih
      refine ⟨k' + (j - i), by omega, ?_⟩
      have hturn : m.chain? c' (j - i) = some c' := by
        have hsplit := m.chain?_add c i (j - i)
        rwa [Nat.add_sub_cancel' (Nat.le_of_lt hij), hi, hj, Option.bind_some, eq_comm] at hsplit
      rw [chain?_add, hchain]
      exact hturn
  obtain ⟨k', hk, hchain⟩ := hround k
  exact isSome_chain?_of_le (hchain ▸ rfl) hk

/-- The chain from a cell holds more than so many references. -/
def Exceeds (m : Machine) (c : Cell) (hops : Nat) : Prop :=
  ∃ c' r, m.chain? c hops = some c' ∧ m.aliasAt? c' = some r

/-- A chain that comes back to a cell never ends. -/
theorem exceeds_of_cycle {j : Nat} (hij : i < j) (hi : m.chain? c i = some c')
    (hj : m.chain? c j = some c') (hops : Nat) : m.Exceeds c hops := by
  obtain ⟨last, hlast⟩ := Option.isSome_iff_exists.1 (isSome_chain?_of_cycle hij hi hj (hops + 1))
  rw [chain?_add] at hlast
  obtain ⟨c'', hc'', hnext⟩ := Option.bind_eq_some_iff.1 hlast
  obtain ⟨next, hnext, -⟩ := Option.bind_eq_some_iff.1 hnext
  obtain ⟨r, -, hr, -⟩ := aliasAt?_of_next? hnext
  exact ⟨c'', r, hc'', hr⟩

end Machine

/-! ### Reading and storing -/

namespace Run

open Machine

variable {m : Machine} {c : Cell} {f : FrameId} {name : Token} {v : Value}

/-- The search for a name stops at its cell. -/
theorem binder?_cell (hc : m.cell? f name = some c) :
    binder? name { m with here := f } = .ok (some c.frame) { m with here := f } := by
  obtain ⟨g, hg, rfl⟩ := Option.map_eq_some_iff.1 hc
  exact congrArg (EStateM.Result.ok · { m with here := f }) hg

/-- A use of the name reads its cell. -/
theorem lookup_cell (hc : m.cell? f name = some c) (hv : m.valueAt c = some v) :
    lookup name { m with here := f } = .ok v { m with here := f } := by
  have hvalue : m.store.frames.valueIn c.frame name.lexeme = some v := name_of_cell? hc ▸ hv
  simp only [lookup, bind, EStateM.bind, binder?_cell hc, read, Option.bind, hvalue]
  rfl

/-- A write of the name writes its cell. -/
theorem overwrite_cell (hc : m.cell? f name = some c) (v : Value) :
    overwrite name v { m with here := f } = .ok () { m.withValueAt c v with here := f } := by
  simp only [overwrite, bind, EStateM.bind, binder?_cell hc, ← name_of_cell? hc]
  rfl

end Run

namespace Evaluator

open Machine

variable {r : Evaluator} (hraw : ∀ name, r.raw (.variable name) = Run.lookup name) {m : Machine}
  {c c' last : Cell} {f : FrameId} {name target : Token} {v w : Value} {k hops id : Nat}
  {ref : Reference}

/-- What is no alias stands for itself. -/
theorem followWithin_plain (hv : v.isReference = false) (hops : Nat) :
    followWithin r hops v m = .ok v m := by
  cases v with
  | reference id => cases hv
  | _ => cases hops <;> rfl

/-- A store into a variable that holds no alias overwrites it. -/
theorem storeWithin_plain (hc : m.cell? f name = some c) (hw : m.valueAt c = some w)
    (hplain : w.isReference = false) (hops : Nat) (v : Value) :
    storeWithin r hops name v { m with here := f } =
      .ok () { m.withValueAt c v with here := f } := by
  unfold storeWithin
  simp only [bind, EStateM.bind, Run.lookup_cell hc hw]
  cases w with
  | reference id => cases hplain
  | _ => exact Run.overwrite_cell hc v

/-- No alias is followed once too many have been. -/
theorem followWithin_zero (hid : m.store.references[id]? = some ref) :
    followWithin r 0 (.reference id) m = .error (.fault ⟨ref.operator, .referenceCycle⟩) m := by
  simp only [followWithin, bind, EStateM.bind, Run.read, hid]
  rfl

/-- At the bound, a store that has come to another alias faults. -/
theorem storeWithin_zero (hc : m.cell? f name = some c) (hv : m.valueAt c = some (.reference id))
    (hid : m.store.references[id]? = some ref) (v : Value) :
    storeWithin r 0 name v { m with here := f } =
      .error (.fault ⟨ref.operator, .referenceCycle⟩) { m with here := f } := by
  simp only [storeWithin, bind, EStateM.bind, Run.lookup_cell hc hv, Run.read, hid]
  rfl

include hraw in
/-- Following an alias of a variable goes on with what the variable holds. -/
theorem followWithin_succ (hid : m.store.references[id]? = some ref)
    (htarget : ref.target = .variable target) (hc : m.cell? ref.frame target = some c)
    (hv : m.valueAt c = some v) (hops : Nat) :
    followWithin r (hops + 1) (.reference id) m = followWithin r hops v m := by
  simp only [followWithin, bind, EStateM.bind, Run.read, hid, Run.require, pure, EStateM.pure,
    Run.inFrame, htarget, hraw, Run.lookup_cell hc hv]

/-- A store through an alias of a variable goes on with that variable. -/
theorem storeWithin_succ (hc : m.cell? f name = some c) (hv : m.valueAt c = some (.reference id))
    (hid : m.store.references[id]? = some ref) (htarget : ref.target = .variable target)
    (hops : Nat) (v : Value) :
    storeWithin r (hops + 1) name v { m with here := f } =
      Run.inFrame ref.frame (storeWithin r hops target v) { m with here := f } := by
  rw [storeWithin.eq_def]
  simp only [bind, EStateM.bind, Run.lookup_cell hc hv, Run.read, hid, Run.require, pure,
    EStateM.pure, htarget]

/-! ### Along a chain -/

include hraw in
/-- **Reading goes to the end of a chain.** -/
theorem follow_chain (hc : m.valueAt c = some v) (hlast : m.chain? c k = some last)
    (hw : m.valueAt last = some w) (hplain : w.isReference = false) (hk : k ≤ hops) :
    followWithin r hops v m = .ok w m := by
  induction k generalizing c v hops with
  | zero =>
    cases hlast
    cases hc.symm.trans hw
    exact followWithin_plain hplain hops
  | succ k ih =>
    obtain ⟨c', hnext, hrest⟩ := Option.bind_eq_some_iff.1 hlast
    obtain ⟨ref, target, halias, htarget, hcell⟩ := aliasAt?_of_next? hnext
    obtain ⟨id, hid, href⟩ := valueAt_of_aliasAt? halias
    obtain ⟨v', hv'⟩ := Option.isSome_iff_exists.1 (isSome_valueAt_of_cell? hcell)
    cases hc.symm.trans hid
    -- The bound allows one more reference, and the rest of the chain is shorter by one.
    obtain ⟨hops, rfl⟩ := Nat.exists_eq_add_of_lt (Nat.lt_of_lt_of_le (Nat.succ_pos k) hk)
    rw [Nat.zero_add, followWithin_succ hraw href htarget hcell hv']
    exact ih hv' hrest (by omega)

/-- **Storing goes to the end of a chain**, and changes that cell only. -/
theorem store_chain (hc : m.cell? f name = some c) (hlast : m.chain? c k = some last)
    (hw : m.valueAt last = some w) (hplain : w.isReference = false) (hk : k ≤ hops) (v : Value) :
    storeWithin r hops name v { m with here := f } =
      .ok () { m.withValueAt last v with here := f } := by
  induction k generalizing c f name hops with
  | zero =>
    cases hlast
    exact storeWithin_plain hc hw hplain hops v
  | succ k ih =>
    obtain ⟨c', hnext, hrest⟩ := Option.bind_eq_some_iff.1 hlast
    obtain ⟨ref, target, halias, htarget, hcell⟩ := aliasAt?_of_next? hnext
    obtain ⟨id, hid, href⟩ := valueAt_of_aliasAt? halias
    obtain ⟨hops, rfl⟩ := Nat.exists_eq_add_of_lt (Nat.lt_of_lt_of_le (Nat.succ_pos k) hk)
    rw [Nat.zero_add, storeWithin_succ hc hid href htarget, Run.inFrame, ih hcell hrest (by omega)]

include hraw in
/-- **Reading gives up on a chain that is too long.** -/
theorem follow_long (hc : m.valueAt c = some v) (hlast : m.chain? c hops = some last)
    (halias : m.aliasAt? last = some ref) :
    followWithin r hops v m = .error (.fault ⟨ref.operator, .referenceCycle⟩) m := by
  induction hops generalizing c v with
  | zero =>
    cases hlast
    obtain ⟨id, hid, href⟩ := valueAt_of_aliasAt? halias
    cases hc.symm.trans hid
    exact followWithin_zero href
  | succ hops ih =>
    obtain ⟨c', hnext, hrest⟩ := Option.bind_eq_some_iff.1 hlast
    obtain ⟨ref', target, halias', htarget, hcell⟩ := aliasAt?_of_next? hnext
    obtain ⟨id, hid, href⟩ := valueAt_of_aliasAt? halias'
    obtain ⟨v', hv'⟩ := Option.isSome_iff_exists.1 (isSome_valueAt_of_cell? hcell)
    cases hc.symm.trans hid
    rw [followWithin_succ hraw href htarget hcell hv']
    exact ih hv' hrest

/-- **Storing gives up on a chain that is too long**, and changes nothing. -/
theorem store_long (hc : m.cell? f name = some c) (hlast : m.chain? c hops = some last)
    (halias : m.aliasAt? last = some ref) (v : Value) :
    storeWithin r hops name v { m with here := f } =
      .error (.fault ⟨ref.operator, .referenceCycle⟩) { m with here := f } := by
  induction hops generalizing c f name with
  | zero =>
    cases hlast
    obtain ⟨id, hid, href⟩ := valueAt_of_aliasAt? halias
    exact storeWithin_zero hc hid href v
  | succ hops ih =>
    obtain ⟨c', hnext, hrest⟩ := Option.bind_eq_some_iff.1 hlast
    obtain ⟨ref', target, halias', htarget, hcell⟩ := aliasAt?_of_next? hnext
    obtain ⟨id, hid, href⟩ := valueAt_of_aliasAt? halias'
    rw [storeWithin_succ hc hid href htarget, Run.inFrame, ih hcell hrest]

include hraw in
/-- Evaluating a variable follows what its cell holds. -/
theorem evaluate_cell (hc : m.cell? m.here name = some c) :
    ∃ v, m.valueAt c = some v ∧
      evaluate r (.variable name) m = followWithin r maxHops v m := by
  obtain ⟨v, hv⟩ := Option.isSome_iff_exists.1 (isSome_valueAt_of_cell? hc)
  have hlookup : Run.lookup name m = .ok v m := Run.lookup_cell hc hv
  refine ⟨v, hv, ?_⟩
  simp only [evaluate, bind, EStateM.bind, hraw, hlookup, follow]

include hraw in
/-- **An evaluation reads the last cell of the chain.** -/
theorem evaluate_chain (hc : m.cell? m.here name = some c) (hlast : m.chain? c k = some last)
    (hw : m.valueAt last = some w) (hplain : w.isReference = false) (hk : k ≤ maxHops) :
    evaluate r (.variable name) m = .ok w m := by
  obtain ⟨v, hv, heval⟩ := evaluate_cell hraw hc
  rw [heval]
  exact follow_chain hraw hv hlast hw hplain hk

/-- **Reading and storing agree along a chain of aliases.** If the chain from a variable ends after
at most `maxHops` references, evaluating the variable gives the value at the end; storing a value
changes the cell at the end and no other, so that the aliases on the way stay, and evaluating the
variable gives that value then. If the chain is longer or has a cycle, both fail and nothing
changes. -/
theorem evaluate_store_agree (n : Nat) (m : Machine) (name : Token) (c : Cell)
    (hc : m.cell? m.here name = some c) :
    (∀ k last w, m.chain? c k = some last → m.valueAt last = some w → w.isReference = false →
      k ≤ maxHops →
      (evaluatorOf (n + 1)).evaluate (.variable name) m = .ok w m ∧
      ∀ v, v.isReference = false → ∃ m', m' = m.withValueAt last v ∧
        (evaluatorOf (n + 1)).store name v m = .ok () m' ∧
        (∀ c', m'.valueAt c' = if c' = last then some v else m.valueAt c') ∧
        (∀ i c', i < k → m.chain? c i = some c' →
          (m.aliasAt? c').isSome ∧ m'.aliasAt? c' = m.aliasAt? c') ∧
        (evaluatorOf (n + 1)).evaluate (.variable name) m' = .ok v m') ∧
    (m.Exceeds c maxHops ∨
        (∃ i j c', i < j ∧ m.chain? c i = some c' ∧ m.chain? c j = some c') →
      ∃ f : Fault, f.cause.message = "Reference cycle detected." ∧
        (evaluatorOf (n + 1)).evaluate (.variable name) m = .error (.fault f) m ∧
        ∀ v, (evaluatorOf (n + 1)).store name v m = .error (.fault f) m) := by
  have hraw : ∀ t, (evaluatorOf (n + 1)).raw (.variable t) = Run.lookup t := fun _ ↦ rfl
  constructor
  · intro k last w hlast hw hplain hk
    have hbound : (m.valueAt last).isSome := hw ▸ rfl
    refine ⟨evaluate_chain hraw hc hlast hw hplain hk, fun v hv ↦ ⟨_, rfl,
      store_chain hc hlast hw hplain hk v, valueAt_withValueAt hbound v, fun i c' hi hc' ↦ ?_, ?_⟩⟩
    · have halias := isSome_aliasAt?_of_chain? (hlast ▸ rfl) hi hc'
      exact ⟨halias, (next?_withValueAt hbound v (ne_of_aliasAt? halias hw hplain)).1⟩
    · have hvalue : (m.withValueAt last v).valueAt last = some v := by
        rw [valueAt_withValueAt hbound, if_pos rfl]
      exact evaluate_chain hraw ((cell?_withValueAt hbound v m.here name).trans hc)
        (chain?_withValueAt hlast hw hplain v) hvalue hv hk
  · intro hlong
    -- A chain with a cycle goes on for ever, so it is longer than the bound.
    obtain ⟨last, ref, hlast, halias⟩ : m.Exceeds c maxHops := by
      rcases hlong with hlong | ⟨i, j, c', hij, hi, hj⟩
      · exact hlong
      · exact exceeds_of_cycle hij hi hj maxHops
    obtain ⟨v, hv, heval⟩ := evaluate_cell hraw hc
    refine ⟨⟨ref.operator, .referenceCycle⟩, rfl, ?_, fun v ↦ store_long hc hlast halias v⟩
    rw [heval]
    exact follow_long hraw hv hlast halias

/-- The machine after a program with a chain of two aliases. -/
def twoAliases : Machine :=
  ((Machine.initial [] .empty false).run 9 "var a = true\nvar b = &a\nvar c = &b").2

/-- A use of the last variable of `twoAliases`. -/
def lastAlias : Token :=
  ⟨.identifier, "c", 1, 0, 99, .nil⟩

/-- Evaluating the last of two aliases gives the value of the first variable, and storing into it
changes the first variable. -/
theorem evaluate_store_twoAliases :
    twoAliases.cell? twoAliases.here lastAlias = some ⟨0, "c"⟩ ∧
    (evaluatorOf 1).evaluate (.variable lastAlias) twoAliases = .ok (.bool true) twoAliases ∧
    (evaluatorOf 1).store lastAlias .nil twoAliases =
      .ok () (twoAliases.withValueAt ⟨0, "a"⟩ .nil) := by
  have hc : twoAliases.cell? twoAliases.here lastAlias = some ⟨0, "c"⟩ := by decide +kernel
  have hlast : twoAliases.chain? ⟨0, "c"⟩ 2 = some ⟨0, "a"⟩ := by decide +kernel
  have hvalue : twoAliases.valueAt ⟨0, "a"⟩ = some (.bool true) := by decide +kernel
  obtain ⟨hread, hstore⟩ := (evaluate_store_agree 0 twoAliases lastAlias ⟨0, "c"⟩ hc).1 2 ⟨0, "a"⟩
    (.bool true) hlast hvalue rfl (by decide)
  obtain ⟨_, rfl, hstored, -⟩ := hstore .nil rfl
  exact ⟨hc, hread, hstored⟩

end Evaluator

end AliasScript
