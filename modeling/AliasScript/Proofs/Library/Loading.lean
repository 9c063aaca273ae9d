import AliasScript.Proofs.Library.Stocked
import AliasScript.Proofs.Machine.Correspondence

/-!
# Loading the random numbers

Importing the module with random numbers runs its source among the globals. The three statements of
the source bind the shifts, the seed and the class (`Machine.executeTop_random`), so the import
leaves a machine on which the module is loaded and its seed is the time
(`Machine.Equipped.imports`).
-/

namespace AliasScript

open Library Evaluator

/-! ### Sources and parts -/

namespace Evaluator

/-- A source that is right is run by executing its statements. -/
theorem runSource_of_ok {r : Evaluator} {m m' : Machine} {source : String} {scan : Scan}
    {resolved : Resolved} {d : Distances} (hscan : Scan.ofSource m.nextIndex source = scan)
    (hresolve : (scan.program? >>= Program.resolve) = .ok resolved)
    (hd : m.distances.extend resolved.addresses = d)
    (hrun : r.executeTop resolved.program { m.loaded scan with distances := d } = .ok () m') :
    r.runSource source m = .ok (.ok ()) m' := by
  have henter := enterSource_eq m source
  rw [hscan, hresolve] at henter
  subst hd
  have hnoting : Run.notingFault (r.executeTop resolved.program) { m.loaded scan with
      distances := m.distances.extend resolved.addresses } = .ok () m' := by
    rw [Run.notingFault, hrun]
  rw [runSource_eq]
  exact (Run.bind_of_ok henter).trans (Run.bind_of_ok hnoting)

/-- A part that is a source is loaded by running it among the globals. -/
theorem loadPart_of_ok {r : Evaluator} {m m' : Machine} {keyword : Token} {name source : String}
    (h : r.runSource source { m.noted (.running name) with here := Store.globals } =
      .ok (.ok ()) m') :
    r.loadPart keyword (.source name source) m = .ok () { m' with here := m.here } := by
  have hframe : Run.inFrame Store.globals (r.runSource source) (m.noted (.running name)) =
      .ok (.ok ()) { m' with here := m.here } :=
    Run.inFrame_of_ok h
  exact Run.bind_of_ok hframe

theorem loadParts_singleton {r : Evaluator} {m m' : Machine} {keyword : Token} {part : Part}
    (h : r.loadPart keyword part m = .ok () m') : r.loadParts keyword [part] m = .ok () m' :=
  Run.bind_of_ok h

/-- A standard module is imported by loading its parts. -/
theorem importPath_standard (r : Evaluator) (keyword : Token) (m : Machine) (path name : String)
    {parts : List Part} (hmark : standardMark.isPrefixOf path.toList = true)
    (hname : String.ofList (path.toList.drop standardMark.length) = name)
    (hparts : parts? name = some parts) :
    r.importPath keyword path m = r.loadParts keyword parts (m.noted (.importing path)) := by
  simp only [importPath, bind, EStateM.bind, Machine.note_eq, hmark, hname, hparts, if_true]

end Evaluator

namespace Machine

/-! ### Names among the globals -/

section Globals

variable {m : Machine} (hsize : Store.globals < m.store.frames.size)

include hsize

theorem global?_withValueAt_self (x : String) (v : Value) :
    (m.withValueAt ⟨Store.globals, x⟩ v).global? x = some v :=
  (Frames.valueIn_define m.store.frames hsize Store.globals x x v).trans (if_pos ⟨rfl, rfl⟩)

theorem global?_withValueAt_of_ne {x y : String} (v : Value) (hne : y ≠ x) :
    (m.withValueAt ⟨Store.globals, x⟩ v).global? y = m.global? y :=
  (Frames.valueIn_define m.store.frames hsize Store.globals x y v).trans (if_neg (hne ·.2))

/-- **A class that is declared among the globals** is bound there, and has its class methods. -/
theorem declaring_globals (hhere : m.here = Store.globals) (name : String)
    (classMethods : List Function) :
    ∃ id c, (m.declaring name [] classMethods).store.classes[id]? = some c ∧
      c.fields = [] ∧
      (∀ x f, lastNamed x classMethods = some f →
        (m.declaring name [] classMethods).store.findClassMethod id x =
          some ⟨f, Store.globals, false⟩) ∧
      (m.declaring name [] classMethods).global? name = some (.classValue id) ∧
      ∀ x ≠ name, (m.declaring name [] classMethods).global? x = m.global? x := by
  let bound := m.withValueAt ⟨Store.globals, name⟩ .nil
  have hbound : Store.globals < bound.store.frames.size :=
    (Frames.size_define m.store.frames Store.globals name .nil).symm ▸ hsize
  obtain ⟨line, hline⟩ := bound.store.line_addDeclared Store.globals none [] classMethods
    ⟨.identifier, name, 0, 0, 0, .nil⟩ (show none.isSome = none.isSome from rfl) (by simp)
  have hmethod : ∀ x f, lastNamed x classMethods = some f →
      (bound.store.addDeclared Store.globals name none [] classMethods).2.findClassMethod
        (bound.store.addDeclared Store.globals name none [] classMethods).1 x =
          some ⟨f, Store.globals, false⟩ := by
    intro x f hf
    rw [hline.findClassMethod, nearest_cons, Stmt.classMethods, hf]
    rfl
  rw [declaring, hhere]
  refine ⟨_, _, Array.getElem?_push_size, rfl, fun x f hf ↦ ?_,
    global?_withValueAt_self hbound name _, fun x hx ↦ ?_⟩
  · refine (Store.findClassMethod_congr ?_ _ x).trans (hmethod x f hf)
    rfl
  · exact (global?_withValueAt_of_ne hbound _ hx).trans (global?_withValueAt_of_ne hsize .nil hx)

end Globals

/-! ### Statements of the module -/

/-- The machine when the shifts are imported. -/
def withShifts (m : Machine) : Machine :=
  { m.noted (.importing "std:Bitwise") with
    store := { m.store with
      classes := m.store.classes.push ⟨"Bitwise", none, [], none, []⟩
      builtins := (m.store.builtins.push .leftShift).push .rightShift
      objects := m.store.objects.push ⟨m.store.classes.size,
        [(Builtin.leftShift.name, .builtin m.store.builtins.size),
          (Builtin.rightShift.name, .builtin (m.store.builtins.push .leftShift).size)]⟩
      frames := m.store.frames.define Store.globals "Bitwise" (.object m.store.objects.size) } }

/-- The machine when the seed is set to the time. -/
def withTime (m : Machine) : Machine :=
  { (m.noted (.calling Builtin.clock.name 0)).withValueAt seedCell (.num m.world.time) with
    world := { m.world with time := m.world.time + 0.000001 } }

section Statements

variable {m : Machine} (s : Nat → Token) (n : Nat)

/-- `import "std:Bitwise"`. -/
theorem execute_shifts :
    (evaluatorOf (n + 2)).execute (.importModule (spelled s 0) (.literal (spelled s 1).value)) m =
      .ok .normal m.withShifts :=
  execute_importModule (evaluate_literal _)
    (importPath_standard _ _ m "std:Bitwise" "Bitwise" rfl rfl rfl)

theorem builtins_withShifts {j : Nat} {b : Builtin} (hj : m.store.builtins[j]? = some b) :
    m.withShifts.store.builtins[j]? = some b := by
  have hlt := (Array.getElem?_eq_some_iff.1 hj).1
  show ((m.store.builtins.push _).push _)[j]? = _
  rw [Array.getElem?_push, Array.getElem?_push, Array.size_push, if_neg (by omega),
    if_neg (by omega), hj]

/-- `var _stdRandomSeed = clock()`. -/
theorem execute_time {k : Nat} (hhere : m.here = Store.globals)
    (hdistance : m.distances.find? (spelled s 6).index = none)
    (hclock : m.global? "clock" = some (.builtin k)) (hk : m.store.builtins[k]? = some .clock)
    (hdepth : m.depth < maxDepth) :
    (evaluatorOf (n + 3)).execute (.var (spelled s 4)
      (some (.call (.variable (spelled s 6)) (spelled s 8) []))) m = .ok .normal m.withTime := by
  have hevaluate : (evaluatorOf (n + 1)).evaluate (.variable (spelled s 6)) m =
      .ok (.builtin k) m :=
    evaluate_variable (cell?_global hdistance hclock _) hclock rfl
  have hcallee : m.store.callee? (.builtin k) = some (.builtin .clock) := by
    rw [Store.callee?, hk]
    rfl
  have hcall : (evaluatorOf (n + 1)).call (spelled s 8) (.builtin k) [] m =
      .ok (.num m.world.time) { m.noted (.calling Builtin.clock.name 0) with
        world := { m.world with time := m.world.time + 0.000001 } } :=
    (call_eq _ hcallee rfl hdepth).trans rfl
  refine (execute_var (raw_call hevaluate rfl hcall)).trans ?_
  show EStateM.Result.ok Flow.normal (withValueAt _ ⟨m.here, _⟩ _) = _
  rw [hhere]
  rfl

end Statements

/-- **What the module needs to be loaded**: two of the built-in functions among the globals, room
for its calls, and no distances for the tokens to come. -/
structure Equipped (m : Machine) : Prop where
  clock : m.store.HasBuiltin .clock
  round : m.store.HasBuiltin .round
  depth : m.depth + 2 < maxDepth
  fresh : ∀ i, m.nextIndex ≤ i → m.distances.find? i = none

/-! ### The module as a whole -/

/-- The machine when the module is loaded. -/
def withRandom (m : Machine) (t : Nat → Token) : Machine :=
  m.withShifts.withTime.declaring "Random" [] (randomMethods t)

section Loaded

variable {m : Machine} {s : Nat → Token} (hsize : Store.globals < m.store.frames.size)
  (hhere : m.here = Store.globals)

include hsize

theorem size_withShifts : Store.globals < m.withShifts.store.frames.size :=
  (Frames.size_define m.store.frames Store.globals "Bitwise" _).symm ▸ hsize

theorem size_withTime : Store.globals < m.withTime.store.frames.size :=
  (Frames.size_define m.store.frames Store.globals seedName _).symm ▸ hsize

theorem global?_withShifts {x : String} (hx : x ≠ "Bitwise") :
    m.withShifts.global? x = m.global? x :=
  global?_withValueAt_of_ne hsize _ hx

theorem global?_withTime {x : String} (hx : x ≠ seedName) : m.withTime.global? x = m.global? x :=
  global?_withValueAt_of_ne hsize _ hx

include hhere

/-- **Names that the module does not bind keep their values.** -/
theorem global?_withRandom (t : Nat → Token) {x : String}
    (hx : x ∉ ["Random", seedName, "Bitwise"]) : (m.withRandom t).global? x = m.global? x := by
  simp only [List.mem_cons, List.not_mem_nil, or_false, not_or] at hx
  have hsize' := size_withShifts hsize
  obtain ⟨-, -, -, -, -, -, hothers⟩ := declaring_globals (size_withTime hsize')
    (m := m.withShifts.withTime) hhere "Random" (randomMethods t)
  exact (hothers x hx.1).trans ((global?_withTime hsize' hx.2.1).trans
    (global?_withShifts hsize hx.2.2))

theorem hasBuiltin_withRandom (t : Nat → Token) {b : Builtin} (hb : m.store.HasBuiltin b)
    (hname : b.name ∉ ["Random", seedName, "Bitwise"]) :
    (m.withRandom t).store.HasBuiltin b := by
  obtain ⟨k, hglobal, hk⟩ := hb
  exact ⟨k, (global?_withRandom hsize hhere t hname).trans hglobal, builtins_withShifts hk⟩

/-- **The module is loaded** where its three statements have been executed. -/
theorem stocked_withRandom
    (hdistances : ∀ i < randomLength, m.distances.find? (s i).index = randomDistance? i)
    (hround : m.store.HasBuiltin .round) :
    ∃ id, (m.withRandom (spelled s)).Stocked s id m.world.time := by
  have hsize' := size_withShifts hsize
  obtain ⟨id, c, hc, hfields, hmethods, hbound, hothers⟩ :=
    declaring_globals (m := m.withShifts.withTime) (size_withTime hsize') hhere "Random"
      (randomMethods (spelled s))
  refine ⟨id, hdistances, hbound, ?_, hasBuiltin_withRandom hsize hhere _ hround (by decide), ?_,
    c, hc, fun q ↦ ⟨hfields ▸ rfl, hmethods q.name _ ?_⟩⟩
  · exact (hothers seedName (by decide)).trans (global?_withValueAt_self hsize' seedName _)
  · have hbitwise : (m.withRandom (spelled s)).global? "Bitwise" =
        some (.object m.store.objects.size) :=
      (hothers "Bitwise" (by decide)).trans ((global?_withTime hsize' (by decide)).trans
        (global?_withValueAt_self hsize "Bitwise" _))
    exact ⟨_, _, _, hbitwise, Array.getElem?_push_size, rfl, Array.getElem?_push_size⟩
  · cases q <;> rfl

/-- **The statements of the module load it.** -/
theorem executeTop_random (n : Nat) (hclock : m.store.HasBuiltin .clock)
    (hdistance : m.distances.find? (s 6).index = none) (hdepth : m.depth < maxDepth) :
    (evaluatorOf (n + 3)).executeTop (randomProgram (spelled s)) m =
      .ok () (m.withRandom (spelled s)) := by
  obtain ⟨k, hclock, hk⟩ := hclock
  have hsize' := size_withShifts hsize
  have htime := execute_time (m := m.withShifts) s n hhere hdistance
    ((global?_withShifts hsize (by decide)).trans hclock) (builtins_withShifts hk) hdepth
  have hclass : (evaluatorOf (n + 3)).execute (.classDecl (spelled s 11) none []
      (randomMethods (spelled s))) m.withShifts.withTime =
        .ok .normal (m.withRandom (spelled s)) :=
    execute_classDecl (hhere.symm ▸ size_withTime hsize')
  rw [randomProgram, executeTop_cons (execute_shifts s (n + 1)), executeTop_cons htime]
  exact executeTop_cons hclass

end Loaded

end Machine

/-! ### Importing the module -/

/-- The distances of the module in the table. -/
theorem Library.find?_extend_random {d : Distances} {s : Nat → Token} {index : Nat}
    (hindex : ∀ i < randomLength, (s i).index = index + i)
    (hd : ∀ i, index ≤ i → d.find? i = none) (i : Nat) :
    (d.extend (randomAddresses (spelled s))).find? (index + i) = randomDistance? i := by
  simp only [Distances.extend, randomAddresses, List.foldl, Distances.find?_insert, index_spelled]
  rw [hindex 21 (by decide), hindex 61 (by decide), hindex 66 (by decide), hindex 68 (by decide),
    hindex 73 (by decide), hd (index + i) (by omega)]
  unfold randomDistance?
  grind

namespace Machine

/-- **The module is loaded by importing it**, with the time for its seed, and could be imported
again. -/
theorem Equipped.imports {m : Machine} (h : m.Equipped) (n : Nat) (keyword : Token) :
    ∃ m' s id, (evaluatorOf (n + 3)).importPath keyword "std:Random" m = .ok () m' ∧
      m'.Stocked s id m.world.time ∧ m'.Equipped := by
  obtain ⟨s, hindex, hnext, hresolve⟩ := exists_tokens m.nextIndex
  -- The scan and the table are named, so that they are not computed.
  obtain ⟨scan, hscan⟩ : ∃ scan, Scan.ofSource m.nextIndex randomSource = scan := ⟨_, rfl⟩
  obtain ⟨d, hd⟩ : ∃ d, m.distances.extend (randomAddresses (spelled s)) = d := ⟨_, rfl⟩
  rw [hscan] at hresolve hnext
  have hdistance : ∀ i, d.find? (m.nextIndex + i) = randomDistance? i :=
    hd ▸ find?_extend_random hindex h.fresh
  -- The source is entered among the globals.
  let started : Machine :=
    { (m.noted (.importing "std:Random")).noted (.running "std:Random") with here := Store.globals }
  let entered : Machine := { started.loaded scan with distances := d }
  have hsize : Store.globals < entered.store.frames.size := by
    obtain ⟨k, hclock, -⟩ := h.clock
    exact Frames.lt_size_of_valueIn hclock
  have hdistances : ∀ i < randomLength, entered.distances.find? (s i).index = randomDistance? i :=
    fun i hi ↦ (hindex i hi).symm ▸ hdistance i
  have hrun := executeTop_random (m := entered) hsize rfl n h.clock (hdistances 6 (by decide))
    (Nat.lt_of_le_of_lt (Nat.le_add_right m.depth 2) h.depth)
  have hsource : (evaluatorOf (n + 3)).runSource randomSource started =
      .ok (.ok ()) (entered.withRandom (spelled s)) :=
    runSource_of_ok hscan hresolve hd hrun
  obtain ⟨id, hstocked⟩ := stocked_withRandom hsize rfl hdistances h.round
  refine ⟨{ entered.withRandom (spelled s) with here := m.here }, s, id, ?_, { hstocked with },
    hasBuiltin_withRandom hsize rfl _ h.clock (by decide), hstocked.round, h.depth, ?_⟩
  · rw [importPath_standard _ keyword m "std:Random" "Random" rfl rfl rfl]
    exact loadParts_singleton (loadPart_of_ok hsource)
  · intro i hi
    have hi' : scan.nextIndex ≤ i := hi
    obtain ⟨j, rfl⟩ := Nat.exists_eq_add_of_le (show m.nextIndex ≤ i by omega)
    refine (hdistance j).trans ?_
    unfold randomDistance?
    grind

end Machine

end AliasScript
