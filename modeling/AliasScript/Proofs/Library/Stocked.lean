import AliasScript.Proofs.Evaluation.Rules
import AliasScript.Proofs.Library.Generator
import AliasScript.Proofs.Library.RandomSource

/-!
# The random numbers when they are loaded

A machine that has loaded the module with random numbers (`Machine.Stocked`) keeps its seed among
the globals. Each method of the module, run on such a machine, returns what the generator answers
over doubles, leaves the seed that the generator comes to, and changes nothing else that the module
depends on (`Machine.Reseeded`). So the module answers any requests as the generator does
(`Machine.Stocked.yields_requests`).
-/

namespace AliasScript

open Library Evaluator

/-- The distance of the name at a place of the module, if it is not global. -/
def Library.randomDistance? (i : Nat) : Option Nat :=
  if i = 73 then some 1 else if i = 21 ∨ i = 61 ∨ i = 66 ∨ i = 68 then some 0 else none

/-- The name of the seed. -/
def Library.seedName : String := "_stdRandomSeed"

namespace RandomRequest

variable {α : Type}

/-- The name of the method that a request goes to. -/
def name : RandomRequest α → String
  | seed _ => "seed"
  | random => "random"
  | inRange _ _ => "inRange"

/-- The method that a request goes to, over the tokens of the module. -/
def method (t : Nat → Token) (q : RandomRequest α) : Closure :=
  let declaration := match q with
    | seed _ => seedMethod t
    | random => randomMethod t
    | inRange _ _ => inRangeMethod t
  ⟨declaration, Store.globals, false⟩

/-- The numbers that a request is made with. -/
def operands : RandomRequest α → List α
  | seed number => [number]
  | random => []
  | inRange min max => [min, max]

/-- The request as an expression: a call of a method of the class that a variable names. -/
def expression (c paren : Token) (q : RandomRequest Float) : Expr :=
  .call (.get (.variable c) { paren with lexeme := q.name }) paren
    (q.operands.map fun x ↦ .literal (.num x))

end RandomRequest

/-! ### The loaded module -/

/-- A built-in function is bound to its name among the globals. -/
def Store.HasBuiltin (s : Store) (b : Builtin) : Prop :=
  ∃ k, s.frames.valueIn globals b.name = some (.builtin k) ∧ s.builtins[k]? = some b

namespace Machine

/-- **The module is loaded**, as a class, with a seed. -/
structure Stocked (m : Machine) (s : Nat → Token) (id : ClassId) (z : Float) : Prop where
  distances : ∀ i < randomLength, m.distances.find? (s i).index = randomDistance? i
  bound : m.global? "Random" = some (.classValue id)
  seed : m.global? seedName = some (.num z)
  round : m.store.HasBuiltin .round
  bitwise : ∃ o object k, m.global? "Bitwise" = some (.object o) ∧
    m.store.objects[o]? = some object ∧ object.fields.get? "rightShift" = some (.builtin k) ∧
    m.store.builtins[k]? = some .rightShift
  methods : ∃ c, m.store.classes[id]? = some c ∧ ∀ q : RandomRequest Float,
    c.fields.get? q.name = none ∧ m.store.findClassMethod id q.name = some (q.method (spelled s))

/-- The machine at the start of the method that a request goes to. -/
abbrev asked (m : Machine) (s : Nat → Token) (id : ClassId) (q : RandomRequest Float) : Machine :=
  m.entered (.classValue id) (q.method (spelled s)) (q.operands.map .num)

/-- The machine has come to a seed, and what the module depends on is otherwise as it was. -/
structure Reseeded (m : Machine) (z : Float) (m' : Machine) : Prop where
  distances : m'.distances = m.distances
  objects : m'.store.objects = m.store.objects
  classes : m'.store.classes = m.store.classes
  builtins : m'.store.builtins = m.store.builtins
  seed : m'.global? seedName = some (.num z)
  others : ∀ x ≠ seedName, m'.global? x = m.global? x

/-- The action succeeds with a value and comes to a seed. -/
def Yields {α : Type} (m : Machine) (act : Run α) (a : α) (z : Float) : Prop :=
  ∃ m', act m = .ok a m' ∧ m.Reseeded z m' ∧ m'.depth = m.depth

theorem Reseeded.trans {m m' m'' : Machine} {z z' : Float} (h : m.Reseeded z m')
    (h' : m'.Reseeded z' m'') : m.Reseeded z' m'' where
  distances := h'.distances.trans h.distances
  objects := h'.objects.trans h.objects
  classes := h'.classes.trans h.classes
  builtins := h'.builtins.trans h.builtins
  seed := h'.seed
  others x hx := (h'.others x hx).trans (h.others x hx)

/-- **A loaded module stays loaded.** -/
theorem Stocked.reseeded {m m' : Machine} {s : Nat → Token} {id : ClassId} {z z' : Float}
    (h : m.Stocked s id z) (h' : m.Reseeded z' m') : m'.Stocked s id z' where
  distances := h'.distances ▸ h.distances
  bound := (h'.others _ (by decide)).trans h.bound
  seed := h'.seed
  round := by
    obtain ⟨k, hglobal, hk⟩ := h.round
    exact ⟨k, (h'.others _ (by decide)).trans hglobal, h'.builtins ▸ hk⟩
  bitwise := by
    rw [h'.others _ (by decide), h'.builtins, h'.objects]
    exact h.bitwise
  methods := by
    obtain ⟨c, hc, hmethods⟩ := h.methods
    refine ⟨c, h'.classes ▸ hc, fun q ↦ ⟨(hmethods q).1, ?_⟩⟩
    rw [Store.findClassMethod_congr h'.classes]
    exact (hmethods q).2

/-- The cell of the seed. -/
abbrev seedCell : Cell := ⟨Store.globals, seedName⟩

theorem reseeded_withValueAt {m : Machine} {v : Value} (hv : m.global? seedName = some v)
    (z : Float) : m.Reseeded z (m.withValueAt seedCell (.num z)) := by
  have hsome : (m.valueAt seedCell).isSome := Option.isSome_iff_exists.2 ⟨v, hv⟩
  refine ⟨rfl, rfl, rfl, rfl, ?_, fun x hx ↦ ?_⟩
  · exact (valueAt_withValueAt hsome (.num z) seedCell).trans (if_pos rfl)
  · exact (valueAt_withValueAt hsome (.num z) ⟨Store.globals, x⟩).trans (if_neg (by simpa using hx))

theorem Reseeded.noted {m m' : Machine} {z : Float} (h : m.Reseeded z m') (e : Event) :
    m.Reseeded z (m'.noted e) :=
  { h with }

theorem Reseeded.backTo {m m' back : Machine} {z : Float} (h : m.Reseeded z m') :
    m.Reseeded z (back.backTo m') :=
  { h with }

namespace Stocked

variable {m : Machine} {s : Nat → Token} {n : Nat} {id : ClassId} {z : Float} (h : m.Stocked s id z)
  {receiver : Value} {method : Closure} {arguments : List Value}

include h

/-- Entering a method changes nothing that the module depends on. -/
theorem reseeded_entered : m.Reseeded z (m.entered receiver method arguments) := by
  have hsize : 0 < m.store.frames.size := Frames.lt_size_of_valueIn h.seed
  have hglobal : ∀ x, (m.entered receiver method arguments).global? x = m.global? x :=
    global?_entered receiver method arguments hsize
  exact ⟨rfl, rfl, rfl, rfl, (hglobal _).trans h.seed, fun x _ ↦ hglobal x⟩

theorem entered : (m.entered receiver method arguments).Stocked s id z :=
  h.reseeded h.reseeded_entered

/-! ### Names of the module -/

theorem find?_index {i : Nat} (hi : i < randomLength) :
    m.distances.find? (spelled s i).index = randomDistance? i :=
  h.distances i hi

theorem evaluate_global {i : Nat} {v : Value} (hi : i < randomLength)
    (hdistance : randomDistance? i = none)
    (hv : m.global? (spelled s i).lexeme = some v) (hplain : v.isReference = false) :
    (evaluatorOf (n + 1)).evaluate (.variable (spelled s i)) m = .ok v m :=
  evaluate_variable (cell?_global ((h.find?_index hi).trans hdistance) hv _) hv hplain

theorem evaluate_parameter {i : Nat} {x : Float} (hi : i < randomLength)
    (hdistance : randomDistance? i = some 0)
    (hx : (method.declaration.bindings arguments).get? (spelled s i).lexeme =
      some (.num x)) :
    (evaluatorOf (n + 1)).evaluate (.variable (spelled s i))
      (m.entered receiver method arguments) =
        .ok (.num x) (m.entered receiver method arguments) := by
  have hvalue := (valueIn_entered m receiver method arguments _).trans hx
  exact evaluate_variable (cell?_local ((h.entered.find?_index hi).trans hdistance) rfl hvalue)
    hvalue rfl

/-! ### Methods of the module -/

theorem evaluate_next :
    (evaluatorOf (n + 5)).evaluate (nextExpr (spelled s)) m =
      .ok (.num (Generator.next .doubles z)) m := by
  have hseed : (evaluatorOf (n + 1)).evaluate (.variable (spelled s 34)) m =
      .ok (.num z) m :=
    h.evaluate_global (by decide) rfl h.seed rfl
  exact evaluate_binary (evaluate_grouping (evaluate_binary (evaluate_binary
    (evaluate_literal _) hseed rfl rfl) (evaluate_literal _) rfl rfl) rfl) (evaluate_literal _)
    rfl rfl

/-- The number that the seed stands for. -/
theorem evaluate_shown (hdepth : m.depth < maxDepth) :
    ∃ e, (evaluatorOf (n + 3)).evaluate (shownExpr (spelled s)) m =
      .ok (.num (Generator.shown .doubles z)) (m.noted e) := by
  obtain ⟨o, object, k, hglobal, hobject, hfield, hbuiltin⟩ := h.bitwise
  have hbitwise : (evaluatorOf (n + 1)).evaluate (.variable (spelled s 42)) m =
      .ok (.object o) m :=
    h.evaluate_global (by decide) rfl hglobal rfl
  have hshift : (evaluatorOf (n + 1)).property (.object o) (spelled s 44) m =
      .ok (.builtin k) m :=
    property_field _ hobject hfield rfl
  have hseed : (evaluatorOf (n + 2)).evaluate (.variable (spelled s 46)) m =
      .ok (.num z) m :=
    h.evaluate_global (by decide) rfl h.seed rfl
  exact ⟨_, evaluate_call (evaluate_get hbitwise hshift rfl)
    (evaluateAll_cons hseed (evaluateAll_cons (evaluate_literal _) rfl))
    (call_builtin hbuiltin rfl hdepth fun _ ↦ rfl) rfl⟩

/-- **The body of `random()`** sets the next seed and returns what it stands for. -/
theorem yields_randomBody (hdepth : m.depth < maxDepth) :
    m.Yields ((evaluatorOf (n + 7)).executeAll (randomMethod (spelled s)).body)
      (.returned (.num (Generator.shown .doubles (Generator.next .doubles z))))
      (Generator.next .doubles z) := by
  have hreseeded := reseeded_withValueAt h.seed (Generator.next .doubles z)
  have hassign : (evaluatorOf (n + 6)).evaluate
      (.assign (spelled s 29) (nextExpr (spelled s))) m =
        .ok (.num (Generator.next .doubles z))
          (m.withValueAt seedCell (.num (Generator.next .doubles z))) :=
    evaluate_assign h.evaluate_next (cell?_global (h.find?_index (by decide)) h.seed _) h.seed
      rfl rfl
  obtain ⟨e, hshown⟩ := (h.reseeded hreseeded).evaluate_shown (n := n + 3) hdepth
  exact ⟨_, (executeAll_cons (execute_expression hassign)).trans
    (executeAll_returned (execute_ret hshown)), hreseeded.noted e, rfl⟩

theorem property_method (r : Evaluator) (q : RandomRequest Float) (name : Token)
    (hname : name.lexeme = q.name) :
    r.property (.classValue id) name m = .ok (.function m.store.closures.size)
      (m.withBound (.classValue id) (q.method (spelled s))) := by
  obtain ⟨c, hc, hmethods⟩ := h.methods
  obtain ⟨hfield, hmethod⟩ := hmethods q
  rw [← hname] at hfield hmethod
  exact property_classMethod r hc hfield hmethod (by cases q <;> rfl)

/-- **A method that has been asked for is called by running its body.** -/
theorem call_method {q : RandomRequest Float} {flow : Flow} {z' : Float} (paren : Token)
    (hdepth : m.depth < maxDepth)
    (hbody : (m.asked s id q).Yields
      ((evaluatorOf n).executeAll (q.method (spelled s)).declaration.body) flow z') :
    ∃ m', (evaluatorOf (n + 1)).call paren (.function m.store.closures.size)
        (q.operands.map .num) (m.withBound (.classValue id) (q.method (spelled s))) =
          .ok flow.result m' ∧
      m.Reseeded z' m' ∧ m'.depth = m.depth := by
  obtain ⟨m', hbody, hreseeded, hcalls⟩ := hbody
  exact ⟨_, call_bound (by cases q <;> rfl) hdepth hbody hcalls,
    (h.reseeded_entered.trans hreseeded).backTo, rfl⟩

/-- The width of a range. -/
theorem evaluate_width (a b : Float) :
    (evaluatorOf (n + 4)).evaluate (widthExpr (spelled s)) (m.asked s id (.inRange a b)) =
      .ok (.num (b - a + Float.ofInt 1)) (m.asked s id (.inRange a b)) := by
  set inside := m.asked s id (.inRange a b)
  have hmin : (evaluatorOf (n + 1)).evaluate (.variable (spelled s 68)) inside =
      .ok (.num a) inside :=
    h.evaluate_parameter (by decide) rfl rfl
  have hmax : (evaluatorOf (n + 1)).evaluate (.variable (spelled s 66)) inside =
      .ok (.num b) inside :=
    h.evaluate_parameter (by decide) rfl rfl
  exact evaluate_grouping (evaluate_binary (evaluate_binary hmax hmin rfl rfl)
    (evaluate_literal _) rfl rfl) rfl

/-- The draw of a number for a range: `this` is the class, which is asked for `random`. -/
theorem yields_draw (a b : Float) (hdepth : m.depth + 2 < maxDepth) :
    (m.asked s id (.inRange a b)).Yields ((evaluatorOf (n + 9)).evaluate (drawExpr (spelled s)))
      (.num (Generator.shown .doubles (Generator.next .doubles z)))
      (Generator.next .doubles z) := by
  set inside := m.asked s id (.inRange a b)
  have hinside : inside.Stocked s id z := h.entered
  obtain ⟨hancestor, hreceiver⟩ := m.this_entered (.classValue id)
    ((RandomRequest.inRange a b).method (spelled s)) [.num a, .num b]
  have hthis : (evaluatorOf (n + 7)).evaluate (.this (spelled s 73)) inside =
      .ok (.classValue id) inside :=
    evaluate_this (cell?_local (hinside.find?_index (by decide)) hancestor hreceiver) hreceiver rfl
  have hproperty := hinside.property_method (evaluatorOf (n + 7)) .random (spelled s 75) rfl
  obtain ⟨drawn, hcall, hdrawn⟩ := hinside.call_method (spelled s 77) (q := .random) (n := n + 7)
    (Nat.lt_of_succ_lt hdepth) (hinside.entered.yields_randomBody hdepth)
  exact ⟨drawn, evaluate_call (evaluate_get hthis hproperty rfl) rfl hcall rfl, hdrawn⟩

/-- **The body of `inRange(min, max)`** draws a number and places it in the range. -/
theorem yields_inRangeBody (a b : Float) (hdepth : m.depth + 2 < maxDepth) :
    (m.asked s id (.inRange a b)).Yields
      ((evaluatorOf (n + 14)).executeAll (inRangeMethod (spelled s)).body)
      (.returned (.num (Generator.placed .doubles a b (Generator.next .doubles z))))
      (Generator.next .doubles z) := by
  obtain ⟨drawn, hdraw, hreseeded, hdrawn⟩ := h.yields_draw (n := n) a b hdepth
  set inside := m.asked s id (.inRange a b)
  have hinside : inside.Stocked s id z := h.entered
  obtain ⟨k, hglobal, hbuiltin⟩ := hinside.round
  have hmin : (evaluatorOf (n + 12)).evaluate (.variable (spelled s 61)) inside =
      .ok (.num a) inside :=
    h.evaluate_parameter (by decide) rfl rfl
  have hround : (evaluatorOf (n + 11)).evaluate (.variable (spelled s 63)) inside =
      .ok (.builtin k) inside :=
    hinside.evaluate_global (by decide) rfl hglobal rfl
  have hproduct : (evaluatorOf (n + 10)).evaluate
      (.binary (widthExpr (spelled s)) (spelled s 72) (drawExpr (spelled s))) inside =
        .ok (.num ((b - a + Float.ofInt 1) *
          Generator.shown .doubles (Generator.next .doubles z))) drawn :=
    evaluate_binary (h.evaluate_width a b) hdraw rfl rfl
  have hdivide : ∀ x, binary (spelled s 78) (.num x) (.ofLiteral (spelled s 79).value) drawn =
      .ok (.num (x / Float.ofInt 2147483648)) drawn :=
    fun x ↦ binary_slash rfl (by decide +kernel)
  have htrunc : ∀ x, (evaluatorOf (n + 11)).call (spelled s 80) (.builtin k) [.num x] drawn =
      .ok (.num (Number.trunc x)) (drawn.noted (.calling Builtin.round.name 1)) :=
    fun x ↦ call_builtin (hreseeded.builtins ▸ hbuiltin) rfl (hdrawn ▸ Nat.lt_of_succ_lt hdepth)
      fun _ ↦ rfl
  exact ⟨_, executeAll_returned (execute_ret (evaluate_binary hmin (evaluate_call hround
    (evaluateAll_cons (evaluate_binary hproduct (evaluate_literal _) (hdivide _) rfl) rfl)
    (htrunc _) rfl) rfl rfl)), hreseeded.noted _, hdrawn⟩

/-- **The body of `seed(number)`** sets the seed. -/
theorem yields_seedBody (x : Float) :
    (m.asked s id (.seed x)).Yields
      ((evaluatorOf (n + 3)).executeAll (seedMethod (spelled s)).body) .normal x := by
  set inside := m.asked s id (.seed x)
  have hinside : inside.Stocked s id z := h.entered
  have hnumber : (evaluatorOf (n + 1)).evaluate (.variable (spelled s 21)) inside =
      .ok (.num x) inside :=
    h.evaluate_parameter (by decide) rfl rfl
  have hassign : (evaluatorOf (n + 2)).evaluate
      (.assign (spelled s 19) (.variable (spelled s 21))) inside =
        .ok (.num x) (inside.withValueAt seedCell (.num x)) :=
    evaluate_assign hnumber (cell?_global (hinside.find?_index (by decide)) hinside.seed _)
      hinside.seed rfl rfl
  exact ⟨_, executeAll_cons (execute_expression hassign), reseeded_withValueAt hinside.seed x, rfl⟩

end Stocked

end Machine

/-! ### Requests -/

/-- The value of an answer. -/
def Value.ofAnswer : Option Float → Value
  | some x => .num x
  | none => .nil

namespace Machine.Stocked

variable {m : Machine} {s : Nat → Token} {id : ClassId} {z : Float} (h : m.Stocked s id z)
  (hdepth : m.depth + 2 < maxDepth) (n : Nat) {c : Token} (paren : Token)
  (hc : c.lexeme = "Random") (hdistance : m.distances.find? c.index = none)

include h hdepth hc hdistance

/-- **A request is answered as the generator answers it**, with doubles. -/
theorem yields_request (q : RandomRequest Float) :
    m.Yields ((evaluatorOf (n + 16)).evaluate (q.expression c paren))
      (.ofAnswer (Generator.answer .doubles q z).1) (Generator.answer .doubles q z).2 := by
  have hbound : m.global? c.lexeme = some (.classValue id) := hc ▸ h.bound
  have hclass : (evaluatorOf (n + 14)).evaluate (.variable c) m = .ok (.classValue id) m :=
    evaluate_variable (cell?_global hdistance hbound _) hbound rfl
  have hmethod := h.property_method (evaluatorOf (n + 14)) q { paren with lexeme := q.name } rfl
  have hless : m.depth < maxDepth := by omega
  have hcall : ∃ m', (evaluatorOf (n + 15)).call paren (.function m.store.closures.size)
      (q.operands.map .num) (m.withBound (.classValue id) (q.method (spelled s))) =
        .ok (.ofAnswer (Generator.answer .doubles q z).1) m' ∧
      m.Reseeded (Generator.answer .doubles q z).2 m' ∧ m'.depth = m.depth := by
    cases q with
    | seed number => exact h.call_method paren hless (h.yields_seedBody number)
    | random =>
      exact h.call_method (n := n + 14) (q := .random) paren hless
        (h.entered.yields_randomBody (Nat.lt_of_succ_lt hdepth))
    | inRange min max => exact h.call_method paren hless (h.yields_inRangeBody min max hdepth)
  obtain ⟨m', hcall, hrest⟩ := hcall
  refine ⟨m', evaluate_call (evaluate_get hclass hmethod rfl) (evaluateAll_numbers _) hcall ?_,
    hrest⟩
  cases q <;> rfl

/-- **Requests are answered as the generator answers them.** -/
theorem yields_requests (requests : List (RandomRequest Float)) :
    m.Yields ((evaluatorOf (n + 16)).evaluateAll (requests.map (·.expression c paren)))
      ((Generator.answers .doubles requests z).map .ofAnswer)
      (Generator.after .doubles requests z) := by
  induction requests generalizing m z with
  | nil => exact ⟨m, rfl, ⟨rfl, rfl, rfl, rfl, h.seed, fun _ _ ↦ rfl⟩, rfl⟩
  | cons q rest ih =>
    obtain ⟨m', hrequest, hreseeded, hcalls⟩ := h.yields_request hdepth n paren hc hdistance q
    obtain ⟨m'', hrest, hreseeded', hcalls'⟩ := ih (h.reseeded hreseeded) (hcalls ▸ hdepth)
      (hreseeded.distances ▸ hdistance)
    exact ⟨m'', evaluateAll_cons hrequest hrest, hreseeded.trans hreseeded', hcalls'.trans hcalls⟩

end Machine.Stocked

end AliasScript
