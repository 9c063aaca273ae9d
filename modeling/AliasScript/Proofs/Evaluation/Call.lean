import AliasScript.Evaluation.Call
import AliasScript.Proofs.Evaluation.Operator

/-!
# Calls

A call makes the frame that the scope of the function's body stands for, inside the frame that the
function was made in, and runs the body there. A method that is bound to a receiver gets a frame for
the scope of `this` in between. Both frames end chains that are one scope longer than those of the
frames around them, which is what running the body asks for.
-/

namespace AliasScript

/-! ### Bindings of parameters -/

namespace Bindings

variable {α : Type}

theorem mem_of_get?_foldl {pairs : List (String × α)} {b : Bindings α} {x : String} {a : α}
    (h : (pairs.foldl (fun b pair ↦ insert b pair.1 pair.2) b).get? x = some a) :
    b.get? x = some a ∨ (x, a) ∈ pairs := by
  induction pairs generalizing b with
  | nil => exact .inl h
  | cons pair rest ih =>
    rcases ih h with h | h
    · by_cases hx : x = pair.1
      · subst hx
        rw [get?_insert_self] at h
        cases h
        exact .inr (by simp)
      · rw [get?_insert_ne _ _ hx] at h
        exact .inl h
    · exact .inr (by simp [h])

/-- What is bound is among the pairs. -/
theorem mem_of_get?_ofPairs {pairs : List (String × α)} {x : String} {a : α}
    (h : (ofPairs pairs).get? x = some a) : (x, a) ∈ pairs :=
  (mem_of_get?_foldl h).resolve_left nofun

theorem isSome_get?_foldl {pairs : List (String × α)} {b : Bindings α} {x : String}
    (h : (b.get? x).isSome ∨ x ∈ pairs.map Prod.fst) :
    ((pairs.foldl (fun b pair ↦ insert b pair.1 pair.2) b).get? x).isSome := by
  induction pairs generalizing b with
  | nil => simpa using h
  | cons pair rest ih =>
    refine ih ?_
    by_cases hx : x = pair.1
    · subst hx
      exact .inl (by rw [get?_insert_self]; rfl)
    · rw [get?_insert_ne _ _ hx]
      simpa [hx] using h

/-- Every name of a pair is bound. -/
theorem isSome_get?_ofPairs {pairs : List (String × α)} {x : String}
    (h : x ∈ pairs.map Prod.fst) : ((ofPairs pairs).get? x).isSome :=
  isSome_get?_foldl (.inr h)

end Bindings

/-- A method that is found is a method of some class. -/
theorem Store.has_of_findMethodWithin {s : Store} {name : String} {n : Nat} {id : ClassId}
    {c : Closure} (h : s.findMethodWithin name n id = some c) : s.Has (.method c) := by
  induction n generalizing id with
  | zero => cases h
  | succ n ih =>
    rw [findMethodWithin] at h
    split at h
    · cases h
    · next k hk =>
      rcases Option.or_eq_some_iff.1 h with hget | ⟨-, hsuper⟩
      · exact ⟨k, Array.mem_of_getElem? hk, name, hget⟩
      · obtain ⟨id', -, hfind⟩ := Option.bind_eq_some_iff.1 hsuper
        exact ih hfind

/-- Methods are looked for in classes only. -/
theorem Store.findMethodWithin_congr {s s' : Store} (h : s'.classes = s.classes) (name : String)
    (n : Nat) (id : ClassId) :
    s'.findMethodWithin name n id = s.findMethodWithin name n id := by
  induction n generalizing id with
  | zero => rfl
  | succ n ih =>
    rw [findMethodWithin, findMethodWithin, h, show s'.findMethodWithin name n = _ from funext ih]

theorem Store.findMethod_congr {s s' : Store} (h : s'.classes = s.classes) (id : ClassId)
    (name : String) : s'.findMethod id name = s.findMethod id name := by
  rw [findMethod, findMethod, h, findMethodWithin_congr h]

theorem Store.findClassMethod_congr {s s' : Store} (h : s'.classes = s.classes) (id : ClassId)
    (name : String) : s'.findClassMethod id name = s.findClassMethod id name := by
  unfold findClassMethod
  rw [h]
  simp only [findMethod_congr h]

theorem Store.has_of_findMethod {s : Store} {id : ClassId} {name : String} {c : Closure}
    (h : s.findMethod id name = some c) : s.Has (.method c) :=
  has_of_findMethodWithin h

theorem Store.has_of_findClassMethod {s : Store} {id : ClassId} {name : String} {c : Closure}
    (h : s.findClassMethod id name = some c) : s.Has (.method c) := by
  obtain ⟨metaclass, -, hfind⟩ := Option.bind_eq_some_iff.1 h
  exact has_of_findMethod hfind

/-- A name that may be bound to an alias is an ordinary one. -/
theorem MayAlias.ordinary {o : Labels} {μ : Memory} {f : FrameId} {x : String}
    (h : MayAlias o μ f x) : x ≠ "this" ∧ x ≠ "super" := by
  unfold MayAlias at h
  split at h
  · obtain ⟨-, s, -, name, initial, -, rfl, hordinary, -⟩ := h
    exact hordinary
  · obtain ⟨-, -, s, -, name, initial, -, rfl, hordinary, -⟩ := h
    exact hordinary

/-- `this` and `super` never hold an alias. -/
theorem Memory.Sound.plain_keyword {o : Labels} {μ : Memory} (h : μ.Sound o) {f : FrameId}
    {x : String} (hx : x = "this" ∨ x = "super") {v : Value} (hv : μ.frames.valueIn f x = some v) :
    v.Plain μ.store := by
  have hbinding := h.items (.binding f x v) hv
  refine ⟨hbinding.live, Bool.eq_false_iff.2 fun href ↦ ?_⟩
  have hordinary := (hbinding.mayAlias href).ordinary
  exact hx.elim hordinary.1 hordinary.2

/-- The frame of a call binds the parameters of the function to the arguments. -/
def Function.bindings (f : Function) (arguments : List Value) : Bindings Value :=
  .ofPairs (((f.parameters.getD []).map Token.lexeme).zip arguments)

/-- Every parameter is bound if there are as many arguments. -/
theorem Function.isSome_bindings (f : Function) {arguments : List Value}
    (harity : f.arity = arguments.length) {x : String}
    (hx : x ∈ (f.parameters.getD []).map Token.lexeme) :
    ((f.bindings arguments).get? x).isSome := by
  refine Bindings.isSome_get?_ofPairs ?_
  rwa [List.map_fst_zip (by simpa [Function.arity] using Nat.le_of_eq harity)]

namespace Memory.Sound

variable {o : Labels} {μ : Memory} (h : μ.Sound o) {f : Function} {arguments : List Value}

include h

theorem addCallFrame {parent : FrameId} (hparent : parent < μ.frames.size)
    (harity : f.arity = arguments.length) (harguments : ∀ v ∈ arguments, v.Plain μ.store) :
    μ.Grows o (o.push μ.frames.size (.call f))
      (μ.withStore (μ.store.addFrame parent (f.bindings arguments)).2) := by
  refine h.addFrame (.call f) nofun hparent (fun x hx ↦ f.isSome_bindings harity hx) fun x v hv ↦ ?_
  obtain ⟨hx, hv⟩ := List.of_mem_zip (Bindings.mem_of_get?_ofPairs hv)
  exact ⟨harguments v hv, List.mem_append_left _ hx⟩

omit h in
/-- The frame of a call is where the body of the function can be run. -/
theorem chain_atBody {c : Context} {parent : FrameId} (harity : f.arity = arguments.length)
    (hchain : Chain o μ.frames c.scopes c.start.scopes parent) :
    Chain (o.push μ.frames.size (.call f))
      (μ.store.addFrame parent (f.bindings arguments)).2.frames (c.atBody f).scopes
      (c.atBody f).start.scopes μ.frames.size := by
  obtain ⟨seen, hscopes, hseen⟩ := Resolution.scopes_declareAll (f.parameters.getD [])
    (r := c.start.enter []) rfl
  have hstart : (c.atBody f).start.scopes = seen :: c.start.scopes := hscopes
  rw [hstart]
  refine Memory.chain_addFrame hchain fun x hx ↦ f.isSome_bindings harity ?_
  exact ((hseen x).1 hx).resolve_left List.not_mem_nil

end Memory.Sound

namespace Meets

variable {A : Family} {o : Labels} {m : Machine}

/-- **Binding a method makes the frame of its receiver.** -/
theorem bindMethod (hm : m.memory.Sound o) {method : Closure} (hmethod : method.Bindable o m.memory)
    {receiver : Value} (hreceiver : receiver.Plain m.memory.store) (isInitializer : Bool) :
    Meets A o m (fun _ ↦ Evaluator.bindMethod method receiver isInitializer) fun o' μ c ↦
      c.declaration = method.declaration ∧ c.Callable o' μ := by
  have hframe := hmethod.lt_size hm
  obtain ⟨k, declaration, scopes, r, outer, hvisits, hscopes, hchain⟩ := hmethod
  have hgrows := hm.addReceiver declaration hreceiver hframe
  refine .onStoreThen hgrows (.pure hgrows.sound ⟨rfl, ?_, fun _ ↦ ?_⟩)
  · refine ⟨⟨k, ⟨.receiver declaration, none⟩ :: scopes, r⟩, hvisits.later hgrows.later, ?_⟩
    show Chain _ _ (_ :: scopes) r.scopes _
    rw [hscopes]
    exact Memory.chain_addFrame hchain (by simp [Bindings.get?])
  · show (Frames.valueIn (m.memory.frames.push _) m.memory.frames.size "this").isSome
    rw [Frames.valueIn_push_self]
    rfl

end Meets

/-- A class takes as many arguments as its initializer. -/
theorem Store.arity_init {s : Store} {id : ClassId} {k : ClassObject} {count : Nat}
    (h : s.calleeArity (.construct id k) = count) (c : Closure)
    (hc : s.findMethod id "init" = some c) : c.declaration.arity = count := by
  rw [← h, calleeArity, hc]
  rfl

namespace Family.Sound

variable {A : Family} (hA : A.Sound) {o : Labels} {m : Machine}

include hA

/-- **A call runs the body of the function in a frame of its own.** -/
theorem callFunction (hm : m.memory.Sound o) {closure : Closure}
    (hclosure : closure.Callable o m.memory) {arguments : List Value}
    (harity : closure.declaration.arity = arguments.length)
    (harguments : ∀ v ∈ arguments, v.Plain m.memory.store) :
    Meets A o m (fun r ↦ r.callFunction closure arguments) IsPlain := by
  have hframe := hclosure.lt_size hm
  obtain ⟨⟨c, hvisits, hchain⟩, hreceiver⟩ := hclosure
  have hgrows := hm.addCallFrame (f := closure.declaration) hframe harity harguments
  have hbody := Memory.Sound.chain_atBody harity hchain
  refine .onStoreThen hgrows (.bind (.inFrame (hA.executeAll hgrows.sound ?_ hbody)) ?_)
  · intro w hw
    exact (hvisits.inside hw).later hgrows.later
  · intro o' m' flow leads hflow
    split
    · next hinit =>
      have hthis := leads.grows.later.bound _ _ (hgrows.later.bound _ _ (hreceiver hinit))
      obtain ⟨v, hv⟩ := Option.isSome_iff_exists.1 hthis
      exact .read (.required leads.grows.sound hv (leads.grows.sound.plain_keyword (.inl rfl) hv))
    · cases flow with
      | normal => exact .pure leads.grows.sound ⟨trivial, rfl⟩
      | returned v => exact .pure leads.grows.sound hflow.2

/-- An instance of a class is made, and then its initializer is run. -/
theorem construct (hm : m.memory.Sound o) (id : ClassId) {arguments : List Value}
    (harity : ∀ c, m.store.findMethod id "init" = some c →
      c.declaration.arity = arguments.length)
    (harguments : ∀ v ∈ arguments, v.Plain m.memory.store) :
    Meets A o m (fun r ↦ r.construct id arguments) IsPlain := by
  have hgrows : m.memory.Grows o o (m.memory.withStore (m.store.addObject ⟨id, []⟩).2) :=
    hm.addObject nofun
  have hobject : (Value.object m.store.objects.size).Plain (m.store.addObject ⟨id, []⟩).2 :=
    ⟨by simp [Value.Live, Store.addObject], rfl⟩
  refine .onStoreThen hgrows (.read ?_)
  split
  · next c hfind =>
    have hc := hgrows.sound.items (.method c) (Store.has_of_findMethod hfind)
    have hfound : m.store.findMethod id "init" = some c := by
      rw [← hfind]
      exact Store.findMethod_congr (by rfl) id "init"
    refine .bind (.bindMethod (by exact hgrows.sound) (by exact hc) (by exact hobject) true) ?_
    intro o' m' c' leads hc'
    refine .bind (hA.callFunction leads.grows.sound hc'.2 (hc'.1 ▸ harity c hfound) fun v hv ↦
      ((harguments v hv).later hgrows.later).later leads.grows.later) fun o'' m'' _ leads' _ ↦ ?_
    exact .pure leads'.grows.sound ((hobject.later leads.grows.later).later leads'.grows.later)
  · exact .pure hgrows.sound hobject

/-- **What can be called gives a plain value.** -/
theorem applyStep (hm : m.memory.Sound o) (paren : Token) {callee : Callee}
    {arguments : List Value} (h : Applicable o m.memory m.here callee arguments) :
    Meets A o m (fun r ↦ r.applyStep paren callee arguments) IsPlain := by
  obtain ⟨-, hcallee, harguments⟩ := h
  cases callee with
  | function closure => exact hA.callFunction hm hcallee.1 hcallee.2 harguments
  | construct id c => exact hA.construct hm id (Store.arity_init hcallee) harguments
  | builtin b => exact .builtin hm paren hcallee harguments

theorem invoke (hm : m.memory.Sound o) (paren : Token) {callee : Callee} {arguments : List Value}
    (h : Applicable o m.memory m.here callee arguments) :
    Meets A o m (fun r ↦ r.invoke paren callee arguments) IsPlain := by
  refine .read ?_
  split
  · exact .fault hm
  · next hdepth => exact .noteThen hm (hA.apply hm h (Nat.lt_of_not_le hdepth))

/-- **Calling a plain value gives a plain value.** -/
theorem call (hm : m.memory.Sound o) (hhere : m.here < m.store.frames.size) (paren : Token)
    (v : Value) {arguments : List Value} (harguments : ∀ v ∈ arguments, v.Plain m.memory.store) :
    Meets A o m (fun r ↦ r.call paren v arguments) IsPlain := by
  refine .read ?_
  split
  · exact .fault hm
  · next callee hcallee =>
    refine .read ?_
    split
    · next harity =>
      refine hA.invoke hm paren ⟨hhere, ?_, harguments⟩
      have hcount := eq_of_beq harity
      cases v with
      | function id =>
        obtain ⟨closure, hclosure, rfl⟩ := Option.map_eq_some_iff.1 hcallee
        exact ⟨(hm.items (.closure closure) (Array.mem_of_getElem? hclosure)).2, hcount⟩
      | classValue id =>
        obtain ⟨c, -, rfl⟩ := Option.map_eq_some_iff.1 hcallee
        exact hcount
      | builtin id =>
        obtain ⟨b, -, rfl⟩ := Option.map_eq_some_iff.1 hcallee
        exact hcount
      | _ => cases hcallee
    · exact .fault hm

end Family.Sound

end AliasScript
