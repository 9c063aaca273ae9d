import AliasScript.Proofs.Scope.Violations
import AliasScript.Proofs.Token.Scanned

/-!
# Errors and the order of the source

The walk reports errors in the order in which it comes to them. That is the order of the source
wherever the parts of a node are walked over as they are written, and there are three nodes where
they are not: a property that is set, whose value is walked over before its object; a class, whose
methods are walked over before its class methods; and a `for`, whose last clause stands behind its
body in the loop that it abbreviates.

So the errors of a program are in the order of the source **exactly if none of these places is
crossed by errors** (`Program.ascending_iff_uncrossed`), and there are programs in which one is
(`Program.addresses_out_of_order`).

The proof has two halves. Which nodes have their errors in order is a matter of lists
(`Node.ascending_iff`); that all but the three nodes have is shown along the spelling of the program
(`Spells.laid`), where every node has a stretch of the tokens.
-/

namespace AliasScript

/-! ### Ascending errors -/

/-- The errors come in the order of the source. -/
def Ascending (errors : List ScopeError) : Prop :=
  errors.Pairwise fun e e' ↦ e.token.index ≤ e'.token.index

/-- No error of the first list is behind one of the second. -/
def Precede (first second : List ScopeError) : Prop :=
  ∀ e ∈ first, ∀ e' ∈ second, e.token.index ≤ e'.token.index

variable {first second : List ScopeError} {paths : Nat → Path} {nodes nodes' : List Node}

/-- Two lists of errors one behind the other are in order if each is and they do not cross. -/
theorem ascending_append :
    Ascending (first ++ second) ↔ Ascending first ∧ Ascending second ∧ Precede first second :=
  List.pairwise_append

@[simp] theorem precede_nil_right : Precede first [] := by
  simp [Precede]

@[simp] theorem precede_nil_left : Precede [] second := by
  simp [Precede]

/-- Errors of two lists precede what both of them precede. -/
theorem precede_append_left {first' : List ScopeError} :
    Precede (first ++ first') second ↔ Precede first second ∧ Precede first' second := by
  simp only [Precede, List.mem_append, or_imp, forall_and]

theorem precede_append_right {second' : List ScopeError} :
    Precede first (second ++ second') ↔ Precede first second ∧ Precede first second' := by
  simp only [Precede, List.mem_append, or_imp, forall_and]

/-- Nodes side by side are walked over in the order of the source, as far as errors show it. -/
def SideBySide (paths : Nat → Path) : List Node → Prop
  | [] => True
  | n :: rest =>
    Precede (violationsAt (n.places (paths 0)))
        (violationsAt (placesOf (fun i ↦ paths (i + 1)) rest)) ∧
      SideBySide (fun i ↦ paths (i + 1)) rest

/-- Nodes may be put side by side in two groups, which must not cross. -/
theorem sideBySide_append :
    SideBySide paths (nodes ++ nodes') ↔
      SideBySide paths nodes ∧ SideBySide (fun i ↦ paths (i + nodes.length)) nodes' ∧
        Precede (violationsAt (placesOf paths nodes))
          (violationsAt (placesOf (fun i ↦ paths (i + nodes.length)) nodes')) := by
  induction nodes generalizing paths with
  | nil => simp [SideBySide]
  | cons node rest ih =>
    have hshift : (fun i ↦ paths (i + rest.length + 1)) =
        fun i ↦ paths (i + (node :: rest).length) :=
      rfl
    simp only [List.cons_append, SideBySide, ih, hshift, placesOf_append, placesOf_cons,
      violationsAt_append, precede_append_left, precede_append_right]
    tauto

/-- What a place itself contributes to the order. -/
structure Place.InOrder (p : Place) : Prop where
  own : Ascending p.violations
  before : Precede p.violations (violationsAt (placesOf (.inside p.path p.node) p.node.parts))
  parts : SideBySide (.inside p.path p.node) p.node.parts

/-- The errors of nodes side by side are in order if the nodes are, and every place in them. -/
theorem ascending_placesOf_iff (h : ∀ n ∈ nodes, ∀ path,
      Ascending (violationsAt (n.places path)) ↔ ∀ p ∈ n.places path, p.InOrder) :
    Ascending (violationsAt (placesOf paths nodes)) ↔
      SideBySide paths nodes ∧ ∀ p ∈ placesOf paths nodes, p.InOrder := by
  induction nodes generalizing paths with
  | nil => simp [Ascending, SideBySide]
  | cons node rest ih =>
    simp only [placesOf_cons, violationsAt_append, ascending_append, SideBySide,
      h node List.mem_cons_self, ih fun n hn ↦ h n (List.mem_cons_of_mem _ hn), List.mem_append,
      or_imp, forall_and]
    tauto

/-- **The errors in a node are in order if every place in it is.** -/
theorem Node.ascending_iff (path : Path) (node : Node) :
    Ascending (violationsAt (node.places path)) ↔ ∀ p ∈ node.places path, p.InOrder := by
  have step : Hereditary fun node ↦ ∀ path,
      Ascending (violationsAt (node.places path)) ↔ ∀ p ∈ node.places path, p.InOrder := by
    intro node ih path
    rw [Node.places_eq, violationsAt_cons, ascending_append, ascending_placesOf_iff ih,
      List.forall_mem_cons]
    constructor
    · rintro ⟨hown, ⟨hparts, hplaces⟩, hbefore⟩
      exact ⟨⟨hown, hbefore, hparts⟩, hplaces⟩
    · rintro ⟨⟨hown, hbefore, hparts⟩, hplaces⟩
      exact ⟨hown, ⟨hparts, hplaces⟩, hbefore⟩
  exact node.induct step path

/-! ### Places that errors may cross -/

/-- **Errors do not cross at the place.** A property that is set has errors in its value or in its
object, not in both. No error in a method of a class is written behind one in a class method. No
error in the body of a `for` is written behind one in its last clause. -/
structure Place.Uncrossed (p : Place) : Prop where
  set : ∀ object name value, p.node = .expr (.set object name value) →
    violationsAt ((Node.expr value).places (.inside p.path p.node 0)) = [] ∨
      violationsAt ((Node.expr object).places (.inside p.path p.node 1)) = []
  classDecl : ∀ name superclass methods classMethods,
    p.node = .stmt (.classDecl name superclass methods classMethods) →
      Precede (violationsAt (placesOf (.inside p.path p.node) (methods.map .function)))
        (violationsAt (placesOf (fun i ↦ .inside p.path p.node (i + methods.length))
          (classMethods.map .function)))
  lastClause : ∀ outer keyword condition body index s increment,
    p.path = .inside outer (.stmt (.loop keyword condition body)) index →
      keyword.kind = .forWord → p.node = .stmt (.block [s, .expression increment]) →
        Precede (violationsAt ((Node.stmt s).places (.inside p.path p.node 0)))
          (violationsAt ((Node.stmt (.expression increment)).places (.inside p.path p.node 1)))

/-- The nodes at which errors may cross. -/
def Node.mayCross : Node → Bool
  | .expr (.set _ _ _) | .stmt (.classDecl _ _ _ _) | .stmt (.block _) => true
  | _ => false

/-- At all other nodes nothing can be crossed. -/
theorem Place.uncrossed_of_not_mayCross {p : Place} (h : p.node.mayCross = false) :
    p.Uncrossed := by
  refine ⟨?_, ?_, ?_⟩
  all_goals
    intros
    simp_all [Node.mayCross]

/-- What it says of a property that is set. -/
theorem Place.uncrossed_set_iff {path : Path} {object value : Expr} {name : Token} :
    Place.Uncrossed ⟨path, .expr (.set object name value)⟩ ↔
      violationsAt ((Node.expr value).places (.inside path (.expr (.set object name value)) 0)) =
          [] ∨
        violationsAt ((Node.expr object).places (.inside path (.expr (.set object name value)) 1)) =
          [] := by
  refine ⟨fun h ↦ h.set object name value rfl, fun h ↦ ⟨?_, ?_, ?_⟩⟩
  · rintro _ _ _ ⟨⟩
    exact h
  · rintro _ _ _ _ ⟨⟩
  · rintro _ _ _ _ _ _ _ - - ⟨⟩

/-- What it says of a class. -/
theorem Place.uncrossed_classDecl_iff {path : Path} {name : Token} {superclass : Option Token}
    {methods classMethods : List Function} {node : Node}
    (hnode : node = .stmt (.classDecl name superclass methods classMethods)) :
    Place.Uncrossed ⟨path, node⟩ ↔
      Precede (violationsAt (placesOf (.inside path node) (methods.map .function)))
        (violationsAt (placesOf (fun i ↦ .inside path node (i + methods.length))
          (classMethods.map .function))) := by
  refine ⟨fun h ↦ h.classDecl name superclass methods classMethods hnode, fun h ↦ ?_⟩
  subst hnode
  refine ⟨?_, ?_, ?_⟩
  · rintro _ _ _ ⟨⟩
  · rintro _ _ _ _ ⟨⟩
    exact h
  · rintro _ _ _ _ _ _ _ - - ⟨⟩

/-- A block whose statements are in order is not crossed, whether it is the body of a `for` or not.
-/
theorem Place.uncrossed_block {path : Path} {body : List Stmt}
    (h : SideBySide (.inside path (.stmt (.block body))) (body.map .stmt)) :
    Place.Uncrossed ⟨path, .stmt (.block body)⟩ := by
  refine ⟨?_, ?_, ?_⟩
  · rintro _ _ _ ⟨⟩
  · rintro _ _ _ _ ⟨⟩
  · rintro _ _ _ _ _ s increment - - ⟨⟩
    simpa [SideBySide] using h

/-! ### Stretches of the source -/

/-- An error about a name that is declared twice stands at the name. -/
theorem token_redeclaration (before : List Token) (name : Token) :
    ((redeclaration before name).map ScopeError.token).Sublist [name] := by
  unfold redeclaration
  split <;> simp

/-- So the errors about parameters are in the order of the parameters. -/
theorem token_redeclarations (before names : List Token) :
    ((redeclarations before names).map ScopeError.token).Sublist names := by
  induction names generalizing before with
  | nil => exact .slnil
  | cons name rest ih =>
    rw [redeclarations, List.map_append]
    exact (token_redeclaration before name).append (ih _)

/-- The names of a list stand in it in their order. -/
theorem SpellsNames.sublist {names tokens : List Token} (h : SpellsNames names tokens) :
    names.Sublist tokens := by
  induction h with
  | none => exact .slnil
  | last t => exact .refl _
  | cons t comma _ _ _ ih => exact (ih.cons comma).cons_cons t

/-- The name of a superclass stands behind its sign. -/
theorem SpellsSuperclass.sublist {superclass : Option Token} {tokens : List Token}
    (h : SpellsSuperclass superclass tokens) : superclass.toList.Sublist tokens := by
  cases h with
  | none => exact .slnil
  | some less t _ => exact (List.Sublist.refl [t]).cons less

/-- The tokens are numbered in their order, from `lo` on and below `hi`. -/
def Rising (lo : Nat) : List Token → Nat → Prop
  | [], hi => lo ≤ hi
  | t :: rest, hi => lo ≤ t.index ∧ Rising (t.index + 1) rest hi

/-- No stretch ends before it starts. -/
theorem Rising.le {lo hi : Nat} {ts : List Token} (h : Rising lo ts hi) : lo ≤ hi := by
  induction ts generalizing lo with
  | nil => exact h
  | cons t rest ih =>
    have hrest := ih h.2
    have hfirst := h.1
    omega

/-- A stretch may be cut between two lists of tokens. -/
theorem rising_append {lo hi : Nat} {ts ts' : List Token} (h : Rising lo (ts ++ ts') hi) :
    ∃ mid, Rising lo ts mid ∧ Rising mid ts' hi := by
  induction ts generalizing lo with
  | nil => exact ⟨lo, Nat.le_refl lo, h⟩
  | cons t rest ih =>
    obtain ⟨mid, hrest, hlater⟩ := ih h.2
    exact ⟨mid, ⟨h.1, hrest⟩, hlater⟩

/-- Tokens with rising indices make up a stretch. -/
theorem exists_rising {lo : Nat} {ts : List Token} (h : ts.Pairwise (·.index < ·.index))
    (hlo : ∀ t ∈ ts, lo ≤ t.index) : ∃ hi, Rising lo ts hi := by
  induction ts generalizing lo with
  | nil => exact ⟨lo, Nat.le_refl lo⟩
  | cons t rest ih =>
    obtain ⟨hfirst, hrest⟩ := List.pairwise_cons.1 h
    obtain ⟨hi, hrising⟩ := ih hrest hfirst
    exact ⟨hi, hlo t List.mem_cons_self, hrising⟩

/-- Errors at some of the tokens, in their order. -/
theorem Rising.ascending {lo hi : Nat} {ts : List Token} (h : Rising lo ts hi)
    {errors : List ScopeError} (hsub : (errors.map ScopeError.token).Sublist ts) :
    Ascending errors ∧ ∀ e ∈ errors, lo ≤ e.token.index ∧ e.token.index < hi := by
  induction ts generalizing lo errors with
  | nil =>
    obtain rfl := List.map_eq_nil_iff.1 (List.sublist_nil.1 hsub)
    exact ⟨.nil, by simp⟩
  | cons t rest ih =>
    have hle := h.2.le
    have hlo := h.1
    rcases List.sublist_cons_iff.1 hsub with hsub | ⟨later, heq, hsub⟩
    · obtain ⟨hascending, hbounds⟩ := ih h.2 hsub
      refine ⟨hascending, fun e he ↦ ?_⟩
      have hbound := hbounds e he
      omega
    · obtain ⟨e, later, rfl, rfl, rfl⟩ := List.map_eq_cons_iff.1 heq
      obtain ⟨hascending, hbounds⟩ := ih h.2 hsub
      refine ⟨List.pairwise_cons.2 ⟨fun e' he' ↦ ?_, hascending⟩, fun e' he' ↦ ?_⟩
      · have hbound := hbounds e' he'
        omega
      · rcases List.mem_cons.1 he' with rfl | he'
        · omega
        · have hbound := hbounds e' he'
          omega

/-- **Nodes that lie side by side in a stretch of the source**: their errors are in the stretch,
they are written in the order of the walk, and each place in them is in order unless errors cross
there. -/
structure Laid (paths : Nat → Path) (nodes : List Node) (lo hi : Nat) : Prop where
  le : lo ≤ hi
  within : ∀ e ∈ violationsAt (placesOf paths nodes), lo ≤ e.token.index ∧ e.token.index < hi
  order : SideBySide paths nodes
  places : ∀ p ∈ placesOf paths nodes, p.InOrder ↔ p.Uncrossed

namespace Laid

variable {lo mid mid' hi lo' hi' : Nat} {node : Node}

/-- No nodes lie in any stretch. -/
theorem nil (h : lo ≤ hi) : Laid paths [] lo hi :=
  ⟨h, by simp, trivial, by simp⟩

/-- A stretch may be taken wider. -/
theorem mono (h : Laid paths nodes lo hi) (hlo : lo' ≤ lo) (hhi : hi ≤ hi') :
    Laid paths nodes lo' hi' := by
  refine ⟨Nat.le_trans hlo (Nat.le_trans h.le hhi), fun e he ↦ ?_, h.order, h.places⟩
  have hwithin := h.within e he
  omega

/-- Stretches one behind the other. -/
theorem append (h : Laid paths nodes lo mid)
    (h' : Laid (fun i ↦ paths (i + nodes.length)) nodes' mid' hi) (hmid : mid ≤ mid') :
    Laid paths (nodes ++ nodes') lo hi := by
  have hle := h.le
  have hle' := h'.le
  refine ⟨by omega, fun e he ↦ ?_, sideBySide_append.2 ⟨h.order, h'.order, fun e he e' he' ↦ ?_⟩,
    fun p hp ↦ ?_⟩
  · rw [placesOf_append, violationsAt_append, List.mem_append] at he
    rcases he with he | he
    · have hwithin := h.within e he
      omega
    · have hwithin := h'.within e he
      omega
  · have hwithin := h.within e he
    have hwithin' := h'.within e' he'
    omega
  · rw [placesOf_append, List.mem_append] at hp
    exact hp.elim (h.places p) (h'.places p)

/-- A node whose own errors stand before its parts. -/
theorem single {head : List Token} (hhead : Rising lo head mid)
    (hown : ((node.violations (paths 0)).map ScopeError.token).Sublist head) (hle : mid ≤ hi)
    (hwithin : ∀ e ∈ violationsAt (placesOf (.inside (paths 0) node) node.parts),
      mid ≤ e.token.index ∧ e.token.index < hi)
    (hplaces : ∀ p ∈ placesOf (.inside (paths 0) node) node.parts, p.InOrder ↔ p.Uncrossed)
    (hself : SideBySide (.inside (paths 0) node) node.parts ↔ Place.Uncrossed ⟨paths 0, node⟩) :
    Laid paths [node] lo hi := by
  obtain ⟨hascending, hbounds⟩ := hhead.ascending hown
  refine ⟨Nat.le_trans hhead.le hle, fun e he ↦ ?_, ⟨precede_nil_right, trivial⟩, fun p hp ↦ ?_⟩
  · rw [placesOf_cons, placesOf_nil, List.append_nil, Node.places_eq, violationsAt_cons] at he
    have hlo := hhead.le
    rcases List.mem_append.1 he with he | he
    · have hbound := hbounds e he
      omega
    · have hbound := hwithin e he
      omega
  · rw [placesOf_cons, placesOf_nil, List.append_nil, Node.places_eq, List.mem_cons] at hp
    rcases hp with rfl | hp
    · refine ⟨fun hin ↦ hself.1 hin.parts, fun h ↦ ⟨hascending, fun e he e' he' ↦ ?_, hself.2 h⟩⟩
      have hbound := hbounds e he
      have hbound' := hwithin e' he'
      omega
    · exact hplaces p hp

/-- A node whose parts are written in the order of the walk. -/
theorem ordinary {head : List Token} (hhead : Rising lo head mid)
    (hown : ((node.violations (paths 0)).map ScopeError.token).Sublist head)
    (hcross : node.mayCross = false) (hparts : Laid (.inside (paths 0) node) node.parts mid hi) :
    Laid paths [node] lo hi :=
  .single hhead hown hparts.le hparts.within hparts.places
    ⟨fun _ ↦ Place.uncrossed_of_not_mayCross hcross, fun _ ↦ hparts.order⟩

/-- A node with nothing wrong with itself. -/
theorem plain (hown : node.violations (paths 0) = []) (hcross : node.mayCross = false)
    (hparts : Laid (.inside (paths 0) node) node.parts lo hi) : Laid paths [node] lo hi :=
  ordinary (show Rising lo [] lo from Nat.le_refl lo) (by simp [hown]) hcross hparts

/-- A block is written in the order of the walk. -/
theorem block {body : List Stmt}
    (h : Laid (.inside (paths 0) (.stmt (.block body))) (body.map .stmt) lo hi) :
    Laid paths [.stmt (.block body)] lo hi :=
  .single (show Rising lo [] lo from Nat.le_refl lo) .slnil h.le h.within h.places
    ⟨Place.uncrossed_block, fun _ ↦ h.order⟩

/-- Two parts that are written in one order and walked over in the other. -/
theorem crossed {first second : Node} (hown : node.violations (paths 0) = [])
    (hparts : node.parts = [first, second])
    (hfirst : ∀ paths, Laid paths [first] mid' hi) (hsecond : ∀ paths, Laid paths [second] lo mid)
    (hmid : mid ≤ mid')
    (hself : SideBySide (.inside (paths 0) node) [first, second] ↔
      Place.Uncrossed ⟨paths 0, node⟩) :
    Laid paths [node] lo hi := by
  have hwalked := hfirst (.inside (paths 0) node)
  have hwalked' := hsecond fun i ↦ .inside (paths 0) node (i + 1)
  have hle := hwalked.le
  have hle' := hwalked'.le
  have hplaces : placesOf (.inside (paths 0) node) node.parts =
      placesOf (.inside (paths 0) node) [first] ++
        placesOf (fun i ↦ .inside (paths 0) node (i + 1)) [second] := by
    rw [hparts]
    exact placesOf_append _ [first] [second]
  refine .single (show Rising lo [] lo from Nat.le_refl lo) (by simp [hown]) (by omega)
    (fun e he ↦ ?_) (fun p hp ↦ ?_) (hparts ▸ hself)
  · rw [hplaces, violationsAt_append, List.mem_append] at he
    rcases he with he | he
    · have hwithin := hwalked.within e he
      omega
    · have hwithin := hwalked'.within e he
      omega
  · rw [hplaces, List.mem_append] at hp
    exact hp.elim (hwalked.places p) (hwalked'.places p)

/-- The value of a property stands behind the object and is walked over before it. -/
theorem set {object value : Expr} (name : Token)
    (hobject : ∀ paths, Laid paths [.expr object] lo mid)
    (hvalue : ∀ paths, Laid paths [.expr value] mid' hi) (hmid : mid ≤ mid') :
    Laid paths [.expr (.set object name value)] lo hi := by
  refine .crossed rfl rfl hvalue hobject hmid ?_
  have hwithin := (hvalue (.inside (paths 0) (.expr (.set object name value)))).within
  have hwithin' :=
    (hobject fun i ↦ .inside (paths 0) (.expr (.set object name value)) (i + 1)).within
  simp only [placesOf_cons, placesOf_nil, List.append_nil, Nat.zero_add] at hwithin hwithin'
  rw [Place.uncrossed_set_iff]
  simp only [SideBySide, placesOf_cons, placesOf_nil, List.append_nil, violationsAt_nil,
    precede_nil_right, and_true, Nat.zero_add]
  refine ⟨fun horder ↦ or_iff_not_imp_left.2 fun hvalue ↦ ?_, ?_⟩
  · -- An error on each side would stand in the wrong order.
    obtain ⟨e, he⟩ := List.exists_mem_of_ne_nil _ hvalue
    refine List.eq_nil_iff_forall_not_mem.2 fun e' he' ↦ ?_
    have hle := horder e he e' he'
    have hbound := hwithin e he
    have hbound' := hwithin' e' he'
    omega
  · rintro (hnone | hnone)
    · exact hnone ▸ precede_nil_left
    · exact hnone ▸ precede_nil_right

/-- The last clause of a `for` stands before the body and is walked over behind it. -/
theorem lastClause {outer : Path} {keyword : Token} {condition increment : Expr} {body loop : Stmt}
    {index : Nat} (hpath : paths 0 = .inside outer (.stmt (.loop keyword condition loop)) index)
    (hkeyword : keyword.kind = .forWord)
    (hclause : ∀ paths, Laid paths [.stmt (.expression increment)] lo mid)
    (hbody : ∀ paths, Laid paths [.stmt body] mid' hi) (hmid : mid ≤ mid') :
    Laid paths [.stmt (.block [body, .expression increment])] lo hi := by
  refine .crossed rfl rfl hbody hclause hmid ⟨Place.uncrossed_block, fun h ↦ ?_⟩
  have hprecede := h.lastClause outer keyword condition loop index body increment hpath hkeyword rfl
  simpa [SideBySide] using hprecede

/-- Class methods are walked over behind the methods, wherever they are written. -/
theorem classDecl {name : Token} {superclass : Option Token} {methods classMethods : List Function}
    {head : List Token} (hhead : Rising lo head mid)
    (hnames : (name :: superclass.toList).Sublist head)
    (h : ∀ paths, Laid paths (methods.map .function) mid hi)
    (h' : ∀ paths, Laid paths (classMethods.map .function) mid hi) :
    Laid paths [.stmt (.classDecl name superclass methods classMethods)] lo hi := by
  generalize hnode : Node.stmt (.classDecl name superclass methods classMethods) = node
  have hparts : node.parts = methods.map .function ++ classMethods.map .function := by
    rw [← hnode, ← List.map_append]
    rfl
  have hfirst := h (.inside (paths 0) node)
  have hsecond := h' fun i ↦ .inside (paths 0) node (i + methods.length)
  have hplaces := placesOf_append (.inside (paths 0) node) (methods.map .function)
    (classMethods.map .function)
  rw [← hparts, List.length_map] at hplaces
  refine .single hhead ?_ hfirst.le (fun e he ↦ ?_) (fun p hp ↦ ?_) ?_
  · rw [← hnode, Node.violations, List.map_append]
    refine List.Sublist.trans ?_ hnames
    refine (token_redeclaration _ name).append ?_
    rw [List.map_map]
    show ((superclass.toList.filter _).map id).Sublist _
    rw [List.map_id]
    exact List.filter_sublist
  · rw [hplaces, violationsAt_append, List.mem_append] at he
    exact he.elim (hfirst.within e) (hsecond.within e)
  · rw [hplaces, List.mem_append] at hp
    exact hp.elim (hfirst.places p) (hsecond.places p)
  · rw [Place.uncrossed_classDecl_iff hnode.symm, hparts, sideBySide_append, List.length_map]
    exact ⟨fun horder ↦ horder.2.2, fun hprecede ↦ ⟨hfirst.order, hsecond.order, hprecede⟩⟩

end Laid

/-! ### Along the spelling -/

/-- The nodes of a phrase, in the order of the source. -/
def Phrase.roots : Phrase → List Node
  | .expr e | .condition e => [.expr e]
  | .arguments es | .elements es => es.map .expr
  | .function f => [.function f]
  | .methods _ _ => []
  | .clause s _ | .stmt s _ => [.stmt s]
  | .stmts body _ => body.map .stmt
  | .initial s _ => s.toList.map .stmt
  | .increment e => e.toList.map .expr

/-- The nodes of a phrase lie in a stretch of the source, whatever path leads to them. Methods and
class methods are each in order among themselves. -/
def Phrase.Laid : Phrase → Nat → Nat → Prop
  | .methods fs classFs, lo, hi =>
    (∀ paths, AliasScript.Laid paths (fs.map .function) lo hi) ∧
      ∀ paths, AliasScript.Laid paths (classFs.map .function) lo hi
  | phrase, lo, hi => ∀ paths, AliasScript.Laid paths phrase.roots lo hi

/-- The loop that a `for` stands for. -/
theorem laid_desugarFor {keyword : Token} {initial : Option Stmt} {condition : Expr}
    {increment : Option Expr} {body : Stmt} {lo lo₁ lo₂ lo₃ hi₁ hi₂ hi₃ hi : Nat}
    (hkeyword : keyword.kind = .forWord)
    (hinitial : ∀ paths, Laid paths (initial.toList.map .stmt) lo hi₁)
    (hcondition : ∀ paths, Laid paths [.expr condition] lo₁ hi₂)
    (hincrement : ∀ paths, Laid paths (increment.toList.map .expr) lo₂ hi₃)
    (hbody : ∀ paths, Laid paths [.stmt body] lo₃ hi) (h₁ : hi₁ ≤ lo₁) (h₂ : hi₂ ≤ lo₂)
    (h₃ : hi₃ ≤ lo₃) (paths : Nat → Path) :
    Laid paths [.stmt (Grammar.desugarFor keyword initial condition increment body)] lo hi := by
  have hle₁ := (hinitial paths).le
  have hle₂ := (hincrement paths).le
  obtain ⟨body', hdesugar, hloop⟩ : ∃ body',
      (∀ initial, Grammar.desugarFor keyword initial condition increment body =
        initial.elim (.loop keyword condition body')
          fun s ↦ .block [s, .loop keyword condition body']) ∧
        ∀ paths, Laid paths [.stmt (.loop keyword condition body')] lo₁ hi := by
    cases increment with
    | none =>
      refine ⟨body, fun initial ↦ by cases initial <;> rfl, fun paths ↦ ?_⟩
      exact .plain rfl rfl (.append (hcondition _) (hbody _) (by omega))
    | some e =>
      have hclause (paths : Nat → Path) : Laid paths [.stmt (.expression e)] lo₂ hi₃ :=
        .plain rfl rfl (hincrement _)
      refine ⟨.block [body, .expression e], fun initial ↦ by cases initial <;> rfl, fun paths ↦ ?_⟩
      exact .plain rfl rfl
        (.append (hcondition _) (.lastClause rfl hkeyword hclause hbody h₃) (by omega))
  rw [hdesugar]
  cases initial with
  | none => exact (hloop paths).mono (by omega) (Nat.le_refl hi)
  | some s => exact .block (.append (hinitial _) (hloop _) (by omega))

/-! ### Every phrase

The stretch of a phrase is cut up into the stretches of its parts. What a form of phrase needs
besides is a lemma of its own. -/

/-- Wherever the tokens stand, the phrase lies in the stretch that they take. -/
def Phrase.LaidAlong (phrase : Phrase) (tokens : List Token) : Prop :=
  ∀ {lo hi : Nat}, Rising lo tokens hi → phrase.Laid lo hi

/-- What is enclosed by two tokens lies inside of the stretch that is taken by all of it. -/
theorem Rising.enclosed {lo hi : Nat} {opening close : Token} {ts : List Token}
    (h : Rising lo (opening :: (ts ++ [close])) hi) :
    ∃ lo' hi', Rising lo' ts hi' ∧ lo ≤ lo' ∧ hi' ≤ hi := by
  obtain ⟨hopening, hrest⟩ := h
  obtain ⟨mid, hinner, hclose⟩ := rising_append hrest
  have hend := hclose.le
  exact ⟨opening.index + 1, mid, hinner, by omega, by omega⟩

section Expressions

variable {e e₁ e₂ e₃ : Expr} {ts ts₁ ts₂ ts₃ : List Token} {opening : Token}

/-- An error at a keyword is the only one that it brings. -/
theorem laid_this (keyword : Token) : (Phrase.expr (.this keyword)).LaidAlong [keyword] := by
  intro lo hi hrising paths
  refine .ordinary hrising ?_ rfl (.nil (Nat.le_refl hi))
  cases hclass : (paths 0).inClass <;> simp [Node.violations, hclass]

/-- For `super` likewise. -/
theorem laid_super (keyword dot method : Token) :
    (Phrase.expr (.super keyword method)).LaidAlong [keyword, dot, method] := by
  intro lo hi hrising paths
  refine .ordinary hrising ?_ rfl (.nil (Nat.le_refl hi))
  cases hclass : (paths 0).inClass <;> simp [Node.violations, hclass]

/-- The callee is written before the arguments. -/
theorem laid_call {paren : Token} {arguments : List Expr} (ih₁ : (Phrase.expr e).LaidAlong ts₁)
    (ih₂ : (Phrase.arguments arguments).LaidAlong ts₂) :
    (Phrase.expr (.call e paren arguments)).LaidAlong (ts₁ ++ opening :: (ts₂ ++ [paren])) := by
  intro lo hi hrising paths
  obtain ⟨mid, hleft, hrest⟩ := rising_append hrising
  obtain ⟨lo', hi', hright, hlo, hhi⟩ := hrest.enclosed
  refine .plain rfl rfl (.mono (.append (ih₁ hleft _) (ih₂ hright _) ?_) ?_ ?_)
  all_goals omega

/-- The array is written before the index. -/
theorem laid_subscript {bracket : Token} (ih₁ : (Phrase.expr e₁).LaidAlong ts₁)
    (ih₂ : (Phrase.expr e₂).LaidAlong ts₂) :
    (Phrase.expr (.subscript e₁ bracket e₂)).LaidAlong (ts₁ ++ opening :: (ts₂ ++ [bracket])) := by
  intro lo hi hrising paths
  obtain ⟨mid, hleft, hrest⟩ := rising_append hrising
  obtain ⟨lo', hi', hright, hlo, hhi⟩ := hrest.enclosed
  refine .plain rfl rfl (.mono (.append (ih₁ hleft _) (ih₂ hright _) ?_) ?_ ?_)
  all_goals omega

/-- The three parts are written in the order in which they are walked over. -/
theorem laid_ternary {question colon : Token} (ih₁ : (Phrase.expr e₁).LaidAlong ts₁)
    (ih₂ : (Phrase.expr e₂).LaidAlong ts₂) (ih₃ : (Phrase.expr e₃).LaidAlong ts₃) :
    (Phrase.expr (.ternary e₁ question e₂ e₃)).LaidAlong
      (ts₁ ++ question :: (ts₂ ++ colon :: ts₃)) := by
  intro lo hi hrising paths
  obtain ⟨mid, hcondition, hquestion, hrest⟩ := rising_append hrising
  obtain ⟨mid', htrue, hcolon, hfalse⟩ := rising_append hrest
  have hbranches := fun paths ↦ Laid.append (ih₂ htrue paths) (ih₃ hfalse _) (by omega)
  exact .plain rfl rfl (.append (ih₁ hcondition _) (hbranches _) (by omega))

/-- **The value is walked over before the object**, though it is written behind it. -/
theorem laid_set {name dot equal : Token} (ih₁ : (Phrase.expr e₁).LaidAlong ts₁)
    (ih₂ : (Phrase.expr e₂).LaidAlong ts₂) :
    (Phrase.expr (.set e₁ name e₂)).LaidAlong (ts₁ ++ dot :: name :: equal :: ts₂) := by
  intro lo hi hrising paths
  obtain ⟨mid, hobject, hdot, hname, hequal, hvalue⟩ := rising_append hrising
  exact .set name (ih₁ hobject) (ih₂ hvalue) (by omega)

/-- An element that is set has its parts in order, unlike a property. -/
theorem laid_setElement {bracket equal : Token} (ih₁ : (Phrase.expr e₁).LaidAlong ts₁)
    (ih₂ : (Phrase.expr e₂).LaidAlong ts₂) (ih₃ : (Phrase.expr e₃).LaidAlong ts₃) :
    (Phrase.expr (.setElement e₁ bracket e₂ e₃)).LaidAlong
      (ts₁ ++ opening :: (ts₂ ++ bracket :: equal :: ts₃)) := by
  intro lo hi hrising paths
  obtain ⟨mid, hobject, hopening, hrest⟩ := rising_append hrising
  obtain ⟨mid', hindex, hbracket, hequal, hvalue⟩ := rising_append hrest
  have hlater := fun paths ↦ Laid.append (ih₂ hindex paths) (ih₃ hvalue _) (by omega)
  exact .plain rfl rfl (.append (ih₁ hobject _) (hlater _) (by omega))

end Expressions

section Functions

variable {f : Function} {name : Token} {body : List Stmt} {methods classMethods : List Function}
  {ts ts' : List Token} {opening close : Token} {next next' : Option Kind}

/-- A getter has no parameters, so only its body can be wrong. -/
theorem laid_getter {name : Option Token} (ih : (Phrase.stmts body next).LaidAlong ts) :
    (Phrase.function (.mk name none body)).LaidAlong (opening :: (ts ++ [close])) := by
  intro lo hi hrising paths
  obtain ⟨lo', hi', hbody, hlo, hhi⟩ := hrising.enclosed
  exact .plain rfl rfl (.mono (ih hbody _) (by omega) (by omega))

/-- The errors of the parameters stand before those of the body. -/
theorem laid_function {name : Option Token} {parameters : List Token} {paren paren' : Token}
    (hnames : SpellsNames parameters ts) (ih : (Phrase.stmts body next).LaidAlong ts') :
    (Phrase.function (.mk name (some parameters) body)).LaidAlong
      (paren :: (ts ++ paren' :: opening :: (ts' ++ [close]))) := by
  intro lo hi hrising paths
  obtain ⟨hparen, hrest⟩ := hrising
  obtain ⟨mid, hparameters, hparen', hrest⟩ := rising_append hrest
  obtain ⟨lo', hi', hbody, hlo, hhi⟩ := hrest.enclosed
  have hown := (token_redeclarations [] parameters).trans hnames.sublist
  exact .mono (.ordinary hparameters hown rfl (.mono (ih hbody _) (by omega) hhi)) (by omega)
    (Nat.le_refl hi)

/-- A method is put before the methods behind it. Class methods are left out of the order. -/
theorem laid_method (ih : (Phrase.function f).LaidAlong ts)
    (ih' : (Phrase.methods methods classMethods).LaidAlong ts') :
    (Phrase.methods (f :: methods) classMethods).LaidAlong (name :: (ts ++ ts')) := by
  rintro lo hi ⟨hname, hrest⟩
  obtain ⟨mid, hfirst, hrest⟩ := rising_append hrest
  obtain ⟨hmethods, hclassMethods⟩ := ih' hrest
  have hle := hfirst.le
  exact ⟨fun paths ↦ .mono (.append (ih hfirst _) (hmethods _) (by omega)) (by omega) (by omega),
    fun paths ↦ .mono (hclassMethods _) (by omega) (by omega)⟩

/-- A class method is put before the class methods behind it. -/
theorem laid_classMethod {keyword : Token} (ih : (Phrase.function f).LaidAlong ts)
    (ih' : (Phrase.methods methods classMethods).LaidAlong ts') :
    (Phrase.methods methods (f :: classMethods)).LaidAlong (keyword :: name :: (ts ++ ts')) := by
  rintro lo hi ⟨hkeyword, hname, hrest⟩
  obtain ⟨mid, hfirst, hrest⟩ := rising_append hrest
  obtain ⟨hmethods, hclassMethods⟩ := ih' hrest
  have hle := hfirst.le
  exact ⟨fun paths ↦ .mono (hmethods _) (by omega) (by omega),
    fun paths ↦ .mono (.append (ih hfirst _) (hclassMethods _) (by omega)) (by omega) (by omega)⟩

/-- The name and the superclass stand before the methods, which may be crossed by class methods. -/
theorem laid_classDecl {keyword : Token} {superclass : Option Token}
    (hsuperclass : SpellsSuperclass superclass ts)
    (ih : (Phrase.methods methods classMethods).LaidAlong ts') :
    (Phrase.stmt (.classDecl name superclass methods classMethods) next).LaidAlong
      (keyword :: name :: (ts ++ opening :: (ts' ++ [close]))) := by
  rintro lo hi ⟨hkeyword, hname, hrest⟩ paths
  obtain ⟨mid, hsuper, hrest⟩ := rising_append hrest
  obtain ⟨lo', hi', hmethods, hlo, hhi⟩ := hrest.enclosed
  have hhead : Rising lo (name :: ts) mid := ⟨by omega, hsuper⟩
  obtain ⟨hfirst, hsecond⟩ := ih hmethods
  exact .classDecl hhead (hsuperclass.sublist.cons_cons name)
    (fun paths ↦ .mono (hfirst paths) (by omega) (by omega))
    fun paths ↦ .mono (hsecond paths) (by omega) (by omega)

end Functions

section Statements

variable {e : Expr} {s s' : Stmt} {ts ts' ts'' ends : List Token} {next next' : Option Kind}
  {keyword name opening close : Token}

/-- A name that is declared stands before its initial value. -/
theorem laid_var :
    (Phrase.clause (.var name none) next).LaidAlong (keyword :: name :: ends) := by
  rintro lo hi ⟨hkeyword, hname, hends⟩ paths
  have hend := hends.le
  have hhead : Rising lo [name] hi := ⟨by omega, hend⟩
  exact .ordinary hhead (token_redeclaration _ name) rfl (.nil (Nat.le_refl hi))

/-- The error at a name stands before those of its initial value. -/
theorem laid_varInitial {equal : Token} (ih : (Phrase.expr e).LaidAlong ts) :
    (Phrase.clause (.var name (some e)) next).LaidAlong
      (keyword :: name :: equal :: (ts ++ ends)) := by
  rintro lo hi ⟨hkeyword, hname, hequal, hrest⟩ paths
  obtain ⟨mid, hvalue, hends⟩ := rising_append hrest
  have hend := hends.le
  have hhead : Rising lo [name] (name.index + 1) := ⟨by omega, Nat.le_refl _⟩
  exact .ordinary hhead (token_redeclaration _ name) rfl (.mono (ih hvalue _) (by omega) (by omega))

/-- The name of a function stands before the function. -/
theorem laid_functionDeclaration {f : Function} (ih : (Phrase.function f).LaidAlong ts) :
    (Phrase.stmt (.var name (some (.function f))) next).LaidAlong (keyword :: name :: ts) := by
  rintro lo hi ⟨hkeyword, hname, hfunction⟩ paths
  have hhead : Rising lo [name] (name.index + 1) := ⟨by omega, Nat.le_refl _⟩
  have hliteral (paths : Nat → Path) : Laid paths [.expr (.function f)] (name.index + 1) hi :=
    .plain rfl rfl (ih hfunction _)
  exact .ordinary hhead (token_redeclaration _ name) rfl (hliteral _)

/-- A return outside of functions is an error at its keyword. -/
theorem laid_ret : (Phrase.stmt (.ret keyword none) next).LaidAlong (keyword :: ends) := by
  rintro lo hi ⟨hkeyword, hends⟩ paths
  have hhead : Rising lo [keyword] hi := ⟨hkeyword, hends.le⟩
  refine .ordinary hhead ?_ rfl (.nil (Nat.le_refl hi))
  cases hinside : (paths 0).inFunction <;> simp [Node.violations, hinside]

/-- The error at the keyword stands before those of the value. -/
theorem laid_retValue (ih : (Phrase.expr e).LaidAlong ts) :
    (Phrase.stmt (.ret keyword (some e)) next).LaidAlong (keyword :: (ts ++ ends)) := by
  rintro lo hi ⟨hkeyword, hrest⟩ paths
  obtain ⟨mid, hvalue, hends⟩ := rising_append hrest
  have hend := hends.le
  have hhead : Rising lo [keyword] (keyword.index + 1) := ⟨hkeyword, Nat.le_refl _⟩
  refine .ordinary hhead ?_ rfl (.mono (ih hvalue _) (by omega) (by omega))
  cases hinside : (paths 0).inFunction <;> simp [Node.violations, hinside]

/-- The condition is written before the branch. -/
theorem laid_ifThen (ih : (Phrase.expr e).LaidAlong ts) (ih' : (Phrase.stmt s next).LaidAlong ts') :
    (Phrase.stmt (.ifElse keyword e s none) next).LaidAlong
      (keyword :: opening :: (ts ++ close :: ts')) := by
  rintro lo hi ⟨hkeyword, hopening, hrest⟩ paths
  obtain ⟨mid, hcondition, hclose, hbody⟩ := rising_append hrest
  refine .plain rfl rfl (.mono (.append (ih hcondition _) (ih' hbody _) ?_) ?_ ?_)
  all_goals omega

/-- The two branches are written one behind the other. -/
theorem laid_ifElse {word : Token} (ih : (Phrase.expr e).LaidAlong ts)
    (ih' : (Phrase.stmt s next').LaidAlong ts') (ih'' : (Phrase.stmt s' next).LaidAlong ts'') :
    (Phrase.stmt (.ifElse keyword e s (some s')) next).LaidAlong
      (keyword :: opening :: (ts ++ close :: (ts' ++ word :: ts''))) := by
  rintro lo hi ⟨hkeyword, hopening, hrest⟩ paths
  obtain ⟨mid, hcondition, hclose, hrest⟩ := rising_append hrest
  obtain ⟨mid', htrue, hword, hfalse⟩ := rising_append hrest
  have hbranches := fun paths ↦ Laid.append (ih' htrue paths) (ih'' hfalse _) (by omega)
  refine .plain rfl rfl (.mono (.append (ih hcondition _) (hbranches _) ?_) ?_ ?_)
  all_goals omega

/-- The condition is written before the body. -/
theorem laid_whileLoop (ih : (Phrase.expr e).LaidAlong ts)
    (ih' : (Phrase.stmt s next).LaidAlong ts') :
    (Phrase.stmt (.loop keyword e s) next).LaidAlong
      (keyword :: opening :: (ts ++ close :: ts')) := by
  rintro lo hi ⟨hkeyword, hopening, hrest⟩ paths
  obtain ⟨mid, hcondition, hclose, hbody⟩ := rising_append hrest
  refine .plain rfl rfl (.mono (.append (ih hcondition _) (ih' hbody _) ?_) ?_ ?_)
  all_goals omega

/-- The clauses of a `for` are written before its body, and the last one is walked over behind it.
-/
theorem laid_forLoop {initial : Option Stmt} {increment : Option Expr}
    {ts₁ ts₂ ts₃ ts₄ : List Token} {semicolon : Token} (hkeyword : keyword.kind = .forWord)
    (ih₁ : (Phrase.initial initial next').LaidAlong ts₁) (ih₂ : (Phrase.condition e).LaidAlong ts₂)
    (ih₃ : (Phrase.increment increment).LaidAlong ts₃)
    (ih₄ : (Phrase.stmt s next).LaidAlong ts₄) :
    (Phrase.stmt (Grammar.desugarFor keyword initial e increment s) next).LaidAlong
      (keyword :: opening :: (ts₁ ++ (ts₂ ++ semicolon :: (ts₃ ++ close :: ts₄)))) := by
  rintro lo hi ⟨hword, hopening, hrest⟩ paths
  obtain ⟨mid, hinitial, hrest⟩ := rising_append hrest
  obtain ⟨mid', hcondition, hsemicolon, hrest⟩ := rising_append hrest
  obtain ⟨mid'', hincrement, hclose, hbody⟩ := rising_append hrest
  exact .mono (laid_desugarFor hkeyword (ih₁ hinitial) (ih₂ hcondition) (ih₃ hincrement)
    (ih₄ hbody) (by omega) (by omega) (by omega) paths) (by omega) (by omega)

end Statements

/-- **Every phrase lies in the stretch that spells it.** -/
theorem Spells.laid {phrase : Phrase} {ts : List Token} (h : Spells phrase ts) {lo hi : Nat}
    (hrising : Rising lo ts hi) : phrase.Laid lo hi := by
  induction h generalizing lo hi with
  | literal _ | name _ => exact fun paths ↦ .plain rfl rfl (.nil hrising.le)
  | this keyword => exact laid_this keyword hrising
  | super keyword method => exact laid_super keyword _ method hrising
  | array bracket _ _ ih | grouping _ _ _ ih =>
    obtain ⟨lo', hi', hinner, hlo, hhi⟩ := hrising.enclosed
    exact fun paths ↦ .plain rfl rfl (.mono (ih hinner _) (by omega) (by omega))
  | literalFunction _ _ _ ih | unary operator _ ih | reference operator _ ih =>
    obtain ⟨hfirst, hinner⟩ := hrising
    exact fun paths ↦ .plain rfl rfl (.mono (ih hinner _) (by omega) (by omega))
  | assign name _ _ ih =>
    obtain ⟨hname, hequal, hvalue⟩ := hrising
    exact fun paths ↦ .plain rfl rfl (.mono (ih hvalue _) (by omega) (by omega))
  | get name _ _ ih =>
    obtain ⟨mid, hobject, hname⟩ := rising_append hrising
    have hend := hname.le
    exact fun paths ↦ .plain rfl rfl (.mono (ih hobject _) (by omega) (by omega))
  | binary operator _ _ ih ih' | logical operator _ _ ih ih' =>
    obtain ⟨mid, hleft, hoperator, hright⟩ := rising_append hrising
    exact fun paths ↦ .plain rfl rfl (.append (ih hleft _) (ih' hright _) (by omega))
  | call paren _ _ _ ih ih' => exact laid_call ih ih' hrising
  | subscript bracket _ _ _ ih ih' => exact laid_subscript ih ih' hrising
  | ternary question _ _ _ _ ih ih' ih'' => exact laid_ternary ih ih' ih'' hrising
  | setElement bracket _ _ _ _ _ ih ih' ih'' => exact laid_setElement ih ih' ih'' hrising
  | set name _ _ _ _ ih ih' => exact laid_set ih ih' hrising
  -- Arguments, elements and statements
  | noArguments | noElements | noStmts | noInitial _ | noIncrement =>
    exact fun paths ↦ .nil hrising.le
  | lastArgument _ ih | lastElement _ ih | clause _ ih | initial _ ih | condition _ ih
  | increment _ ih => exact ih hrising
  | noCondition => exact fun paths ↦ .plain rfl rfl (.nil hrising.le)
  | argument _ _ _ _ ih ih' | element _ _ _ ih ih' =>
    obtain ⟨mid, hfirst, hcomma, hrest⟩ := rising_append hrising
    exact fun paths ↦ .append (ih hfirst _) (ih' hrest _) (by omega)
  | stmts _ _ ih ih' =>
    obtain ⟨mid, hfirst, hrest⟩ := rising_append hrising
    exact fun paths ↦ .append (ih hfirst _) (ih' hrest _) (by omega)
  -- Functions and methods
  | getter _ _ _ ih => exact laid_getter ih hrising
  | function _ hnames _ _ _ _ ih => exact laid_function hnames ih hrising
  | noMethods => exact ⟨fun paths ↦ .nil hrising.le, fun paths ↦ .nil hrising.le⟩
  | method _ _ _ ih ih' => exact laid_method ih ih' hrising
  | classMethod _ _ _ _ ih ih' => exact laid_classMethod ih ih' hrising
  | classDecl name _ hsuperclass _ _ _ ih => exact laid_classDecl hsuperclass ih hrising
  -- Statements
  | expression _ _ ih =>
    obtain ⟨mid, hvalue, hends⟩ := rising_append hrising
    have hend := hends.le
    exact fun paths ↦ .plain rfl rfl (.mono (ih hvalue _) (by omega) (by omega))
  | var name _ _ => exact laid_var hrising
  | varInitial name _ _ _ _ ih => exact laid_varInitial ih hrising
  | functionDeclaration _ _ _ _ ih => exact laid_functionDeclaration ih hrising
  | block _ _ _ ih =>
    obtain ⟨lo', hi', hbody, hlo, hhi⟩ := hrising.enclosed
    exact fun paths ↦ .mono (.block (ih hbody _)) (by omega) (by omega)
  | ifThen keyword _ _ _ _ _ ih ih' => exact laid_ifThen ih ih' hrising
  | ifElse keyword _ _ _ _ _ _ ih ih' ih'' => exact laid_ifElse ih ih' ih'' hrising
  | whileLoop _ _ _ _ _ ih ih' => exact laid_whileLoop ih ih' hrising
  | forLoop hkeyword _ _ _ _ _ _ _ _ hs ih₁ ih₂ ih₃ ih₄ =>
    subst hs
    exact laid_forLoop hkeyword ih₁ ih₂ ih₃ ih₄ hrising
  | ret keyword _ _ => exact laid_ret hrising
  | retValue keyword _ _ ih => exact laid_retValue ih hrising
  | importModule keyword _ _ ih =>
    obtain ⟨hkeyword, hrest⟩ := hrising
    obtain ⟨mid, hname, hends⟩ := rising_append hrest
    have hend := hends.le
    exact fun paths ↦ .plain rfl rfl (.mono (ih hname _) (by omega) (by omega))

/-- **The errors of a source are in its order exactly if they cross nowhere.** -/
theorem Program.ascending_iff_uncrossed {index : Nat} {source : String} {program : Program}
    {errors : List ScopeError} (hparsed : (Scan.ofSource index source).program = .ok program)
    (hrejected : program.addresses = .error errors) :
    errors.Pairwise (fun e e' ↦ e.token.index ≤ e'.token.index) ↔
      ∀ p, program.Stands p → p.Uncrossed := by
  obtain ⟨hstratified, hspells⟩ := Program.says_of_parse hparsed
  obtain ⟨hi, hrising⟩ := exists_rising (Scan.pairwise_index index source)
    fun t _ ↦ Nat.zero_le t.index
  have hlaid : Laid .top (program.map .stmt) 0 hi := hspells.laid hrising .top
  rw [Program.eq_violations_of_error hstratified hrejected]
  refine (ascending_placesOf_iff fun n _ path ↦ n.ascending_iff path).trans ?_
  simp only [hlaid.order, true_and, ← Program.mem_places_iff]
  exact forall₂_congr hlaid.places

/-- What holds of the errors of a source can be found out by running the walk. -/
theorem Scan.exists_of_rejected {source : String} {P : List ScopeError → Prop} [DecidablePred P]
    (h : (match (Scan.ofSource 0 source).program with
      | .ok program =>
        match program.addresses with
        | .ok _ => false
        | .error errors => decide (P errors)
      | .error _ => false) = true) :
    ∃ program errors, (Scan.ofSource 0 source).program = .ok program ∧
      program.addresses = .error errors ∧ P errors := by
  split at h
  · next program hparsed =>
    split at h
    · cases h
    · next errors hrejected =>
      exact ⟨program, errors, hparsed, hrejected, of_decide_eq_true h⟩
  · cases h

/-- The theorem at `return this`, where two errors come in order and cross nowhere. -/
theorem Program.uncrossed_return_this :
    ∃ program errors, (Scan.ofSource 0 "return this").program = .ok program ∧
      program.addresses = .error errors ∧ errors.length = 2 ∧
      ∀ p, program.Stands p → p.Uncrossed := by
  obtain ⟨program, errors, hparsed, hrejected, hlength, hascending⟩ :=
    @Scan.exists_of_rejected "return this" (fun errors ↦ errors.length = 2 ∧
      errors.Pairwise fun e e' ↦ e.token.index ≤ e'.token.index) _ (by decide +kernel)
  exact ⟨program, errors, hparsed, hrejected, hlength,
    (Program.ascending_iff_uncrossed hparsed hrejected).1 hascending⟩

/-- The source is rejected with errors in another order than its own. -/
def Scan.Disordered (source : String) : Prop :=
  ∃ program errors, (Scan.ofSource 0 source).program = .ok program ∧
    program.addresses = .error errors ∧
    ¬ errors.Pairwise fun e e' ↦ e.token.index ≤ e'.token.index

/-- **In each of the three places errors do cross**: where a property is set, in a class with class
methods, and in a loop with an increment. -/
theorem Program.addresses_out_of_order :
    Scan.Disordered "this.a = super.b" ∧
      Scan.Disordered "class A \x7b class b() \x7b super.x \x7d c() \x7b super.y \x7d \x7d" ∧
      Scan.Disordered "for (;;super.x) this" := by
  refine ⟨?_, ?_, ?_⟩
  all_goals exact Scan.exists_of_rejected (by decide +kernel)

end AliasScript
