import AliasScript.Proofs.Scope.Walk

/-!
# Places in a program

A node of a program is known by the way down to it: through which nodes, and to which of their parts
(`Path`). The tree may hold equal nodes at different places, so what is said of a place is said of
the path and the node together.

`Program.Stands` says which places a program has, one step down at a time. `Program.places` lists
them, each node before its parts, and it lists **every place exactly once**
(`Program.mem_places_iff`, `Program.nodup_places`).
-/

namespace AliasScript

/-! ### Paths -/

/-- The way to a node of a program. -/
inductive Path where
  /-- To a statement of the program. -/
  | top (index : Nat)
  /-- To a part of the node around. -/
  | inside (outer : Path) (around : Node) (index : Nat)

/-- A node and the way to it. -/
structure Place where
  path : Path
  node : Node

/-- The places of a program. -/
inductive Program.Stands (program : Program) : Place → Prop
  | top {index : Nat} {s : Stmt} : program[index]? = some s →
      Program.Stands program ⟨.top index, .stmt s⟩
  | inside {outer : Path} {around node : Node} {index : Nat} :
      Program.Stands program ⟨outer, around⟩ → around.parts[index]? = some node →
      Program.Stands program ⟨.inside outer around index, node⟩

namespace Path

/-- The steps on the way, without the nodes on it. -/
def steps : Path → List Nat
  | top index => [index]
  | inside outer _ index => outer.steps ++ [index]

/-- The path leads on from a place that is reached by these steps. -/
def Below (steps : List Nat) (path : Path) : Prop :=
  steps <+: path.steps

/-- A path is below its own steps. -/
theorem below_self (path : Path) : path.Below path.steps :=
  List.prefix_rfl

/-- Two ways that go on from one place by different steps never meet. -/
theorem Below.step_eq {path : Path} {steps : List Nat} {i j : Nat}
    (h : path.Below (steps ++ [i])) (h' : path.Below (steps ++ [j])) : i = j := by
  have heq := List.prefix_of_prefix_length_le h h' (by simp)
  simpa using heq

/-- What is below a step inside does not end before it. -/
theorem Below.ne {path : Path} {steps : List Nat} {i : Nat} (h : path.Below (steps ++ [i])) :
    path.steps ≠ steps := by
  intro heq
  have hle := List.IsPrefix.length_le h
  rw [heq, List.length_append, List.length_singleton] at hle
  omega

/-- What is below a step is below what the step starts from. -/
theorem Below.outer {path : Path} {steps : List Nat} {i : Nat} (h : path.Below (steps ++ [i])) :
    path.Below steps :=
  (List.prefix_append steps [i]).trans h

end Path

/-! ### All places -/

/-- Being right inside a node is a well-founded relation. -/
instance : WellFoundedRelation Node where
  rel n node := n ∈ node.parts
  wf := ⟨Node.induct fun node ih ↦ .intro node ih⟩

/-- The places in a node that stands at the end of a path: its own, and those in its parts. -/
def Node.places (path : Path) (node : Node) : List Place :=
  ⟨path, node⟩ :: node.parts.attach.zipIdx.flatMap fun (⟨n, _⟩, i) ↦
    n.places (.inside path node i)
termination_by node
decreasing_by assumption

/-- The places in nodes that stand side by side, the one of each number at the end of its path. -/
def placesOf (paths : Nat → Path) (nodes : List Node) : List Place :=
  nodes.zipIdx.flatMap fun (n, i) ↦ n.places (paths i)

/-- All places of a program. -/
def Program.places (program : Program) : List Place :=
  placesOf .top (program.map .stmt)

/-- A node has its own place, and those of its parts. -/
theorem Node.places_eq (path : Path) (node : Node) :
    node.places path = ⟨path, node⟩ :: placesOf (.inside path node) node.parts := by
  rw [places, placesOf]
  conv => enter [2, 2, 2]; rw [← List.attach_map_subtype_val node.parts]
  rw [List.zipIdx_map, List.flatMap_map]
  rfl

variable {paths : Nat → Path} {nodes : List Node} {p : Place}

@[simp] theorem placesOf_nil (paths : Nat → Path) : placesOf paths [] = [] := rfl

@[simp] theorem placesOf_cons (paths : Nat → Path) (node : Node) (nodes : List Node) :
    placesOf paths (node :: nodes) =
      node.places (paths 0) ++ placesOf (fun i ↦ paths (i + 1)) nodes := by
  simp only [placesOf, List.zipIdx_cons', List.flatMap_cons, List.flatMap_map]
  rfl

/-- Nodes one behind the other have the places of the ones and of the others. -/
theorem placesOf_append (paths : Nat → Path) (nodes nodes' : List Node) :
    placesOf paths (nodes ++ nodes') =
      placesOf paths nodes ++ placesOf (fun i ↦ paths (i + nodes.length)) nodes' := by
  induction nodes generalizing paths with
  | nil => rfl
  | cons node rest ih => simp [ih, Nat.add_assoc]

/-- A place of a list of nodes is one of some node in it. -/
theorem mem_placesOf :
    p ∈ placesOf paths nodes ↔
      ∃ (i : Nat) (n : Node), nodes[i]? = some n ∧ p ∈ n.places (paths i) := by
  simp only [placesOf, List.mem_flatMap, Prod.exists, List.mem_zipIdx_iff_getElem?]
  exact exists_comm

/-- A place of a node is its own, or one of a part. -/
theorem Node.mem_places {path : Path} {node : Node} :
    p ∈ node.places path ↔ p = ⟨path, node⟩ ∨
      ∃ (i : Nat) (n : Node), node.parts[i]? = some n ∧ p ∈ n.places (.inside path node i) := by
  rw [places_eq, List.mem_cons, mem_placesOf]

/-- What is right inside a place of a node is a place of the node too. -/
theorem Node.inside_mem_places (node : Node) {path outer : Path} {around n : Node} {i : Nat}
    (h : ⟨outer, around⟩ ∈ node.places path) (hn : around.parts[i]? = some n) :
    ⟨.inside outer around i, n⟩ ∈ node.places path := by
  have step : Hereditary fun node ↦ ∀ path, ⟨outer, around⟩ ∈ node.places path →
      ⟨.inside outer around i, n⟩ ∈ node.places path := by
    intro node ih path h
    rcases Node.mem_places.1 h with heq | ⟨j, m, hm, h⟩
    · cases heq
      exact Node.mem_places.2 (.inr ⟨i, n, hn, Node.mem_places.2 (.inl rfl)⟩)
    · exact Node.mem_places.2 (.inr ⟨j, m, hm, ih m (List.mem_of_getElem? hm) _ h⟩)
  exact node.induct step path h

/-- What stands in a node that stands in the program stands in it as well. -/
theorem Node.stands_of_mem_places {program : Program} (node : Node) {path : Path}
    (h : program.Stands ⟨path, node⟩) (hp : p ∈ node.places path) : program.Stands p := by
  have step : Hereditary fun node ↦ ∀ path, program.Stands ⟨path, node⟩ →
      p ∈ node.places path → program.Stands p := by
    intro node ih path h hp
    rcases Node.mem_places.1 hp with rfl | ⟨i, n, hn, hp⟩
    · exact h
    · exact ih n (List.mem_of_getElem? hn) _ (.inside h hn) hp
  exact node.induct step path h hp

/-- **The list holds the places of the program and nothing else.** -/
theorem Program.mem_places_iff {program : Program} : p ∈ program.places ↔ program.Stands p := by
  constructor
  · intro hp
    obtain ⟨i, n, hn, hp⟩ := mem_placesOf.1 hp
    obtain ⟨s, hs, rfl⟩ : ∃ s, program[i]? = some s ∧ Node.stmt s = n := by
      simpa [List.getElem?_map] using hn
    exact Node.stands_of_mem_places _ (.top hs) hp
  · intro h
    induction h with
    | top hs =>
      exact mem_placesOf.2 ⟨_, _, by simp [List.getElem?_map, hs], Node.mem_places.2 (.inl rfl)⟩
    | inside _ hn ih =>
      obtain ⟨j, m, hm, hp⟩ := mem_placesOf.1 ih
      exact mem_placesOf.2 ⟨j, m, hm, Node.inside_mem_places m hp hn⟩

/-! ### No place is listed twice -/

/-- The places of a node are below its path. -/
theorem Node.below_of_mem_places (node : Node) {path : Path} (h : p ∈ node.places path) :
    p.path.Below path.steps := by
  have step : Hereditary fun node ↦ ∀ path, p ∈ node.places path → p.path.Below path.steps := by
    intro node ih path h
    rcases Node.mem_places.1 h with rfl | ⟨i, n, hn, h⟩
    · exact path.below_self
    · exact (ih n (List.mem_of_getElem? hn) _ h).outer
  exact node.induct step path h

/-- Nodes side by side have no places in common. -/
theorem nodup_placesOf {steps : List Nat} {k : Nat}
    (hpaths : ∀ i, (paths i).steps = steps ++ [k + i])
    (h : ∀ n ∈ nodes, ∀ path, (n.places path).Nodup) : (placesOf paths nodes).Nodup := by
  induction nodes generalizing paths k with
  | nil => exact List.nodup_nil
  | cons node rest ih =>
    rw [placesOf_cons, List.nodup_append]
    refine ⟨h node (by simp) _, ih (k := k + 1) (fun i ↦ ?_) fun n hn ↦ h n (by simp [hn]), ?_⟩
    · rw [hpaths, Nat.add_assoc, Nat.add_comm 1]
    · rintro p hp _ hp' rfl
      obtain ⟨i, n, -, hp'⟩ := mem_placesOf.1 hp'
      have hfirst := node.below_of_mem_places hp
      have hlater := n.below_of_mem_places hp'
      rw [hpaths] at hfirst hlater
      have heq := hfirst.step_eq hlater
      omega

/-- **No place comes twice.** -/
theorem Node.nodup_places (path : Path) (node : Node) : (node.places path).Nodup := by
  have step : Hereditary fun node ↦ ∀ path, (node.places path).Nodup := by
    intro node ih path
    rw [places_eq, List.nodup_cons]
    have hsteps (i : Nat) : (Path.inside path node i).steps = path.steps ++ [0 + i] := by
      rw [Path.steps, Nat.zero_add]
    refine ⟨fun hmem ↦ ?_, nodup_placesOf hsteps ih⟩
    obtain ⟨i, n, -, hp⟩ := mem_placesOf.1 hmem
    exact (Node.below_of_mem_places n hp).ne rfl
  exact node.induct step path

/-- **No place is listed twice.** -/
theorem Program.nodup_places (program : Program) : program.places.Nodup :=
  nodup_placesOf (k := 0) (fun i ↦ by rw [Path.steps, Nat.zero_add, List.nil_append])
    fun n _ path ↦ n.nodup_places path

end AliasScript
