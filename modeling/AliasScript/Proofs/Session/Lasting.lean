import AliasScript.Proofs.Evaluation.Corresponds
import AliasScript.Proofs.Machine.Chronicle
import AliasScript.Proofs.Session.History

/-!
# The table of distances only grows

All tokens that a machine ever scans are numbered one after the other, whether they come from the
source of a turn or from a module, and whether or not anything was wrong with the source. What a
history enters is told by a machine that does the same and keeps its journal (`entered`): every
source that was accepted adds distances for tokens of its own only, and nothing ever changes or
removes one (`Machine.Tells`). So a use of a name in a function, a method or an alias that memory
holds keeps its distance, or stays without one, for the rest of the history, also in the middle of a
run (`lasting`).
-/

namespace AliasScript

/-! ### Uses of names that are held -/

/-- The token is a use of a name somewhere in the node. -/
inductive UsedIn (t : Token) : Node → Prop
  | self {node : Node} : t ∈ node.uses → UsedIn t node
  | superclass {name : Token} {methods classMethods : List Function} :
      UsedIn t (.stmt (.classDecl name (some t) methods classMethods))
  | inside {node part : Node} : part ∈ node.parts → UsedIn t part → UsedIn t node

/-- The token is a use of a name in a function, a method or an alias. -/
def Store.Holds (s : Store) (t : Token) : Prop :=
  ∃ i node, s.Has i ∧ i.node? = some node ∧ UsedIn t node

/-- The walk comes to every use of a name. -/
theorem Walks.exists_of_usedIn {program : Program} {c : Context} {node : Node} {t : Token}
    (hv : Walks program ⟨c, node⟩) (ht : UsedIn t node) :
    ∃ w, Walks program w ∧ t ∈ w.node.uses := by
  induction ht generalizing c with
  | self hmem => exact ⟨_, hv, hmem⟩
  | superclass => exact ⟨_, .superclass rfl hv, List.mem_singleton.2 rfl⟩
  | inside hpart _ ih =>
    obtain ⟨c', hv'⟩ := hv.part hpart
    exact ih hv'

/-- **A use of a name that memory holds was scanned already.** -/
theorem Memory.Sound.index_lt {o : Labels} {μ : Memory} (h : μ.Sound o) {t : Token}
    (ht : μ.store.Holds t) : t.index < μ.nextIndex := by
  obtain ⟨i, node, hi, hnode, hused⟩ := ht
  obtain ⟨c, program, hknows, hv⟩ := (h.items i hi).visits hnode
  obtain ⟨w, hw, hmem⟩ := hv.exists_of_usedIn hused
  exact (hknows.distances w hw t hmem).1

/-! ### Activities -/

/-- Every use of a name that is held was scanned already, and whatever source is accepted next adds
distances only where there are none. -/
def Machine.KeepsApart (m : Machine) : Prop :=
  (∀ t, m.store.Holds t → t.index < m.nextIndex) ∧
    ∀ source program addresses, Accepted m.nextIndex source program addresses →
      ∀ a ∈ addresses, m.distances.find? a.token.index = none

theorem Machine.keepsApart_of_sound {o : Labels} {m : Machine} (hm : m.memory.Sound o) :
    m.KeepsApart := by
  refine ⟨fun t ↦ hm.index_lt, fun source program addresses haccepted a ha ↦ ?_⟩
  exact hm.fresh _ (Scan.le_index (haccepted.mem_tokens (haccepted.mem_names_of_mem ha)))

/-- Tokens are kept apart wherever an activity begins or ends, and the uses of names that are held
when it begins have the same distances when it ends. -/
def lasting : Watch where
  enters _ _ m := m.KeepsApart
  leaves _ _ m _ m' := m'.KeepsApart ∧ ∀ t, m.store.Holds t →
    m'.distances.find? t.index = m.distances.find? t.index

theorem justified_lasting : Watch.Justified fun _ ↦ lasting where
  enters hm _ _ _ := Machine.keepsApart_of_sound hm
  leaves hm _ leads _ _ := ⟨Machine.keepsApart_of_sound leads.grows.sound,
    fun _ ht ↦ leads.grows.later.distances _ (hm.index_lt ht)⟩

/-! ### Histories -/

namespace Machine

/-- The machine after some turns, with a journal of all of them. -/
def recorded (m : Machine) : List Turn → Machine
  | [] => m
  | t :: rest => (run t.budget { m with world := t.world } t.source).2.recorded rest

/-- **A history is recorded.** -/
theorem Recorded.after {m m' : Machine} (h : m.Recorded m') (turns : List Turn) :
    (m.after turns).Recorded (m'.recorded turns) := by
  induction turns generalizing m m' with
  | nil => exact h
  | cons t rest ih =>
    have hready : (m.ready t).Recorded { m' with world := t.world } := { h with world := rfl }
    exact ih (run_alike (C := recording) hready t.budget t.source).2

theorem recorded_initial (arguments : List String) (world : World) (tracing : Bool) :
    (initial arguments world tracing).Recorded (initial arguments world true) :=
  ⟨Store.alike_refl _, rfl, rfl, rfl, rfl, rfl, rfl, .start, rfl, rfl⟩

theorem after_append (m : Machine) (earlier later : List Turn) :
    m.after (earlier ++ later) = (m.after earlier).after later := by
  induction earlier generalizing m with
  | nil => rfl
  | cons t rest ih => exact ih _

/-- **The loads tell how the machine came by its table of distances.** -/
structure Tells (loads : List Load) (m : Machine) : Prop where
  /-- The tokens of all sources have the indices 0, 1, 2 and so on. -/
  indices : (Load.tokens loads).map Token.index = List.range m.nextIndex
  table : m.distances = Load.table loads
  /-- Every load comes right behind the earlier ones, and adds distances where there were none. -/
  extends_earlier : ∀ later l earlier, loads = later ++ l :: earlier → l.Extends earlier
  /-- No later load changes the distance of a token, or adds one. -/
  keeps : ∀ later earlier, loads = later ++ earlier → ∀ i < (Load.tokens earlier).length,
    m.distances.find? i = (Load.table earlier).find? i

theorem Recorded.tells {m m' : Machine} (h : m.Recorded m') : m.Tells m'.journal.loads where
  indices := by
    rw [h.chronicle.map_index_tokens, h.nextIndex, h.tokens]
  table := h.distances.trans h.table
  extends_earlier later l earlier hloads := by
    have hchronicle := h.chronicle
    rw [hloads] at hchronicle
    exact hchronicle.of_append.extends_of_cons
  keeps later earlier hloads i hi := by
    have hchronicle := h.chronicle
    rw [hloads] at hchronicle
    rw [h.distances, h.table, hloads, hchronicle.keeps hi]

end Machine

/-- The sources that a history enters, the latest first: those of its turns, and the modules that
they import. -/
def entered (arguments : List String) (world : World) (turns : List Turn) : List Load :=
  ((Machine.initial arguments world true).recorded turns).journal.loads

/-- **The table of distances only grows.** What a history enters tells how the table came about; in
every run of the history the uses of names that are held keep their distances; and so they do from
one turn to all later ones. -/
theorem Machine.distances_lasting (arguments : List String) (world : World) (tracing : Bool)
    (turns : List Turn) :
    ((initial arguments world tracing).after turns).Tells (entered arguments world turns) ∧
      lasting.FindsNothing (initial arguments world tracing) turns ∧
      ∀ earlier later, turns = earlier ++ later →
        ∀ t, ((initial arguments world tracing).after earlier).store.Holds t →
          ((initial arguments world tracing).after turns).distances.find? t.index =
            ((initial arguments world tracing).after earlier).distances.find? t.index := by
  have hstart := rests_initial arguments world tracing
  obtain ⟨o, leads, hnothing⟩ := sound_after justified_lasting hstart turns
  refine ⟨((recorded_initial arguments world tracing).after turns).tells,
    hnothing o (.refl o _), ?_⟩
  rintro earlier later rfl t ht
  obtain ⟨o₁, leads₁, -⟩ := sound_after justified_lasting hstart earlier
  obtain ⟨o₂, leads₂, -⟩ := sound_after justified_lasting (hstart.leads leads₁) later
  rw [after_append]
  exact leads₂.grows.later.distances _ (leads₁.grows.sound.index_lt ht)

/-- A source that is rejected takes indices, and one that is accepted adds a distance for the use of
a name in it. -/
example :
    (entered [] .empty [⟨.empty, ⟨false, #[]⟩, 9, "var = 2"⟩,
      ⟨.empty, ⟨false, #[]⟩, 9, "\x7b var a; a; \x7d"⟩]).map (fun l ↦
        (l.scan.all.map Token.index, l.addresses.map (·.map (·.token.index)))) =
      [([4, 5, 6, 7, 8, 9, 10, 11], some [8]), ([0, 1, 2, 3], none)] := by
  decide +kernel

end AliasScript
