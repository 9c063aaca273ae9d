import AliasScript.Proofs.Evaluation.Module
import AliasScript.Proofs.Machine.Correspondence
import AliasScript.Proofs.Token.Numbering

/-!
# What the journal tells of sources

A machine that keeps its journal tells of every source that it entered, those of modules included:
what was scanned, and which addresses were found if nothing was wrong with it (`Journal.loads`).
Each of these loads is that of a source whose tokens are numbered right behind those of the earlier
ones (`Chronicle`). From that follows all that is to be said about the table of distances: no index
is given twice, and a load adds distances only for tokens of its own (`Chronicle.keeps`).

A machine runs in the same way whether or not it keeps a journal (`recording`).
-/

namespace AliasScript

/-! ### Loads -/

/-- A source that was entered: its tokens, and the addresses of the uses of names in it, if nothing
was wrong with it. -/
structure Load where
  scan : Scan
  addresses : Option (List Address)

namespace Load

/-- All tokens of some loads. The latest load comes first in the list. -/
def tokens : List Load → List Token
  | [] => []
  | l :: earlier => tokens earlier ++ l.scan.all

/-- No load takes a token back. -/
theorem length_tokens_le (later earlier : List Load) :
    (tokens earlier).length ≤ (tokens (later ++ earlier)).length := by
  induction later with
  | nil => exact Nat.le_refl _
  | cons l rest ih =>
    rw [List.cons_append, tokens, List.length_append]
    exact Nat.le_trans ih (Nat.le_add_right _ _)

/-- The table of distances after some loads. -/
def table : List Load → Distances
  | [] => #[]
  | l :: earlier => (table earlier).extend (l.addresses.getD [])

/-- The loads after an event. -/
def noting : List Load → Event → List Load
  | loads, .scanned scan => ⟨scan, none⟩ :: loads
  | l :: earlier, .resolved addresses => { l with addresses := some addresses } :: earlier
  | loads, _ => loads

end Load

/-- The loads that the journal tells of, the latest first. -/
def Journal.loads (j : Journal) : List Load :=
  j.events.toList.foldl Load.noting []

/-- What is told of a source that was scanned. -/
def Scan.load (s : Scan) : Load :=
  ⟨s, match s.program? >>= Program.resolve with
    | .error _ => none
    | .ok resolved => some resolved.addresses⟩

theorem Scan.foldl_noting_events (s : Scan) (loads : List Load) :
    s.events.foldl Load.noting loads = s.load :: loads := by
  unfold events load
  cases hparsed : s.program? with
  | error errors => rfl
  | ok program =>
    cases hresolve : program.resolve with
    | error errors => simp [bind, Except.bind, hresolve, Load.noting]
    | ok resolved => simp [bind, Except.bind, hresolve, Load.noting]

namespace Journal

variable {j : Journal} (h : j.enabled = true)

include h

theorem enabled_note (e : Event) : (j.note e).enabled = true := by
  rw [note, if_pos h]
  exact h

theorem loads_note (e : Event) : (j.note e).loads = Load.noting j.loads e := by
  rw [note, if_pos h]
  simp [loads]

/-- A journal that is kept tells of all that is noted. -/
theorem loads_noteAll (events : List Event) :
    (events.foldl note j).enabled = true ∧
      (events.foldl note j).loads = events.foldl Load.noting j.loads := by
  induction events generalizing j with
  | nil => exact ⟨h, rfl⟩
  | cons e rest ih =>
    have hrest := ih (enabled_note h e)
    rwa [loads_note h e] at hrest

end Journal

/-! ### Chronicles -/

/-- **Every load is that of a source whose tokens come right behind those of the earlier ones.** -/
inductive Chronicle : List Load → Prop
  | start : Chronicle []
  | entered {earlier : List Load} (source : String) : Chronicle earlier →
      Chronicle ((Scan.ofSource (Load.tokens earlier).length source).load :: earlier)

/-- The load comes right behind the earlier ones. If nothing was wrong with it, all names in its
program have indices of their own, and none of the indices for which it adds a distance has one
already. -/
structure Load.Extends (earlier : List Load) (l : Load) : Prop where
  entered : ∃ source, l.scan = Scan.ofSource (tokens earlier).length source ∧
    ∀ addresses, l.addresses = some addresses → ∃ program,
      Accepted (tokens earlier).length source program addresses ∧
        ((stmtsNames program).map Token.index).Nodup ∧ ∀ a ∈ addresses, a.token ∈ stmtsNames program
  added : ∀ addresses, l.addresses = some addresses → ∀ a ∈ addresses,
    (table earlier).find? a.token.index = none

/-- The names of an accepted program have indices of their own. -/
theorem Accepted.nodup_index {index : Nat} {source : String} {program : Program}
    {addresses : List Address} (h : Accepted index source program addresses) :
    ((stmtsNames program).map Token.index).Nodup :=
  h.nodup_names.map_on fun _ ht _ ht' hindex ↦
    Scan.eq_of_index_eq (h.mem_tokens ht) (h.mem_tokens ht') hindex

theorem Scan.accepted_of_load {index : Nat} {source : String} {addresses : List Address}
    (h : (ofSource index source).load.addresses = some addresses) :
    ∃ program, Accepted index source program addresses := by
  unfold load at h
  dsimp only at h
  split at h
  · cases h
  · next resolved hloaded =>
    cases h
    exact ⟨resolved.program, .of_load hloaded⟩

namespace Chronicle

variable {loads : List Load}

/-- **The tokens of all sources are numbered one after the other.** -/
theorem map_index_tokens (h : Chronicle loads) :
    (Load.tokens loads).map Token.index = List.range (Load.tokens loads).length := by
  induction h with
  | start => rfl
  | @entered earlier source _ ih =>
    simp only [Load.tokens, Scan.load, List.map_append, ih, Scan.map_index_all, List.length_append,
      List.range_eq_range']
    have happend := List.range'_append_1 (s := 0) (m := (Load.tokens earlier).length)
      (n := (Scan.ofSource (Load.tokens earlier).length source).all.length)
    rwa [Nat.zero_add] at happend

/-- A load adds nothing to the table outside of its own tokens. -/
theorem find?_table_cons (earlier : List Load) (source : String) {i : Nat}
    (hi : i < (Load.tokens earlier).length ∨
      (Load.tokens earlier).length +
        (Scan.ofSource (Load.tokens earlier).length source).all.length ≤ i) :
    (Load.table ((Scan.ofSource (Load.tokens earlier).length source).load :: earlier)).find? i =
      (Load.table earlier).find? i := by
  rw [← Scan.nextIndex_eq] at hi
  rw [Load.table]
  cases haddresses : (Scan.ofSource (Load.tokens earlier).length source).load.addresses with
  | none => rfl
  | some addresses =>
    obtain ⟨program, haccepted⟩ := Scan.accepted_of_load haddresses
    exact haccepted.find?_extend_of_not_mem hi

/-- Tokens that are not scanned yet have no distance. -/
theorem find?_table_of_le (h : Chronicle loads) {i : Nat} (hi : (Load.tokens loads).length ≤ i) :
    (Load.table loads).find? i = none := by
  induction h with
  | start => simp [Load.table, Distances.find?]
  | entered source _ ih =>
    rw [Load.tokens, List.length_append] at hi
    rw [find?_table_cons _ source (.inr hi)]
    exact ih (Nat.le_trans (Nat.le_add_right _ _) hi)

/-- **Every load extends the table by new entries.** -/
theorem extends_of_cons {l : Load} {earlier : List Load} (h : Chronicle (l :: earlier)) :
    l.Extends earlier := by
  cases h with | entered source hearlier => ?_
  refine ⟨⟨source, rfl, fun addresses haddresses ↦ ?_⟩, fun addresses haddresses a ha ↦ ?_⟩
  · obtain ⟨program, haccepted⟩ := Scan.accepted_of_load haddresses
    exact ⟨program, haccepted, haccepted.nodup_index, fun a ↦ haccepted.mem_names_of_mem⟩
  · obtain ⟨program, haccepted⟩ := Scan.accepted_of_load haddresses
    exact hearlier.find?_table_of_le
      (Scan.le_index (haccepted.mem_tokens (haccepted.mem_names_of_mem ha)))

/-- What was told up to some time is a chronicle. -/
theorem of_append {later earlier : List Load} (h : Chronicle (later ++ earlier)) :
    Chronicle earlier := by
  induction later with
  | nil => exact h
  | cons l rest ih =>
    cases h with | entered _ hrest => exact ih hrest

/-- **The distance of a token that was scanned never changes**, nor does it get one. -/
theorem keeps {later earlier : List Load} (h : Chronicle (later ++ earlier)) {i : Nat}
    (hi : i < (Load.tokens earlier).length) :
    (Load.table (later ++ earlier)).find? i = (Load.table earlier).find? i := by
  induction later with
  | nil => rfl
  | cons l rest ih =>
    rw [List.cons_append] at h ⊢
    cases h with | entered source hrest => ?_
    have hlt := Nat.lt_of_lt_of_le hi (Load.length_tokens_le rest earlier)
    rw [find?_table_cons _ source (.inl hlt)]
    exact ih hrest

end Chronicle

/-! ### Machines that keep a journal -/

theorem Diagnostic.alike_refl (d : Diagnostic) : d.Alike .same d := by
  cases d with
  | lexical e => exact .lexical
  | grammar e => exact .grammar ⟨rfl, rfl⟩
  | scope e => exact .scope ⟨rfl, rfl⟩

theorem Stmt.alike_refl (s : Stmt) : s.Alike .same s := by
  cases (Node.stmt s).alike_refl (L := .same) fun _ ↦ rfl with | stmt hs => exact hs

theorem Store.alike_refl (s : Store) : s.Alike .same s := by
  have hfunction (f : Function) : f.Alike .same f := by
    cases (Node.function f).alike_refl (L := .same) fun _ ↦ rfl with | function hf => exact hf
  have hexpr (e : Expr) : e.Alike .same e := by
    cases (Node.expr e).alike_refl (L := .same) fun _ ↦ rfl with | expr he => exact he
  have hclosure (c : Closure) : c.Alike .same c := ⟨hfunction _, rfl, rfl⟩
  exact ⟨rfl, rfl, .self fun c _ ↦ hclosure c,
    .self fun _ _ ↦ ⟨rfl, rfl, fun _ ↦ option_rel_self fun c _ ↦ hclosure c, rfl, rfl⟩, rfl,
    .self fun _ _ ↦ ⟨rfl, hexpr _, rfl⟩, rfl⟩

/-- **The second machine does as the first one, and keeps a journal of all that it has entered.** -/
structure Machine.Recorded (m m' : Machine) : Prop where
  store : m.store.Alike .same m'.store
  here : m.here = m'.here
  depth : m.depth = m'.depth
  world : m.world = m'.world
  nextIndex : m.nextIndex = m'.nextIndex
  distances : m.distances = m'.distances
  enabled : m'.journal.enabled = true
  chronicle : Chronicle m'.journal.loads
  tokens : m'.nextIndex = (Load.tokens m'.journal.loads).length
  table : m'.distances = Load.table m'.journal.loads

namespace Machine.Recorded

variable {m m' : Machine} (h : m.Recorded m') (source : String)

include h

/-- The journal tells of a source that is loaded. -/
theorem loaded {distances : Distances}
    (htable : Load.table ((Scan.ofSource m'.nextIndex source).load :: m'.journal.loads) =
      distances) :
    Recorded { m.loaded (Scan.ofSource m'.nextIndex source) with distances := distances }
      { m'.loaded (Scan.ofSource m'.nextIndex source) with distances := distances } := by
  obtain ⟨henabled, hloads⟩ :=
    Journal.loads_noteAll h.enabled (Scan.ofSource m'.nextIndex source).events
  rw [Scan.foldl_noting_events] at hloads
  refine ⟨h.store, h.here, h.depth, h.world, rfl, rfl, henabled, ?_, ?_, ?_⟩ <;>
    dsimp only [Machine.loaded] <;> rw [hloads]
  · exact h.tokens ▸ .entered source h.chronicle
  · rw [Scan.nextIndex_eq, Load.tokens, List.length_append, ← h.tokens]
    rfl
  · exact htable.symm

theorem enter :
    Matches Machine.Recorded (Halt.Alike .same)
      (Except.Both (List.Forall₂ (Diagnostic.Alike .same)) (List.Forall₂ (Stmt.Alike .same)))
      (Evaluator.enterSource source m) (Evaluator.enterSource source m') := by
  rw [Evaluator.enterSource_eq, Evaluator.enterSource_eq, h.nextIndex, h.distances]
  cases hloaded : (Scan.ofSource m'.nextIndex source).program? >>= Program.resolve with
  | error errors =>
    have hentered : Recorded { m.loaded (Scan.ofSource m'.nextIndex source) with
        distances := m'.distances } (m'.loaded (Scan.ofSource m'.nextIndex source)) :=
      h.loaded source (by rw [Load.table, Scan.load, hloaded, h.table]; rfl)
    rw [← h.distances] at hentered
    exact .ok (.error (List.forall₂_same.2 fun d _ ↦ d.alike_refl)) hentered
  | ok resolved =>
    refine .ok (.ok (List.forall₂_same.2 fun s _ ↦ s.alike_refl)) (h.loaded source ?_)
    rw [Load.table, Scan.load, hloaded, h.table]
    rfl

end Machine.Recorded

/-- **A machine runs in the same way whether or not it keeps a journal.** -/
def recording : Correspondence where
  like := .same
  rel := Machine.Recorded
  similar h := ⟨h.store, h.here, h.depth, h.world, fun ht ↦ by rw [h.distances, show _ = _ from ht]⟩
  update h hs _ _ _ := { h with store := hs, here := rfl, depth := rfl, world := rfl }
  note {m m' e e'} h he := by
    have hloads : (m'.journal.note e').loads = m'.journal.loads := by
      rw [Journal.loads_note h.enabled]
      cases he <;> rfl
    exact { h with
      enabled := Journal.enabled_note h.enabled e'
      chronicle := hloads ▸ h.chronicle
      tokens := hloads ▸ h.tokens
      table := hloads ▸ h.table }
  enter source _ _ h := h.enter source

end AliasScript
