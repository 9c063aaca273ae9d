import AliasScript.Proofs.Machine.Correspondence
import AliasScript.Proofs.Machine.Sound
import AliasScript.Proofs.Token.Numbering

/-!
# Machines whose tokens are numbered differently

Two machines hold the same, but one of them has given away more indices of tokens: the tokens up to
some bound have the same indices in both, and all that were scanned later have indices that are
greater by the same number in one of them. Nothing that a program does can tell the two apart
(`renumbering`). An index matters only as a key of the table of distances, where what is found for a
use of a name is the same in both machines, since the keys are renumbered with the tokens.

Memory that is in order is like itself under such a renumbering, if the bound is the index of the
next token (`Memory.Sound.store_alike`): every use of a name in a function, a method or an alias has
an index below it.
-/

namespace AliasScript

/-! ### Outlines -/

/-- The token without its index. -/
def Token.outline (t : Token) : Token :=
  { t with index := 0 }

namespace Diagnostic

/-- The error without the index of the token. -/
def outline : Diagnostic → Diagnostic
  | lexical e => .lexical e
  | grammar e => .grammar { e with token := e.token.outline }
  | scope e => .scope { e with token := e.token.outline }

theorem line_outline (d : Diagnostic) : d.outline.line = d.line := by
  cases d <;> rfl

/-- A diagnostic is rendered without the indices of its tokens. -/
theorem render_outline (d : Diagnostic) : d.outline.render = d.render := by
  cases d <;> rfl

/-- So is a list of them. -/
theorem renderAll_outline (errors : List Diagnostic) :
    renderAll (errors.map outline) = renderAll errors := by
  simp only [renderAll, List.map_map, Function.comp_def, render_outline]

/-- Errors are ordered by their lines only. -/
theorem map_outline_sortByLine (errors : List Diagnostic) :
    (sortByLine errors).map outline = sortByLine (errors.map outline) :=
  List.map_mergeSort fun a _ b _ ↦ by rw [line_outline, line_outline]

end Diagnostic

/-- The cause without indices of tokens. -/
def FaultCause.outline : FaultCause → FaultCause
  | .moduleRejected name errors => .moduleRejected name (errors.map Diagnostic.outline)
  | cause => cause

/-- The message of a fault shows no index. -/
theorem FaultCause.message_outline (cause : FaultCause) :
    cause.outline.message = cause.message := by
  cases cause with
  | moduleRejected name errors =>
    unfold outline message
    dsimp only
    rw [Diagnostic.renderAll_outline]
  | _ => rfl

namespace Fault

/-- The fault without indices of tokens. -/
def outline (f : Fault) : Fault :=
  ⟨f.token.outline, f.cause.outline⟩

theorem render_outline (f : Fault) : f.outline.render = f.render := by
  unfold render
  rw [outline, f.cause.message_outline]
  rfl

end Fault

/-! ### Tokens that are renumbered -/

/-- The number that takes the place of a number: numbers from the bound on are greater by so much.
-/
def renumber (bound k i : Nat) : Nat :=
  if i < bound then i else i + k

/-- Below the bound nothing is renumbered. -/
theorem renumber_of_lt {bound i : Nat} (k : Nat) (h : i < bound) : renumber bound k i = i :=
  if_pos h

/-- From the bound on all is moved by the same number. -/
theorem renumber_of_le {bound i : Nat} (k : Nat) (h : bound ≤ i) : renumber bound k i = i + k :=
  if_neg (Nat.not_lt.2 h)

/-- Renumbering keeps indices apart. -/
theorem renumber_inj {bound k i j : Nat} : renumber bound k i = renumber bound k j ↔ i = j := by
  refine ⟨fun h ↦ ?_, congrArg _⟩
  unfold renumber at h
  split at h <;> split at h <;> omega

/-- Tokens that differ in their indices only, which for uses of names are renumbered. -/
def Likeness.renumbered (bound k : Nat) : Likeness where
  use t t' := t.outline = t'.outline ∧ t.index = renumber bound k t'.index
  mark t t' := t.outline = t'.outline
  mark_of_use h := h.1
  content_eq {t t'} h :=
    show t.outline.content = t'.outline.content from congrArg Token.content h

variable {bound k : Nat}

/-- Diagnostics are alike exactly if they show the same. -/
theorem Diagnostic.alike_iff {d d' : Diagnostic} :
    d.Alike (.renumbered bound k) d' ↔ d.outline = d'.outline := by
  constructor
  · intro h
    cases h with
    | lexical => rfl
    | grammar h =>
      simp only [outline, Diagnostic.grammar.injEq, GrammarError.mk.injEq]
      exact ⟨h.token, h.cause⟩
    | scope h =>
      simp only [outline, Diagnostic.scope.injEq, ScopeError.mk.injEq]
      exact ⟨h.token, h.cause⟩
  · intro h
    cases d <;> cases d' <;> simp only [outline, reduceCtorEq, Diagnostic.lexical.injEq,
      Diagnostic.grammar.injEq, GrammarError.mk.injEq, Diagnostic.scope.injEq,
      ScopeError.mk.injEq] at h
    · exact h ▸ .lexical
    · exact .grammar ⟨h.1, h.2⟩
    · exact .scope ⟨h.1, h.2⟩

theorem Diagnostic.forall₂_alike_iff {errors errors' : List Diagnostic} :
    List.Forall₂ (Diagnostic.Alike (.renumbered bound k)) errors errors' ↔
      errors.map outline = errors'.map outline := by
  rw [← List.forall₂_eq_eq_eq, List.forall₂_map_left_iff, List.forall₂_map_right_iff]
  exact ⟨fun h ↦ h.imp fun _ _ ↦ alike_iff.1, fun h ↦ h.imp fun _ _ ↦ alike_iff.2⟩

/-- Faults that are alike show the same. -/
theorem Fault.outline_eq {f f' : Fault} (h : f.Alike (.renumbered bound k) f') :
    f.outline = f'.outline := by
  have hcause : f.cause.outline = f'.cause.outline := by
    have hcause := h.cause
    generalize f.cause = cause at hcause
    generalize f'.cause = cause' at hcause
    cases hcause with
    | same => rfl
    | moduleRejected herrors =>
      exact congrArg (FaultCause.moduleRejected _) (Diagnostic.forall₂_alike_iff.1 herrors)
  unfold outline
  rw [hcause, show f.token.outline = f'.token.outline from h.token]

/-! ### Lines of the journal -/

namespace Event

/-- What is noted of a scan is the number of its tokens. -/
theorem text_scanned {s s' : Scan} (h : s.all.length = s'.all.length) :
    (scanned s).text = (scanned s').text := by
  unfold text
  dsimp only
  rw [h]

/-- What is noted of a walk is the number of its distances. -/
theorem text_resolved {addresses addresses' : List Address}
    (h : addresses.length = addresses'.length) :
    (resolved addresses).text = (resolved addresses').text := by
  unfold text
  dsimp only
  rw [h]

/-- What is noted of a fault is what it shows. -/
theorem text_aborted {f f' : Fault} (h : f.outline = f'.outline) :
    (aborted f).text = (aborted f').text := by
  unfold text
  dsimp only
  rw [← f.render_outline, h, f'.render_outline]

end Event

/-! ### Sources that are scanned later -/

namespace Scan

variable {index : Nat} (hbound : bound ≤ index) (source : String)

include hbound

/-- **Every token of a source that is scanned later is renumbered.** -/
theorem tokens_alike :
    List.Forall₂ (Likeness.renumbered bound k).use (ofSource (index + k) source).tokens
        (ofSource index source).tokens ∧
      (Likeness.renumbered bound k).use (ofSource (index + k) source).eof
        (ofSource index source).eof := by
  have halike (t : Token) (ht : index ≤ t.index) :
      (Likeness.renumbered bound k).use (t.shift k) t :=
    ⟨rfl, (renumber_of_le k (Nat.le_trans hbound ht)).symm⟩
  rw [ofSource_add]
  constructor
  · rw [shift, List.forall₂_map_left_iff, List.forall₂_same]
    exact fun t ht ↦ halike t (le_index ht)
  · exact halike _ (ofPieces_counts (.start index) _).2.1

/-- A source that is scanned later gives a program that is alike, or the same errors. -/
theorem program?_alike :
    Except.Both (List.Forall₂ (Diagnostic.Alike (.renumbered bound k)))
      (List.Forall₂ (Stmt.Alike (.renumbered bound k))) (ofSource (index + k) source).program?
      (ofSource index source).program? := by
  obtain ⟨htokens, heof⟩ := tokens_alike (k := k) hbound source
  have hparsed := Program.parse_alike htokens heof
  have herrors : (ofSource (index + k) source).errors = (ofSource index source).errors := by
    rw [ofSource_add]
    rfl
  unfold program? Scan.program
  rw [herrors]
  generalize Program.parse (ofSource (index + k) source).tokens _ = parsed at hparsed
  generalize Program.parse (ofSource index source).tokens _ = parsed' at hparsed
  cases hparsed with
  | ok hprogram =>
    dsimp only
    split
    · exact .ok hprogram
    · exact .error (Diagnostic.forall₂_alike_iff.2 rfl)
  | error hgrammar =>
    refine .error (Diagnostic.forall₂_alike_iff.2 ?_)
    rw [Diagnostic.map_outline_sortByLine, Diagnostic.map_outline_sortByLine, List.map_append,
      List.map_append]
    congr 2
    exact Diagnostic.forall₂_alike_iff.1 (List.rel_map (fun _ _ h ↦ .grammar h) hgrammar)

/-- **A source that is entered later** gives what is alike, and is noted in the same words. -/
theorem load_alike :
    Except.Both (List.Forall₂ (Diagnostic.Alike (.renumbered bound k)))
        (Resolved.Alike (.renumbered bound k))
        ((ofSource (index + k) source).program? >>= Program.resolve)
        ((ofSource index source).program? >>= Program.resolve) ∧
      List.Forall₂ (fun e e' ↦ e.text = e'.text) (ofSource (index + k) source).events
        (ofSource index source).events := by
  have hscanned : (Event.scanned (ofSource (index + k) source)).text =
      (Event.scanned (ofSource index source)).text := by
    refine Event.text_scanned ?_
    rw [all, all, List.length_append, List.length_append,
      (tokens_alike (k := k) hbound source).1.length_eq]
    rfl
  have hprogram := program?_alike (k := k) hbound source
  unfold events
  generalize (ofSource (index + k) source).program? = parsed at hprogram
  generalize (ofSource index source).program? = parsed' at hprogram
  cases hprogram with
  | error herrors => exact ⟨.error herrors, .cons hscanned .nil⟩
  | @ok program program' hprogram =>
    have hresolved := Program.resolve_alike hprogram
    have hparsed : (Event.parsed program.length).text = (Event.parsed program'.length).text := by
      rw [hprogram.length_eq]
    show Except.Both _ _ program.resolve program'.resolve ∧ _
    dsimp only
    generalize program.resolve = resolved at hresolved
    generalize program'.resolve = resolved' at hresolved
    cases hresolved with
    | error herrors => exact ⟨.error herrors, .cons hscanned (.cons hparsed .nil)⟩
    | ok hresolved =>
      have haddresses := Event.text_resolved hresolved.addresses.length_eq
      exact ⟨.ok hresolved, .cons hscanned (.cons hparsed (.cons haddresses .nil))⟩

end Scan

/-! ### Machines -/

/-- The journals are kept or not, and read the same. -/
structure Journal.Alike (j j' : Journal) : Prop where
  enabled : j.enabled = j'.enabled
  texts : j.events.toList.map Event.text = j'.events.toList.map Event.text

namespace Journal.Alike

variable {j j' : Journal} (h : j.Alike j')

include h

/-- Journals stay alike if notes of the same text are added. -/
theorem note {e e' : Event} (he : e.text = e'.text) : (j.note e).Alike (j'.note e') := by
  unfold Journal.note
  rw [h.enabled]
  split
  · refine ⟨rfl, ?_⟩
    simp only [Array.toList_push, List.map_append, h.texts, List.map_cons, he, List.map_nil]
  · exact h

theorem noteAll {es es' : List Event} (hes : List.Forall₂ (fun e e' ↦ e.text = e'.text) es es') :
    (es.foldl Journal.note j).Alike (es'.foldl Journal.note j') := by
  induction hes generalizing j j' with
  | nil => exact h
  | cons he _ ih => exact ih (h.note he)

end Journal.Alike

/-- **The machines differ in how tokens are numbered**, from a bound on. -/
structure Machine.Renumbered (bound k : Nat) (m m' : Machine) : Prop where
  store : m.store.Alike (.renumbered bound k) m'.store
  here : m.here = m'.here
  depth : m.depth = m'.depth
  world : m.world = m'.world
  nextIndex : m.nextIndex = m'.nextIndex + k
  bound_le : bound ≤ m'.nextIndex
  distances : ∀ i, m.distances.find? (renumber bound k i) = m'.distances.find? i
  journal : m.journal.Alike m'.journal

/-- Distances that are added for uses of names that are renumbered. -/
theorem Distances.find?_extend_renumber {d d' : Distances} {addresses addresses' : List Address}
    (haddresses : List.Forall₂ (Address.Alike (.renumbered bound k)) addresses addresses')
    (h : ∀ i, d.find? (renumber bound k i) = d'.find? i) (i : Nat) :
    (d.extend addresses).find? (renumber bound k i) = (d'.extend addresses').find? i := by
  induction haddresses generalizing d d' with
  | nil => exact h i
  | cons ha _ ih =>
    refine ih fun i ↦ ?_
    rw [find?_insert, find?_insert, ha.token.2, ha.distance, h i]
    simp only [renumber_inj]

/-- **A source that is entered keeps machines renumbered**: the tokens behind the bound are moved as
well. -/
theorem Machine.Renumbered.enter {m m' : Machine} (h : m.Renumbered bound k m') (source : String) :
    Matches (Machine.Renumbered bound k) (Halt.Alike (.renumbered bound k))
      (Except.Both (List.Forall₂ (Diagnostic.Alike (.renumbered bound k)))
        (List.Forall₂ (Stmt.Alike (.renumbered bound k))))
      (Evaluator.enterSource source m) (Evaluator.enterSource source m') := by
  obtain ⟨hloaded, hevents⟩ := Scan.load_alike (k := k) h.bound_le source
  have hmachine : (m.loaded (Scan.ofSource (m'.nextIndex + k) source)).Renumbered bound k
      (m'.loaded (Scan.ofSource m'.nextIndex source)) := by
    refine { h with nextIndex := ?_, bound_le := ?_, journal := h.journal.noteAll hevents }
    · simp only [Machine.loaded, Scan.ofSource_add]
      exact Nat.add_right_comm _ k 1
    · exact Nat.le_trans h.bound_le (Scan.le_nextIndex _ _)
  rw [Evaluator.enterSource_eq, Evaluator.enterSource_eq, h.nextIndex]
  generalize (Scan.ofSource (m'.nextIndex + k) source).program? >>= Program.resolve = loaded
    at hloaded
  generalize (Scan.ofSource m'.nextIndex source).program? >>= Program.resolve = loaded' at hloaded
  cases hloaded with
  | error herrors => exact .ok (.error herrors) hmachine
  | ok hresolved =>
    refine .ok (.ok hresolved.program) { hmachine with distances := ?_ }
    exact Distances.find?_extend_renumber hresolved.addresses h.distances

/-- **Nothing that a program does depends on how tokens are numbered.** -/
def renumbering (bound k : Nat) : Correspondence where
  like := .renumbered bound k
  rel := Machine.Renumbered bound k
  similar h := ⟨h.store, h.here, h.depth, h.world, fun ht ↦ ht.2 ▸ h.distances _⟩
  update h hs _ _ _ := { h with store := hs, here := rfl, depth := rfl, world := rfl }
  note h he := by
    refine { h with journal := h.journal.note ?_ }
    cases he with
    | aborted hf => exact Event.text_aborted (Fault.outline_eq hf)
    | _ => rfl
  enter source _ _ h := h.enter source

/-! ### Memory that is like itself -/

namespace Memory

variable {o : Labels} {μ : Memory} {L : Likeness}

/-- **Memory that is in order is like itself** if every token is that was scanned already. -/
theorem Sound.store_alike (h : μ.Sound o) (hmark : ∀ t, L.mark t t)
    (huse : ∀ t, t.index < μ.nextIndex → L.use t t) : μ.store.Alike L μ.store := by
  have hnode {i : Item} {node : Node} (hi : μ.store.Has i) (hnode : i.node? = some node) :
      node.Alike L node := by
    obtain ⟨c, program, hknows, hv⟩ := (h.items i hi).visits hnode
    exact hv.alike_self hmark fun w hw t ht ↦ huse t (hknows.distances w hw t ht).1
  refine ⟨rfl, rfl, .self fun c hc ↦ ?_, .self fun k hk ↦ ⟨rfl, rfl, fun x ↦ ?_, rfl, rfl⟩, rfl,
    .self fun r hr ↦ ?_, rfl⟩
  · cases hnode (i := .closure c) hc rfl with | function hf => exact ⟨hf, rfl, rfl⟩
  · refine option_rel_self fun c hc ↦ ?_
    cases hnode (i := .method c) ⟨k, hk, x, hc⟩ rfl with | function hf => exact ⟨hf, rfl, rfl⟩
  · cases hnode (i := .reference r) hr rfl with | expr he => exact ⟨hmark _, he, rfl⟩

/-- The tokens that are not scanned yet may be renumbered. -/
theorem Sound.find?_renumber (h : μ.Sound o) (k i : Nat) :
    μ.distances.find? (renumber μ.nextIndex k i) = μ.distances.find? i := by
  rcases Nat.lt_or_ge i μ.nextIndex with hlt | hge
  · rw [renumber_of_lt k hlt]
  · rw [renumber_of_le k hge, h.fresh i hge, h.fresh (i + k) (by omega)]

end Memory

end AliasScript
