import AliasScript.Token.Scan
import Mathlib.Data.List.Basic

/-!
# How tokens are numbered

The tokens of a source, its end included, take the next indices one after the other
(`Scan.map_index_all`), and nothing else about them depends on where the count starts: a source that
is scanned later gives the same tokens with greater indices, and the same errors
(`Scan.ofSource_add`).
-/

namespace AliasScript

/-- The token with an index that is greater by so much. -/
def Token.shift (k : Nat) (t : Token) : Token :=
  { t with index := t.index + k }

/-- The position before tokens whose indices are greater by so much. -/
def Position.shift (k : Nat) (p : Position) : Position :=
  { p with index := p.index + k }

/-- The scan with indices that are greater by so much. -/
def Scan.shift (k : Nat) (s : Scan) : Scan :=
  ⟨s.tokens.map (Token.shift k), s.eof.shift k, s.errors⟩

namespace Position

variable (k : Nat) (p : Position) (piece : Piece)

theorem reads_shift : (p.shift k).reads piece = p.reads piece := by
  cases piece <;> rfl

theorem tokenLine_shift : (p.shift k).tokenLine piece = p.tokenLine piece := by
  cases piece <;> rfl

theorem token?_shift : (p.shift k).token? piece = (p.token? piece).map (Token.shift k) := by
  unfold token?
  rw [reads_shift, tokenLine_shift, Option.map_map]
  rfl

theorem after_shift : (p.shift k).after piece = (p.after piece).shift k := by
  unfold after
  rw [reads_shift]
  cases p.reads piece with
  | none => rfl
  | some read =>
    simp only [shift, Nat.add_right_comm]
    rfl

end Position

namespace Scan

/-- The walk over the pieces finds the same, wherever the count stands. -/
theorem ofPieces_shift (k : Nat) (p : Position) (pieces : List Piece) :
    ofPieces (p.shift k) pieces = (ofPieces p pieces).shift k := by
  induction pieces generalizing p with
  | nil => rfl
  | cons piece rest ih =>
    have hcomplaints : (p.shift k).complaints piece = p.complaints piece := rfl
    simp only [ofPieces, Position.after_shift, ih, Position.token?_shift, hcomplaints]
    cases p.token? piece <;> rfl

/-- **A source that is scanned later gives the same tokens with greater indices.** -/
theorem ofSource_add (index k : Nat) (source : String) :
    ofSource (index + k) source = (ofSource index source).shift k :=
  ofPieces_shift k (.start index) _

/-- From any position on, the indices are those that follow. -/
theorem map_index_all_ofPieces (p : Position) (pieces : List Piece) :
    (ofPieces p pieces).all.map Token.index =
      List.range' p.index (ofPieces p pieces).all.length := by
  induction pieces generalizing p with
  | nil => rfl
  | cons piece rest ih =>
    have hrest := ih (p.after piece)
    simp only [all] at hrest
    simp only [all, ofPieces]
    cases hreads : p.reads piece with
    | none =>
      have hindex : (p.after piece).index = p.index := by simp [Position.after, hreads]
      rw [hindex] at hrest
      simpa [Position.token?, hreads] using hrest
    | some read =>
      have hindex : (p.after piece).index = p.index + 1 := by simp [Position.after, hreads]
      rw [hindex] at hrest
      simp only [Position.token?, hreads, Option.map_some, Option.toList_some, List.cons_append,
        List.nil_append, List.map_cons, List.length_cons, List.range'_succ, hrest]

variable (index : Nat) (source : String)

/-- **The tokens of a source and its end are numbered one after the other.** -/
theorem map_index_all :
    (ofSource index source).all.map Token.index =
      List.range' index (ofSource index source).all.length :=
  map_index_all_ofPieces (.start index) _

theorem nextIndex_eq :
    (ofSource index source).nextIndex = index + (ofSource index source).all.length := by
  have hlast := congrArg List.getLast? (map_index_all index source)
  simp only [all, List.map_append, List.map_cons, List.map_nil, List.getLast?_concat,
    List.length_append, List.length_singleton, List.range'_concat] at hlast
  simp only [nextIndex, all, List.length_append, List.length_singleton]
  have := Option.some.inj hlast
  omega

end Scan

end AliasScript
