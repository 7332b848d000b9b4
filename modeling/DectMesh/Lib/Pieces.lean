import Mathlib.Data.List.Infix

/-! Pieces of one text, each stored where it stands in the text: whatever is
stored more than once or out of order, the text is there where a piece came to. -/
namespace DectMesh.Lib

variable {α : Type}

def storePiece (held : Nat → Option α) (piece : Nat × List α) : Nat → Option α :=
  fun i => if piece.1 ≤ i ∧ i < piece.1 + piece.2.length then piece.2[i - piece.1]? else held i

def storePieces (held : Nat → Option α) (pieces : List (Nat × List α)) : Nat → Option α := pieces.foldl storePiece held

def PieceOf (text : List α) (piece : Nat × List α) : Prop := piece.2 <+: text.drop piece.1

def Covered (pieces : List (Nat × List α)) (i : Nat) : Prop :=
  ∃ piece ∈ pieces, piece.1 ≤ i ∧ i < piece.1 + piece.2.length

theorem Covered.mono {pieces more : List (Nat × List α)} {i : Nat} (h : Covered pieces i)
    (hsub : ∀ piece ∈ pieces, piece ∈ more) : Covered more i := by
  obtain ⟨piece, hpiece, hcovers⟩ := h
  exact ⟨piece, hsub piece hpiece, hcovers⟩

theorem PieceOf.getElem? {text : List α} {piece : Nat × List α} (h : PieceOf text piece) {i : Nat}
    (hfrom : piece.1 ≤ i) (hto : i < piece.1 + piece.2.length) : piece.2[i - piece.1]? = text[i]? := by
  obtain ⟨rest, hrest⟩ := h
  have hinside : (piece.2 ++ rest)[i - piece.1]? = piece.2[i - piece.1]? :=
    List.getElem?_append_left (by omega)
  rw [← hinside, hrest, List.getElem?_drop, Nat.add_sub_cancel' hfrom]

theorem PieceOf.part {text : List α} {piece part : Nat × List α} (h : PieceOf text piece)
    (hpart : PieceOf piece.2 (part.1 - piece.1, part.2)) (hfrom : piece.1 ≤ part.1) : PieceOf text part := by
  have hdrop : piece.2.drop (part.1 - piece.1) <+: (text.drop piece.1).drop (part.1 - piece.1) :=
    List.IsPrefix.drop h _
  rw [List.drop_drop, Nat.add_sub_cancel' hfrom] at hdrop
  exact hpart.trans hdrop

theorem storePieces_covered {text : List α} {held : Nat → Option α} {pieces : List (Nat × List α)} {i : Nat}
    (hpieces : ∀ piece ∈ pieces, PieceOf text piece) (h : held i = text[i]? ∨ Covered pieces i) :
    storePieces held pieces i = text[i]? := by
  induction pieces generalizing held with
  | nil =>
    rcases h with hheld | ⟨piece, hnone, -⟩
    · exact hheld
    · cases hnone
  | cons piece rest ih =>
    rw [List.forall_mem_cons] at hpieces
    refine ih hpieces.2 ?_
    by_cases hcovers : piece.1 ≤ i ∧ i < piece.1 + piece.2.length
    · left
      rw [storePiece, if_pos hcovers]
      exact hpieces.1.getElem? hcovers.1 hcovers.2
    · rcases h with hheld | ⟨other, hother, hother'⟩
      · left
        rw [storePiece, if_neg hcovers]
        exact hheld
      · rcases List.mem_cons.mp hother with rfl | hrest
        · exact absurd hother' hcovers
        · exact .inr ⟨other, hrest, hother'⟩

end DectMesh.Lib
