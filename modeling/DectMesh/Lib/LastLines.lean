import Mathlib.Data.List.Count
import Mathlib.Data.List.DropRight
import Mathlib.Data.List.Infix

/-! The newest lines of a text: its longest suffix with at most so many line ends. -/
namespace DectMesh.Lib

universe u

variable {α : Type u} [DecidableEq α] {sep : α} {n : Nat} {text newest : List α}

structure Newest (sep : α) (n : Nat) (text newest : List α) : Prop where
  suffix : newest <:+ text
  few : newest.count sep ≤ n
  longest : ∀ s, s <:+ text → s.count sep ≤ n → s <:+ newest

theorem Newest.unique {other : List α} (h : Newest sep n text newest) (hother : Newest sep n text other) :
    newest = other := by
  have hle : newest.length ≤ other.length := (hother.longest _ h.suffix h.few).length_le
  exact (h.longest _ hother.suffix hother.few).eq_of_length_le hle |>.symm

theorem Newest.part {part : List α} (h : Newest sep n text newest) (hpart : part <:+ text) :
    Newest sep n part (if newest.length ≤ part.length then newest else part) := by
  split
  · rename_i hle
    exact ⟨List.suffix_of_suffix_length_le h.suffix hpart hle, h.few, fun s hs => h.longest s (hs.trans hpart)⟩
  · rename_i hlong
    have hwithin : part <:+ newest := List.suffix_of_suffix_length_le hpart h.suffix (by omega)
    exact ⟨List.suffix_rfl, (hwithin.sublist.count_le sep).trans h.few, fun s hs _ => hs⟩

def IsLine (sep : α) (line : List α) : Prop := ∃ body, sep ∉ body ∧ line = body ++ [sep]

theorem IsLine.count {line : List α} (h : IsLine sep line) : line.count sep = 1 := by
  obtain ⟨body, hbody, rfl⟩ := h
  rw [List.count_append, List.count_eq_zero.mpr hbody, List.count_singleton_self]

theorem count_lines {lines : List (List α)} (h : ∀ line ∈ lines, IsLine sep line) :
    lines.flatten.count sep = lines.length := by
  induction lines with
  | nil => rfl
  | cons line lines ih =>
    rw [List.forall_mem_cons] at h
    rw [List.flatten_cons, List.count_append, h.1.count, ih h.2, List.length_cons]
    omega

omit [DecidableEq α] in
theorem mem_suffix_lines {lines : List (List α)} (h : ∀ line ∈ lines, IsLine sep line) {s : List α}
    (hs : s <:+ lines.flatten) (hne : s ≠ []) : sep ∈ s := by
  rcases List.eq_nil_or_concat lines with rfl | ⟨before, line, rfl⟩
  · exact absurd (List.suffix_nil.mp hs) hne
  · obtain ⟨body, -, rfl⟩ := h line (by simp)
    rw [List.concat_eq_append, List.flatten_append, List.flatten_singleton, ← List.append_assoc] at hs
    obtain ⟨front, rfl⟩ : [sep] <:+ s := by
      refine List.suffix_of_suffix_length_le (List.suffix_append _ _) hs ?_
      exact List.length_pos_iff.mpr hne
    exact List.mem_append_right _ (List.mem_singleton_self sep)

theorem newest_lines {lines : List (List α)} (h : ∀ line ∈ lines, IsLine sep line) (n : Nat) :
    Newest sep n lines.flatten (lines.rtake n).flatten := by
  have hsplit : lines.flatten = (lines.rdrop n).flatten ++ (lines.rtake n).flatten := by
    rw [← List.flatten_append, List.rdrop, List.rtake, List.take_append_drop]
  have hrecent : ∀ line ∈ lines.rtake n, IsLine sep line := fun line hline => h line (List.mem_of_mem_drop hline)
  have holder : ∀ line ∈ lines.rdrop n, IsLine sep line := fun line hline => h line (List.mem_of_mem_take hline)
  have hlength : (lines.rtake n).length = min n lines.length := by
    rw [List.rtake, List.length_drop]
    omega
  refine ⟨⟨_, hsplit.symm⟩, ?_, fun s hs hcount => ?_⟩
  · rw [count_lines hrecent, hlength]
    exact Nat.min_le_left _ _
  · rw [hsplit] at hs
    rcases Nat.le_total s.length (lines.rtake n).flatten.length with hle | hge
    · exact List.suffix_of_suffix_length_le hs (List.suffix_append _ _) hle
    · obtain ⟨front, rfl⟩ := List.suffix_of_suffix_length_le (List.suffix_append _ _) hs hge
      have hfront : front <:+ (lines.rdrop n).flatten := by
        obtain ⟨before, hbefore⟩ := hs
        rw [← List.append_assoc] at hbefore
        exact ⟨before, List.append_cancel_right hbefore⟩
      rcases eq_or_ne front [] with rfl | hne
      · exact List.suffix_rfl
      · have hmem := mem_suffix_lines holder hfront hne
        have hsome : 0 < (lines.rdrop n).length := by
          rw [List.length_pos_iff]
          rintro hnil
          rw [hnil] at hfront
          exact hne (List.suffix_nil.mp hfront)
        rw [List.rdrop, List.length_take] at hsome
        rw [List.count_append, count_lines hrecent, hlength] at hcount
        have := List.count_pos_iff.mpr hmem
        omega

omit [DecidableEq α] in
theorem length_newest {lines : List (List α)} {width : Nat} (h : ∀ line ∈ lines, line.length ≤ width) (n : Nat) :
    (lines.rtake n).flatten.length ≤ n * width := by
  have hfew : (lines.rtake n).length ≤ n := by
    rw [List.rtake, List.length_drop]
    omega
  have hall : ∀ recent : List (List α), (∀ line ∈ recent, line.length ≤ width) →
      recent.flatten.length ≤ recent.length * width := by
    intro recent hrecent
    induction recent with
    | nil => exact Nat.zero_le _
    | cons line recent ih =>
      rw [List.forall_mem_cons] at hrecent
      have := ih hrecent.2
      rw [List.flatten_cons, List.length_append, List.length_cons, Nat.succ_mul]
      omega
  have hrecent := hall (lines.rtake n) fun line hline => h line (List.mem_of_mem_drop hline)
  exact hrecent.trans (Nat.mul_le_mul_right width hfew)

end DectMesh.Lib
