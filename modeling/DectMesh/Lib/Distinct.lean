import Mathlib.Data.List.Induction

/-! The first different values of a list, up to a bound: what a table of so many
places holds when it takes in one value after the other, keeps what it has and
has no way to forget. -/
namespace DectMesh.Lib

universe u

variable {α : Type u} [DecidableEq α]

def firstDistinct (cap : Nat) (values : List α) : List α := values.eraseDups.take cap

def enter (cap : Nat) (value : α) (table : List α) : List α :=
  if value ∈ table then table else if table.length < cap then table ++ [value] else table

@[simp] theorem firstDistinct_nil (cap : Nat) : firstDistinct cap ([] : List α) = [] := List.take_nil

theorem eraseDups_concat (values : List α) (value : α) :
    (values ++ [value]).eraseDups = if value ∈ values then values.eraseDups else values.eraseDups ++ [value] := by
  rw [List.eraseDups_append, List.cons_removeAll]
  by_cases hmem : value ∈ values
  · simp [hmem]
  · simp [hmem, List.eraseDups_cons]

theorem firstDistinct_concat (cap : Nat) (values : List α) (value : α) :
    firstDistinct cap (values ++ [value]) = enter cap value (firstDistinct cap values) := by
  unfold firstDistinct enter
  rw [eraseDups_concat]
  by_cases hroom : values.eraseDups.length < cap
  · have htake : values.eraseDups.take cap = values.eraseDups := List.take_of_length_le (Nat.le_of_lt hroom)
    rw [htake, if_pos hroom]
    by_cases hmem : value ∈ values
    · rw [if_pos hmem, if_pos (List.mem_eraseDups.mpr hmem), htake]
    · rw [if_neg hmem, if_neg (mt List.mem_eraseDups.mp hmem), List.take_of_length_le]
      rw [List.length_append]
      exact hroom
  · have hfull : (values.eraseDups.take cap).length = cap := List.length_take_of_le (Nat.le_of_not_lt hroom)
    have hkeep : (if value ∈ values then values.eraseDups else values.eraseDups ++ [value]).take cap =
        values.eraseDups.take cap := by
      split
      · rfl
      · exact List.take_append_of_le_length (Nat.le_of_not_lt hroom)
    rw [hkeep, if_neg (Nat.not_lt_of_le (Nat.le_of_eq hfull.symm)), ite_self]

theorem enter_nodup {cap : Nat} {value : α} {table : List α} (h : table.Nodup) : (enter cap value table).Nodup := by
  unfold enter
  split
  · exact h
  · rename_i hnew
    split
    · refine List.nodup_append.mpr ⟨h, by simp, ?_⟩
      rintro old hold new hmem rfl
      exact hnew (List.mem_singleton.mp hmem ▸ hold)
    · exact h

theorem firstDistinct_nodup (cap : Nat) (values : List α) : (firstDistinct cap values).Nodup := by
  induction values using List.reverseRecOn with
  | nil => simp
  | append_singleton values value ih =>
    rw [firstDistinct_concat]
    exact enter_nodup ih

theorem mem_of_firstDistinct {cap : Nat} {values : List α} {value : α} (h : value ∈ firstDistinct cap values) :
    value ∈ values := List.mem_eraseDups.mp (List.mem_of_mem_take h)

theorem mem_firstDistinct {cap : Nat} {values : List α} (hroom : (firstDistinct cap values).length < cap) {value : α} :
    value ∈ firstDistinct cap values ↔ value ∈ values := by
  refine ⟨mem_of_firstDistinct, fun h => ?_⟩
  have hall : values.eraseDups.length ≤ cap := by
    rw [firstDistinct, List.length_take] at hroom
    omega
  rw [firstDistinct, List.take_of_length_le hall]
  exact List.mem_eraseDups.mpr h

end DectMesh.Lib
