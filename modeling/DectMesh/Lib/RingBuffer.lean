import Mathlib.Data.List.Basic
import Mathlib.Data.Nat.ModEq
import Mathlib.Logic.Function.Basic

/-! A ring of slots that holds a window of a sequence: the items from number
`first` on, each in the slot of its number modulo the size. -/
namespace DectMesh.Lib

universe u

variable {α : Type u}

theorem mod_ne_of_lt {i j n : Nat} (hij : i < j) (hjn : j < i + n) : i % n ≠ j % n := by
  intro h
  have hdvd : n ∣ j - i := Nat.dvd_of_mod_eq_zero (Nat.sub_mod_eq_zero_of_mod_eq h.symm)
  have := Nat.le_of_dvd (by omega) hdvd
  omega

def Window (size : Nat) (ring : Nat → α) (first : Nat) (items : List α) : Prop :=
  ∀ i (h : i < items.length), ring ((first + i) % size) = items[i]

namespace Window

variable {size first : Nat} {ring : Nat → α} {items : List α}

theorem nil : Window size ring first [] := fun _ h => nomatch h

theorem head {item : α} (h : Window size ring first (item :: items)) : ring (first % size) = item :=
  h 0 (Nat.succ_pos _)

theorem pop {item : α} (h : Window size ring first (item :: items)) :
    Window size ring (first + 1) items := by
  intro i hi
  have hnext := h (i + 1) (Nat.succ_lt_succ hi)
  rw [Nat.add_assoc, Nat.add_comm 1 i]
  exact hnext

theorem push (h : Window size ring first items) (hroom : items.length < size) (item : α) :
    Window size (Function.update ring ((first + items.length) % size) item) first (items ++ [item]) := by
  intro i hi
  rw [List.length_append, List.length_singleton] at hi
  by_cases hlast : i = items.length
  · subst hlast
    simp
  · have hold : i < items.length := by omega
    have hne : (first + i) % size ≠ (first + items.length) % size := mod_ne_of_lt (by omega) (by omega)
    rw [Function.update_of_ne hne, List.getElem_append_left hold]
    exact h i hold

end Window

end DectMesh.Lib
