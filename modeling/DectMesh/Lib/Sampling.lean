import Mathlib.Algebra.GroupWithZero.Nat
import Mathlib.Data.List.Chain

/-! Samples of a running total: what a counter of 32 bits shows of the step from
one to the next, and how rates that are rounded down add up. -/
namespace DectMesh.Lib

universe u

theorem counter_step {m n : Nat} (hle : m ≤ n) (hlt : n < m + 4294967296) :
    (UInt32.ofNat n - UInt32.ofNat m).toNat = n - m := by
  rw [UInt32.toNat_sub, UInt32.toNat_ofNat', UInt32.toNat_ofNat']
  omega

theorem counter_add (m n : Nat) : UInt32.ofNat m + UInt32.ofNat n = UInt32.ofNat (m + n) :=
  (UInt32.ofNat_add m n).symm

theorem isChain_and {α : Type u} {R S : α → α → Prop} {samples : List α} (h : samples.IsChain R)
    (h' : samples.IsChain S) : samples.IsChain fun a b => R a b ∧ S a b := by
  induction h with
  | nil => exact .nil
  | singleton a => exact .singleton a
  | cons_cons hab _ ih =>
    obtain ⟨hab', hrest⟩ := List.isChain_cons_cons.mp h'
    exact (ih hrest).cons_cons ⟨hab, hab'⟩

def steps : List Nat → List Nat
  | a :: b :: rest => (b - a) :: steps (b :: rest)
  | _ => []

theorem length_steps (a : Nat) (rest : List Nat) : (steps (a :: rest)).length = rest.length := by
  induction rest generalizing a with
  | nil => rfl
  | cons b rest ih => rw [steps, List.length_cons, List.length_cons, ih]

theorem sum_steps {a : Nat} {rest : List Nat} (h : (a :: rest).IsChain (· ≤ ·)) :
    a + (steps (a :: rest)).sum = (a :: rest).getLast (List.cons_ne_nil a rest) := by
  induction rest generalizing a with
  | nil => rfl
  | cons b rest ih =>
    obtain ⟨hab, hrest⟩ := List.isChain_cons_cons.mp h
    rw [steps, List.sum_cons, List.getLast_cons (List.cons_ne_nil b rest), ← ih hrest]
    omega

theorem rounded_sum {den : Nat} (hden : 0 < den) (num : Nat) (xs : List Nat) :
    den * (xs.map fun x => x * num / den).sum ≤ num * xs.sum ∧
      num * xs.sum ≤ den * (xs.map fun x => x * num / den).sum + (den - 1) * xs.length := by
  induction xs with
  | nil => exact ⟨Nat.zero_le _, Nat.zero_le _⟩
  | cons x xs ih =>
    have hsplit := Nat.div_add_mod (x * num) den
    have hmod := Nat.mod_lt (x * num) hden
    have hcomm := Nat.mul_comm num x
    simp only [List.map_cons, List.sum_cons, List.length_cons, Nat.mul_add, Nat.mul_one]
    omega

end DectMesh.Lib
