import Mathlib.Data.List.Basic
import Mathlib.Data.Int.Basic
import Mathlib.Tactic.Ring

/-! Little-endian integers of a fixed width on byte lists, and the conversions
between 32-bit signed and unsigned integers. -/
namespace DectMesh.Lib

def leBytes : Nat → Nat → List UInt8
  | 0, _ => []
  | width + 1, value => UInt8.ofNat value :: leBytes width (value / 256)

def leNat : List UInt8 → Nat
  | [] => 0
  | byte :: rest => byte.toNat + 256 * leNat rest

@[simp] theorem length_leBytes (width value : Nat) : (leBytes width value).length = width := by
  induction width generalizing value with
  | zero => rfl
  | succ width ih => rw [leBytes, List.length_cons, ih]

theorem leNat_leBytes (width value : Nat) : leNat (leBytes width value) = value % 256 ^ width := by
  induction width generalizing value with
  | zero => simp [leBytes, leNat, Nat.mod_one]
  | succ width ih =>
    rw [leBytes, leNat, ih, UInt8.toNat_ofNat', pow_succ 256 width,
      Nat.mul_comm (256 ^ width) 256, Nat.mod_mul]

theorem leNat_lt (bytes : List UInt8) : leNat bytes < 256 ^ bytes.length := by
  induction bytes with
  | nil => simp [leNat]
  | cons byte rest ih =>
    have hbyte := byte.toNat_lt
    rw [leNat, List.length_cons, pow_succ 256 rest.length]
    omega

/-- Reduction to the signed 32-bit range. -/
def cWrap (i : Int) : Int := Int.bmod i 4294967296

/-- The signed reading of a 32-bit unsigned value. -/
def cInt (n : Nat) : Int := cWrap n

def cUInt (i : Int) : Nat := (i % 4294967296).toNat

theorem cWrap_int (i : Int) : -2147483648 ≤ cWrap i ∧ cWrap i < 2147483648 := by
  unfold cWrap
  rw [Int.bmod_def]
  split <;> omega

theorem cWrap_of_lt {i : Int} (h : 0 ≤ i) (hi : i < 2147483648) : cWrap i = i := by
  unfold cWrap
  rw [Int.bmod_def]
  split <;> omega

theorem cInt_of_lt {n : Nat} (h : n < 2147483648) : cInt n = n :=
  cWrap_of_lt (Int.natCast_nonneg n) (by omega)

theorem cInt_neg_of_le {n : Nat} (h : 2147483648 ≤ n) (hn : n < 4294967296) : cInt n < 0 := by
  unfold cInt cWrap
  rw [Int.bmod_def]
  split <;> omega

theorem cUInt_of_lt {i : Int} (h : 0 ≤ i) (hi : i < 4294967296) : cUInt i = i.toNat := by
  rw [cUInt, Int.emod_eq_of_lt h hi]

end DectMesh.Lib
