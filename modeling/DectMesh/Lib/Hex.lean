import Mathlib.Data.List.Basic
import Mathlib.Tactic.IntervalCases

/-! Hexadecimal text: bytes as two digits, and how `sscanf` reads digits back. -/
namespace DectMesh.Lib

def hexChar (d : Nat) : UInt8 := UInt8.ofNat (if d < 10 then 0x30 + d else 0x57 + d)

def hexByte (b : UInt8) : List UInt8 := [hexChar (b.toNat / 16), hexChar (b.toNat % 16)]

def hexValue (c : UInt8) : Option Nat :=
  if 0x30 ≤ c ∧ c ≤ 0x39 then some (c.toNat - 0x30)
  else if 0x61 ≤ c ∧ c ≤ 0x66 then some (c.toNat - 0x57)
  else if 0x41 ≤ c ∧ c ≤ 0x46 then some (c.toNat - 0x37)
  else none

def isHex (c : UInt8) : Bool := (hexValue c).isSome

def hexNumber (ds : List UInt8) : Nat := ds.foldl (fun n d => 16 * n + (hexValue d).getD 0) 0

def scanHexDigits (text : List UInt8) : Option (Nat × List UInt8) :=
  if text.takeWhile isHex = [] then none
  else some (hexNumber (text.takeWhile isHex), text.dropWhile isHex)

def scanHexBody : List UInt8 → Option (Nat × List UInt8)
  | zero :: x :: text =>
      if zero = 0x30 ∧ (x = 0x78 ∨ x = 0x58) then scanHexDigits text else scanHexDigits (zero :: x :: text)
  | text => scanHexDigits text

/-- The item of `%x` behind its blanks: a sign and digits, the value as an
`unsigned int`. -/
def scanHexItem : List UInt8 → Option (Nat × List UInt8)
  | [] => none
  | c :: text =>
      if c = 0x2d then
        (scanHexBody text).map fun (n, left) => ((4294967296 - n % 4294967296) % 4294967296, left)
      else (scanHexBody (if c = 0x2b then text else c :: text)).map fun (n, left) => (n % 4294967296, left)

/-! ## Reading back what is printed -/

theorem hexValue_hexChar {d : Nat} (h : d < 16) : hexValue (hexChar d) = some d := by
  interval_cases d <;> decide

theorem isHex_hexChar {d : Nat} (h : d < 16) : isHex (hexChar d) = true := by
  rw [isHex, hexValue_hexChar h]
  rfl

theorem hexChar_ne {d : Nat} (h : d < 16) : hexChar d ≠ 0x2d ∧ hexChar d ≠ 0x2b ∧ hexChar d ≠ 0x78 ∧
    hexChar d ≠ 0x58 := by
  interval_cases d <;> decide

@[simp] theorem length_hexByte (b : UInt8) : (hexByte b).length = 2 := rfl

theorem mem_hexByte {b c : UInt8} (h : c ∈ hexByte b) : ∃ d, d < 16 ∧ c = hexChar d := by
  have hbyte := b.toNat_lt
  simp only [hexByte, List.mem_cons, List.not_mem_nil, or_false] at h
  rcases h with rfl | rfl
  · exact ⟨b.toNat / 16, by omega, rfl⟩
  · exact ⟨b.toNat % 16, Nat.mod_lt _ (by decide), rfl⟩

theorem scanHexItem_hexByte (b : UInt8) {rest : List UInt8} (hrest : ∀ c ∈ rest.head?, isHex c = false) :
    scanHexItem (hexByte b ++ rest) = some (b.toNat, rest) := by
  have hbyte := b.toNat_lt
  have hhigh : b.toNat / 16 < 16 := by omega
  have hlow : b.toNat % 16 < 16 := Nat.mod_lt _ (by decide)
  obtain ⟨hminus, hplus, -⟩ := hexChar_ne hhigh
  obtain ⟨-, -, hx, hX⟩ := hexChar_ne hlow
  have htake : (hexByte b ++ rest).takeWhile isHex = hexByte b := by
    simp only [hexByte, List.cons_append, List.nil_append, List.takeWhile_cons, isHex_hexChar hhigh,
      isHex_hexChar hlow, if_true]
    cases rest with
    | nil => rfl
    | cons c rest => rw [List.takeWhile_cons_of_neg (by simp [hrest c rfl])]
  have hdrop : (hexByte b ++ rest).dropWhile isHex = rest := by
    simp only [hexByte, List.cons_append, List.nil_append, List.dropWhile_cons, isHex_hexChar hhigh,
      isHex_hexChar hlow, if_true]
    cases rest with
    | nil => rfl
    | cons c rest => rw [List.dropWhile_cons_of_neg (by simp [hrest c rfl])]
  have hnumber : hexNumber (hexByte b) = b.toNat := by
    simp only [hexNumber, hexByte, List.foldl_cons, List.foldl_nil, hexValue_hexChar hhigh,
      hexValue_hexChar hlow, Option.getD_some]
    omega
  have hdigits : scanHexDigits (hexByte b ++ rest) = some (b.toNat, rest) := by
    rw [scanHexDigits, htake, hdrop, hnumber, if_neg (by simp [hexByte])]
  have hbody : scanHexBody (hexByte b ++ rest) = some (b.toNat, rest) := by
    rw [← hdigits]
    simp only [hexByte, List.cons_append, List.nil_append, scanHexBody]
    rw [if_neg (by simp [hx, hX])]
  simp only [hexByte, List.cons_append, List.nil_append, scanHexItem] at hbody ⊢
  rw [if_neg hminus, if_neg hplus, hbody, Option.map_some, Nat.mod_eq_of_lt (by omega)]

end DectMesh.Lib
