import Mathlib.Data.List.Basic
import Mathlib.Data.Nat.Bitwise

/-! `b64enc` of the two chips and `b64dec` of the forwarder: what was encoded is
decoded, through an accumulator that is never cleared. -/
namespace DectMesh.Telemetry

def alphabet : List UInt8 :=
  (List.range 26).map (fun i => UInt8.ofNat (0x41 + i)) ++ (List.range 26).map (fun i => UInt8.ofNat (0x61 + i)) ++
    (List.range 10).map (fun i => UInt8.ofNat (0x30 + i)) ++ [0x2b, 0x2f]

def pad : UInt8 := 0x3d

/-- `t[v & 63]` -/
def letter (v : Nat) : UInt8 := alphabet.getD (v &&& 63) 0

def group (a b c : UInt8) : Nat := a.toNat <<< 16 ||| b.toNat <<< 8 ||| c.toNat

def b64enc : List UInt8 → List UInt8
  | [] => []
  | [a] =>
      let v := group a 0 0
      [letter (v >>> 18), letter (v >>> 12), pad, pad]
  | [a, b] =>
      let v := group a b 0
      [letter (v >>> 18), letter (v >>> 12), letter (v >>> 6), pad]
  | a :: b :: c :: rest =>
      let v := group a b c
      letter (v >>> 18) :: letter (v >>> 12) :: letter (v >>> 6) :: letter v :: b64enc rest

/-- `(val >> bits) & 0xff`, the shift of a signed value. -/
def lowByte (val : BitVec 32) (bits : Nat) : UInt8 := UInt8.ofBitVec ((val.sshiftRight bits).setWidth 8)

/-- `val` wraps; `tbl` is the place in the alphabet. -/
def b64decLoop (outcap : Nat) : List UInt8 → BitVec 32 → Nat → List UInt8 → List UInt8
  | [], _, _, out => out
  | c :: input, val, bits, out =>
      if c = pad then out
      else
        match alphabet.idxOf? c with
        | none => b64decLoop outcap input val bits out
        | some d =>
            let val := val <<< 6 ||| BitVec.ofNat 32 d
            if 8 ≤ bits + 6 then
              b64decLoop outcap input val (bits + 6 - 8)
                (if out.length < outcap then out ++ [lowByte val (bits + 6 - 8)] else out)
            else b64decLoop outcap input val (bits + 6) out

def b64dec (input : List UInt8) (outcap : Nat) : List UInt8 := b64decLoop outcap input 0 0 []

/-! ## Letters -/

theorem letter_lt (d : Nat) (h : d < 64) :
    letter d ≠ pad ∧ letter d ≠ 0x3a ∧ letter d ≠ 0 ∧ alphabet.idxOf? (letter d) = some d := by
  revert d
  decide +kernel

theorem letter_mod (v : Nat) : letter (v % 64) = letter v := by
  rw [letter, letter, show (63 : Nat) = 2 ^ 6 - 1 from rfl, Nat.and_two_pow_sub_one_eq_mod,
    Nat.and_two_pow_sub_one_eq_mod, Nat.mod_mod]

theorem letter_clean (v : Nat) : letter v ≠ 0x3a ∧ letter v ≠ 0 := by
  have h := letter_lt (v % 64) (Nat.mod_lt _ (by decide))
  rw [letter_mod] at h
  exact ⟨h.2.1, h.2.2.1⟩

theorem b64enc_clean (bytes : List UInt8) : ∀ c ∈ b64enc bytes, c ≠ 0x3a ∧ c ≠ 0 := by
  fun_induction b64enc bytes with
  | case1 => simp
  | case2 a v => simp [letter_clean, pad]
  | case3 a b v => simp [letter_clean, pad]
  | case4 a b c rest v ih => simpa [letter_clean] using ih

theorem length_b64enc (bytes : List UInt8) : (b64enc bytes).length = 4 * ((bytes.length + 2) / 3) := by
  fun_induction b64enc bytes with
  | case1 => rfl
  | case2 a v => simp
  | case3 a b v => simp
  | case4 a b c rest v ih =>
    simp only [List.length_cons, ih]
    omega

/-! ## The accumulator -/

theorem group_eq (a b c : UInt8) : group a b c = a.toNat * 65536 + b.toNat * 256 + c.toNat := by
  have hb := b.toNat_lt
  have hc := c.toNat_lt
  unfold group
  rw [Nat.or_assoc, ← Nat.shiftLeft_add_eq_or_of_lt (show c.toNat < 2 ^ 8 from hc),
    ← Nat.shiftLeft_add_eq_or_of_lt (show b.toNat <<< 8 + c.toNat < 2 ^ 16 by
      rw [Nat.shiftLeft_eq]
      omega)]
  simp only [Nat.shiftLeft_eq]
  omega

theorem lowByte_toNat (val : BitVec 32) {bits : Nat} (h : bits ≤ 24) :
    (lowByte val bits).toNat = val.toNat / 2 ^ bits % 256 := by
  have heq : (val.sshiftRight bits).setWidth 8 = (val >>> bits).setWidth 8 := by
    ext i hi
    simp only [BitVec.getElem_setWidth, BitVec.getLsbD_sshiftRight, BitVec.getLsbD_ushiftRight]
    rw [if_pos (by omega)]
    simp
    omega
  rw [lowByte, heq, UInt8.toNat_ofBitVec, BitVec.toNat_setWidth, BitVec.toNat_ushiftRight, Nat.shiftRight_eq_div_pow]

theorem shifted_toNat (val : BitVec 32) {d : Nat} (h : d < 64) :
    (val <<< 6 ||| BitVec.ofNat 32 d).toNat = (val.toNat * 64 + d) % 4294967296 := by
  have hval : val.toNat <<< 6 % 2 ^ 32 = (val.toNat % 2 ^ 26) <<< 6 := by
    simp only [Nat.shiftLeft_eq]
    omega
  rw [BitVec.toNat_or, BitVec.toNat_shiftLeft, BitVec.toNat_ofNat, hval, Nat.mod_eq_of_lt (show d < 2 ^ 32 by omega),
    ← Nat.shiftLeft_add_eq_or_of_lt (show d < 2 ^ 6 from h), Nat.shiftLeft_eq]
  omega

/-! ## The round trip -/

section

variable (outcap : Nat) (rest : List UInt8) (val : BitVec 32) (bits : Nat) (out : List UInt8)

theorem b64decLoop_pad : b64decLoop outcap (pad :: rest) val bits out = out := by
  rw [b64decLoop, if_pos rfl]

theorem b64decLoop_letter (v : Nat) :
    b64decLoop outcap (letter v :: rest) val bits out =
      if 8 ≤ bits + 6 then
        b64decLoop outcap rest (val <<< 6 ||| BitVec.ofNat 32 (v % 64)) (bits + 6 - 8)
          (if out.length < outcap then
            out ++ [lowByte (val <<< 6 ||| BitVec.ofNat 32 (v % 64)) (bits + 6 - 8)] else out)
      else b64decLoop outcap rest (val <<< 6 ||| BitVec.ofNat 32 (v % 64)) (bits + 6) out := by
  have hletter := letter_lt (v % 64) (Nat.mod_lt _ (by decide))
  rw [letter_mod] at hletter
  rw [b64decLoop, if_neg hletter.1, hletter.2.2.2]

theorem b64decLoop_first (v : Nat) :
    b64decLoop outcap (letter v :: rest) val 0 out =
      b64decLoop outcap rest (val <<< 6 ||| BitVec.ofNat 32 (v % 64)) 6 out := by
  rw [b64decLoop_letter, if_neg (by decide)]

theorem b64decLoop_next (v : Nat) (hbits : 2 ≤ bits) (hroom : out.length < outcap) :
    b64decLoop outcap (letter v :: rest) val bits out =
      b64decLoop outcap rest (val <<< 6 ||| BitVec.ofNat 32 (v % 64)) (bits - 2)
        (out ++ [lowByte (val <<< 6 ||| BitVec.ofNat 32 (v % 64)) (bits - 2)]) := by
  rw [b64decLoop_letter, if_pos (by omega), if_pos hroom, show bits + 6 - 8 = bits - 2 by omega]

end

/-- What the accumulator holds after the value's first letters, whatever it held. -/
theorem lowByte_group (val : BitVec 32) (a b c : UInt8) :
    let v := group a b c
    let first := val <<< 6 ||| BitVec.ofNat 32 ((v >>> 18) % 64)
    let second := first <<< 6 ||| BitVec.ofNat 32 ((v >>> 12) % 64)
    let third := second <<< 6 ||| BitVec.ofNat 32 ((v >>> 6) % 64)
    let fourth := third <<< 6 ||| BitVec.ofNat 32 (v % 64)
    lowByte second 4 = a ∧ lowByte third 2 = b ∧ lowByte fourth 0 = c := by
  intro v first second third fourth
  have ha := a.toNat_lt
  have hb := b.toNat_lt
  have hc := c.toNat_lt
  have hv : v = a.toNat * 65536 + b.toNat * 256 + c.toNat := group_eq a b c
  have hfirst : first.toNat = (val.toNat * 64 + v / 2 ^ 18 % 64) % 4294967296 := by
    rw [← Nat.shiftRight_eq_div_pow]
    exact shifted_toNat val (Nat.mod_lt _ (by decide))
  have hsecond : second.toNat = (first.toNat * 64 + v / 2 ^ 12 % 64) % 4294967296 := by
    rw [← Nat.shiftRight_eq_div_pow]
    exact shifted_toNat first (Nat.mod_lt _ (by decide))
  have hthird : third.toNat = (second.toNat * 64 + v / 2 ^ 6 % 64) % 4294967296 := by
    rw [← Nat.shiftRight_eq_div_pow]
    exact shifted_toNat second (Nat.mod_lt _ (by decide))
  have hfourth : fourth.toNat = (third.toNat * 64 + v % 64) % 4294967296 :=
    shifted_toNat third (Nat.mod_lt _ (by decide))
  refine ⟨?_, ?_, ?_⟩
  · apply UInt8.toNat_inj.mp
    rw [lowByte_toNat second (by decide), hsecond, hfirst]
    omega
  · apply UInt8.toNat_inj.mp
    rw [lowByte_toNat third (by decide), hthird, hsecond]
    omega
  · apply UInt8.toNat_inj.mp
    rw [lowByte_toNat fourth (by decide), hfourth, hthird]
    omega

theorem b64decLoop_b64enc (outcap : Nat) (bytes : List UInt8) (val : BitVec 32) (out : List UInt8)
    (hroom : out.length + bytes.length ≤ outcap) :
    b64decLoop outcap (b64enc bytes) val 0 out = out ++ bytes := by
  fun_induction b64enc bytes generalizing val out with
  | case1 => simp [b64decLoop]
  | case2 a v =>
    obtain ⟨ha, -, -⟩ := lowByte_group val a 0 0
    simp only [List.length_cons, List.length_nil] at hroom
    rw [b64decLoop_first, b64decLoop_next _ _ _ _ _ _ (by decide) (by omega), b64decLoop_pad]
    exact congrArg (fun byte => out ++ [byte]) ha
  | case3 a b v =>
    obtain ⟨ha, hb, -⟩ := lowByte_group val a b 0
    simp only [List.length_cons, List.length_nil] at hroom
    rw [b64decLoop_first, b64decLoop_next _ _ _ _ _ _ (by decide) (by omega),
      b64decLoop_next _ _ _ _ _ _ (by decide) (by simp; omega), b64decLoop_pad]
    calc
      _ = out ++ [a] ++ [b] := congrArg₂ (fun first second => out ++ [first] ++ [second]) ha hb
      _ = out ++ [a, b] := by simp
  | case4 a b c rest v ih =>
    obtain ⟨ha, hb, hc⟩ := lowByte_group val a b c
    simp only [List.length_cons] at hroom
    rw [b64decLoop_first, b64decLoop_next _ _ _ _ _ _ (by decide) (by omega),
      b64decLoop_next _ _ _ _ _ _ (by decide) (by simp; omega),
      b64decLoop_next _ _ _ _ _ _ (by decide) (by simp; omega), ih _ _ (by simp; omega)]
    calc
      _ = out ++ [a] ++ [b] ++ [c] ++ rest :=
        congrArg₂ (fun bytes last => bytes ++ [last] ++ rest)
          (congrArg₂ (fun first second => out ++ [first] ++ [second]) ha hb) hc
      _ = out ++ a :: b :: c :: rest := by simp

theorem b64dec_b64enc {bytes : List UInt8} {outcap : Nat} (h : bytes.length ≤ outcap) :
    b64dec (b64enc bytes) outcap = bytes :=
  b64decLoop_b64enc outcap bytes 0 [] (by simpa using h)

end DectMesh.Telemetry
