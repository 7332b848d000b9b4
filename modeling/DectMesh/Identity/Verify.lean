import DectMesh.Identity.Proof
import Mathlib.Data.List.TakeDrop

/-! `aether_verify` on what a client reads from a node: the proof is valid for
challenges that the node signs whole. -/
namespace DectMesh.Identity

open DectMesh.Lib DectMesh.Aether DectMesh.Relay

/-! ## The verifier -/

def hexBytes : (want : Nat) → List UInt8 → Option { bytes : List UInt8 // bytes.length = want }
  | 0, _ => some ⟨[], rfl⟩
  | want + 1, h =>
      (scanHexItem ((h.dropWhile isSpace).take 2)).bind fun (b, _) =>
        (hexBytes want (h.drop 2)).map fun bytes => ⟨UInt8.ofNat b :: bytes.1, congrArg Nat.succ bytes.2⟩

def hex2bin (h : List UInt8) (want : Nat) : Option { bytes : List UInt8 // bytes.length = want } :=
  if h.length ≠ want * 2 then none else hexBytes want h

def lower (c : UInt8) : UInt8 := if 0x41 ≤ c ∧ c ≤ 0x5a then c + 0x20 else c

def sameText (a b : List UInt8) : Bool := a.map lower = b.map lower

/-- `unusable` is the exit with 2, before anything is verified. -/
inductive Verdict where
  | unusable
  | valid
  | failed
  deriving DecidableEq

/-- `main` of `aether_verify`. Its SHA-256 is the node's. -/
def aetherVerify (e : Ecdsa) (addr chal pubHex sigHex : List UInt8) : Verdict :=
  match hex2bin pubHex 64, hex2bin sigHex 64 with
  | some pub, some sig =>
      match e.verify pub.1 (cString chal) ⟨sig.1, sig.2⟩ with
      | none => .unusable
      | some sigOk => if sameText (fmtAddr (e.address pub.1)) addr && sigOk then .valid else .failed
  | _, _ => .unusable

/-! ## What the client passes on -/

def myIdentity (nodeEui : Option Addr) (myaddr : Addr) : Addr := nodeEui.getD myaddr

def addrFile (identity : Addr) : List UInt8 := fmtAddr identity ++ [0x0a]

def firstLine (text : List UInt8) : List UInt8 := text.takeWhile (· ≠ 0x0a)

def pubField (text : List UInt8) : List UInt8 := text.takeWhile (· ≠ 0x20)

def sigField (text : List UInt8) : List UInt8 := firstLine ((text.dropWhile (· ≠ 0x20)).drop 1)

/-! ## Printed bytes come back -/

theorem hexBytes_hexString (bytes : List UInt8) : hexBytes bytes.length (hexString bytes) = some ⟨bytes, rfl⟩ := by
  induction bytes with
  | nil => rfl
  | cons b bytes ih =>
    have hitem : scanHexItem (hexByte b ++ []) = some (b.toNat, []) := scanHexItem_hexByte b (by simp)
    have htake : ((hexByte b ++ hexString bytes).dropWhile isSpace).take 2 = hexByte b ++ [] := by
      rw [dropWhile_hexByte, List.take_left' (length_hexByte b), List.append_nil]
    have hdrop : (hexByte b ++ hexString bytes).drop 2 = hexString bytes := List.drop_left' (length_hexByte b)
    simp only [hexString_cons, List.length_cons, hexBytes, htake, hitem, hdrop, Option.bind_some, ih, Option.map_some,
      UInt8.ofNat_toNat]

theorem hex2bin_hexString {bytes : List UInt8} {want : Nat} (h : bytes.length = want) :
    hex2bin (hexString bytes) want = some ⟨bytes, h⟩ := by
  subst h
  rw [hex2bin, if_neg, hexBytes_hexString]
  rw [length_hexString]
  omega

theorem hexString_plain (bytes : List UInt8) : ∀ c ∈ hexString bytes, c ≠ 0x20 ∧ c ≠ 0x0a := by
  intro c hc
  obtain ⟨b, -, hc⟩ := List.mem_flatMap.mp hc
  obtain ⟨d, hd, rfl⟩ := mem_hexByte hc
  interval_cases d <;> decide

theorem fields_proofText (pub : List UInt8) (sig : Signature) :
    pubField (proofText pub sig) = hexString pub ∧ sigField (proofText pub sig) = hexString sig.bytes := by
  have hpub : ∀ c ∈ hexString pub, decide (c ≠ 0x20) = true := fun c hc => by simpa using (hexString_plain pub c hc).1
  have hsig : ∀ c ∈ hexString sig.bytes, decide (c ≠ 0x0a) = true :=
    fun c hc => by simpa using (hexString_plain sig.bytes c hc).2
  constructor
  · rw [pubField, proofText, List.takeWhile_append_of_pos hpub, List.takeWhile_cons_of_neg (by simp), List.append_nil]
  · rw [sigField, proofText, List.dropWhile_append_of_pos hpub, List.dropWhile_cons_of_neg (by simp), List.drop_one,
      List.tail_cons, firstLine, List.takeWhile_append_of_pos hsig, List.takeWhile_cons_of_neg (by simp), List.append_nil]

theorem lower_colonHex (bytes : List UInt8) : (colonHex bytes).map lower = colonHex bytes := by
  refine (List.map_congr_left fun c hc => ?_).trans (List.map_id _)
  rcases mem_colonHex hc with rfl | ⟨d, hd, rfl⟩
  · rfl
  · interval_cases d <;> rfl

/-- The address that a node prints matches exactly its own. -/
theorem sameText_fmtAddr (a b : Addr) : sameText (fmtAddr a) (fmtAddr b) = true ↔ b = a := by
  rw [sameText, decide_eq_true_eq, fmtAddr, fmtAddr, lower_colonHex, lower_colonHex]
  constructor
  · intro h
    have hparse := congrArg parseAddr h
    rw [← fmtAddr, ← fmtAddr, parseAddr_fmtAddr, parseAddr_fmtAddr] at hparse
    exact (Option.some.inj hparse).symm
  · rintro rfl
    rfl

theorem firstLine_addrFile (identity : Addr) : firstLine (addrFile identity) = fmtAddr identity := by
  have hplain : ∀ c ∈ fmtAddr identity, decide (c ≠ 0x0a) = true := by
    intro c hc
    rcases mem_colonHex hc with rfl | ⟨d, hd, rfl⟩
    · rfl
    · interval_cases d <;> rfl
  rw [firstLine, addrFile, List.takeWhile_append_of_pos hplain, List.takeWhile_cons_of_neg (by simp), List.append_nil]

/-- For every key pair and every challenge whose write is accepted: the file,
read in pages of any sizes and split at the blank, gives a valid proof exactly
if the challenge has at most 32 bytes and the address that the node shows is
that of its key. -/
theorem proof_valid_iff {e : Ecdsa} {owner : Owner e.toCrypto} {draws : List (Option Seed)} {chal : List UInt8}
    {count : Nat} {proveOut text : List UInt8} (nodeEui : Option Addr) (myaddr : Addr)
    (hnul : ∀ c ∈ chal, c ≠ 0) (hexact : e.AcceptsOnly owner (chal.take 32))
    (hwrite : anetWriteProve e owner draws chal = (.ok count, proveOut)) (hread : ReadsTo proveOut 0 text) :
    aetherVerify e (firstLine (addrFile (myIdentity nodeEui myaddr))) chal (pubField text) (sigField text) = .valid ↔
      chal.length ≤ 32 ∧ myIdentity nodeEui myaddr = e.address owner.pub := by
  obtain ⟨-, ek, sig, hsign, rfl⟩ := anetWriteProve_ok hwrite
  obtain ⟨hpub, hsig⟩ := fields_proofText owner.pub sig
  rw [hread.text, List.drop_zero, hpub, hsig, firstLine_addrFile]
  have hshort : e.verify owner.pub chal sig = some true ↔ chal.length ≤ 32 := by
    rw [hexact ek sig hsign, and_iff_right rfl, eq_comm, List.take_eq_self_iff]
  rw [← hshort, ← sameText_fmtAddr]
  simp only [aetherVerify, hex2bin_hexString owner.long, hex2bin_hexString sig.long, cString_of_no_nul hnul]
  cases hverify : e.verify owner.pub chal sig with
  | none => simp
  | some sigOk => simp [and_comm]

/-! ## One signature -/

def oneSignature : Signature := ⟨List.replicate 64 0x5a, List.length_replicate⟩

def oneProof (message : List UInt8) : Ecdsa where
  toCrypto := oneCrypto
  sign _ _ msg := if msg = message then some oneSignature else none
  verify pub msg sig := some (decide (pub = oneOwner.pub ∧ msg = message ∧ sig = oneSignature))

theorem oneProof_acceptsOnly (message : List UInt8) : (oneProof message).AcceptsOnly oneOwner message := by
  intro ek sig hsign pub other
  have hsig : sig = oneSignature := by
    simp only [oneProof, if_true] at hsign
    exact (Option.some.inj hsign).symm
  simp [oneProof, hsig]

theorem proofText_ne_nil (pub : List UInt8) (sig : Signature) : proofText pub sig ≠ [] := by
  rw [proofText]
  exact List.append_ne_nil_of_right_ne_nil _ (List.cons_ne_nil _ _)

theorem readsTo_self {proveOut : List UInt8} (h : proveOut ≠ []) : ReadsTo proveOut 0 proveOut := by
  have hwhole : anetReadProve proveOut 0 proveOut.length = proveOut := by
    rw [anetReadProve_eq, List.drop_zero, List.take_length]
  have hend : anetReadProve proveOut (0 + (anetReadProve proveOut 0 proveOut.length).length) 1 = [] := by
    rw [hwhole, anetReadProve_eq, Nat.zero_add, List.drop_length, List.take_nil]
  have hpages := ReadsTo.page proveOut.length (by rw [hwhole]; exact h) (.done 1 Nat.one_pos hend)
  rwa [hwhole, List.append_nil] at hpages

def letters (n : Nat) : List UInt8 := List.replicate n 0x61

theorem letters_no_nul (n : Nat) : ∀ c ∈ letters n, c ≠ 0 := by
  intro c hc
  rw [List.eq_of_mem_replicate hc]
  decide

def oneVerdict (message chal text : List UInt8) : Verdict :=
  aetherVerify (oneProof message)
    (firstLine (addrFile (myIdentity (some ((oneProof message).address oneOwner.pub)) .zero)))
    chal (pubField text) (sigField text)

/-- A challenge of 32 bytes. -/
theorem proof_valid_nonce : ∃ proveOut text,
    anetWriteProve (oneProof (letters 32)) oneOwner [some .zero] (letters 32) = (.ok 32, proveOut) ∧
      ReadsTo proveOut 0 text ∧ oneVerdict (letters 32) (letters 32) text = .valid := by
  obtain ⟨proveOut, hwrite⟩ : ∃ proveOut,
    anetWriteProve (oneProof (letters 32)) oneOwner [some .zero] (letters 32) = (.ok 32, proveOut) := ⟨_, rfl⟩
  obtain ⟨-, ek, sig, -, rfl⟩ := anetWriteProve_ok hwrite
  have hread := readsTo_self (proofText_ne_nil oneOwner.pub sig)
  have hexact : (oneProof (letters 32)).AcceptsOnly oneOwner ((letters 32).take 32) :=
    oneProof_acceptsOnly (letters 32)
  refine ⟨_, _, hwrite, hread, ?_⟩
  exact (proof_valid_iff _ _ (letters_no_nul 32) hexact hwrite hread).mpr ⟨Nat.le_refl 32, rfl⟩

/-- A challenge of 33 bytes is accepted and its proof fails. -/
theorem proof_fails_long : ∃ proveOut text,
    anetWriteProve (oneProof (letters 32)) oneOwner [some .zero] (letters 33) = (.ok 33, proveOut) ∧
      ReadsTo proveOut 0 text ∧ oneVerdict (letters 32) (letters 33) text = .failed := by
  refine ⟨_, _, rfl, readsTo_self (proofText_ne_nil oneOwner.pub oneSignature), ?_⟩
  obtain ⟨hpub, hsig⟩ := fields_proofText oneOwner.pub oneSignature
  have hlong : letters 33 ≠ letters 32 := fun h => absurd (congrArg List.length h) (by decide)
  simp [oneVerdict, aetherVerify, hpub, hsig, hex2bin_hexString oneOwner.long,
    hex2bin_hexString oneSignature.long, cString_of_no_nul (letters_no_nul 33), oneProof, hlong]

end DectMesh.Identity
