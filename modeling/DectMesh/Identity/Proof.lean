import DectMesh.Aether.CtlGrammar
import DectMesh.Identity.Cga

/-! The ownership proof: `net/aether/prove` signs the challenge that is written
to it and serves the public key and the signature as text. -/
namespace DectMesh.Identity

open DectMesh.Lib DectMesh.Aether

structure Signature where
  bytes : List UInt8
  long : bytes.length = 64
  deriving DecidableEq

/-- The signer's and the verifier's primitives. `sign` takes the seed, the
random scalar `ek` and the message, `none` if the scalar is out of range;
`verify` takes the public key, the message and the signature, `none` if there is
no such key. -/
structure Ecdsa extends Crypto where
  sign : Seed → Seed → List UInt8 → Option Signature
  verify : List UInt8 → List UInt8 → Signature → Option Bool

structure Owner (c : Crypto) where
  seed : Seed
  pub : List UInt8
  long : pub.length = 64
  derived : c.publicKey seed = some pub

/-- The verifier accepts what the owner signs of the message for that message
under the owner's key, and for nothing else. -/
def Ecdsa.AcceptsOnly (e : Ecdsa) (owner : Owner e.toCrypto) (message : List UInt8) : Prop :=
  ∀ ek sig, e.sign owner.seed ek message = some sig →
    ∀ pub other, e.verify pub other sig = some true ↔ pub = owner.pub ∧ other = message

/-- `cga_sign`: up to eight draws of `ek`. A draw that is `none` is a failure of
the generator. -/
def cgaSign (e : Ecdsa) (seed : Seed) (msg : List UInt8) : Nat → List (Option Seed) → Option Signature
  | 0, _ => none
  | tries + 1, some ek :: later =>
      match e.sign seed ek msg with
      | some sig => some sig
      | none => cgaSign e seed msg tries later
  | _ + 1, _ => none

def hexString (bytes : List UInt8) : List UInt8 := bytes.flatMap hexByte

/-- `"pubkey_hex signature_hex\n"` -/
def proofText (pub : List UInt8) (sig : Signature) : List UInt8 :=
  hexString pub ++ 0x20 :: (hexString sig.bytes ++ [0x0a])

/-- `anet_write` on the prove file: the result and the bytes in `prove_out`. The
first 32 bytes are signed; -5 is `-EIO`. -/
def anetWriteProve (e : Ecdsa) (owner : Owner e.toCrypto) (draws : List (Option Seed)) (buf : List UInt8) :
    Except Int Nat × List UInt8 :=
  match cgaSign e owner.seed (buf.take 32) 8 draws with
  | none => (.error (-5), [])
  | some sig => (.ok buf.length, proofText owner.pub sig)

def anetReadProve (proveOut : List UInt8) (offset count : Nat) : List UInt8 :=
  if proveOut.length ≤ offset then []
  else (proveOut.drop offset).take (min count (proveOut.length - offset))

inductive ReadsTo (proveOut : List UInt8) : Nat → List UInt8 → Prop where
  | done {offset : Nat} (count : Nat) (positive : 0 < count) (empty : anetReadProve proveOut offset count = []) :
      ReadsTo proveOut offset []
  | page {offset : Nat} {text : List UInt8} (count : Nat) (nonempty : anetReadProve proveOut offset count ≠ [])
      (rest : ReadsTo proveOut (offset + (anetReadProve proveOut offset count).length) text) :
      ReadsTo proveOut offset (anetReadProve proveOut offset count ++ text)

/-! ## The keys of a boot -/

/-! ## What the file holds -/

theorem cgaSign_some {e : Ecdsa} {seed : Seed} {msg : List UInt8} {tries : Nat} {draws : List (Option Seed)}
    {sig : Signature} (h : cgaSign e seed msg tries draws = some sig) : ∃ ek, e.sign seed ek msg = some sig := by
  induction tries generalizing draws with
  | zero => cases h
  | succ tries ih =>
    unfold cgaSign at h
    split at h
    · rename_i hzero
      cases hzero
    · rename_i ek later htries
      cases htries
      split at h
      · rename_i hsign
        cases h
        exact ⟨ek, hsign⟩
      · exact ih h
    · cases h

theorem anetWriteProve_ok {e : Ecdsa} {owner : Owner e.toCrypto} {draws : List (Option Seed)} {buf : List UInt8}
    {count : Nat} {proveOut : List UInt8} (h : anetWriteProve e owner draws buf = (.ok count, proveOut)) :
    count = buf.length ∧ ∃ ek sig, e.sign owner.seed ek (buf.take 32) = some sig ∧ proveOut = proofText owner.pub sig := by
  unfold anetWriteProve at h
  split at h
  · cases h
  · rename_i sig hsig
    cases h
    obtain ⟨ek, hsign⟩ := cgaSign_some hsig
    exact ⟨rfl, ek, sig, hsign, rfl⟩

theorem hexString_cons (b : UInt8) (bytes : List UInt8) : hexString (b :: bytes) = hexByte b ++ hexString bytes :=
  List.flatMap_cons

@[simp] theorem length_hexString (bytes : List UInt8) : (hexString bytes).length = 2 * bytes.length := by
  induction bytes with
  | nil => rfl
  | cons b bytes ih =>
    rw [hexString_cons, List.length_append, ih, length_hexByte, List.length_cons]
    omega

theorem anetReadProve_eq (proveOut : List UInt8) (offset count : Nat) :
    anetReadProve proveOut offset count = (proveOut.drop offset).take count := by
  unfold anetReadProve
  split
  · rename_i hend
    rw [List.drop_of_length_le hend, List.take_nil]
  · rw [← List.length_drop, List.take_eq_take_iff, min_assoc, min_self]

theorem ReadsTo.text {proveOut text : List UInt8} {offset : Nat} (h : ReadsTo proveOut offset text) :
    text = proveOut.drop offset := by
  induction h with
  | done count positive empty =>
    rw [anetReadProve_eq, List.take_eq_nil_iff] at empty
    exact (empty.resolve_left (Nat.ne_of_gt positive)).symm
  | @page offset text count nonempty rest ih =>
    rw [ih, anetReadProve_eq, ← List.drop_drop, List.length_take]
    generalize proveOut.drop offset = left
    rcases Nat.le_total count left.length with hle | hle
    · rw [Nat.min_eq_left hle, List.take_append_drop]
    · rw [Nat.min_eq_right hle, List.take_of_length_le hle, List.drop_length, List.append_nil]

/-! ## One key -/

def oneCrypto : Crypto where
  publicKey _ := some (List.replicate 64 0x04)
  sha256 _ := List.replicate 32 0xa5
  hashed _ := List.length_replicate

def oneOwner : Owner oneCrypto := ⟨.zero, List.replicate 64 0x04, List.length_replicate, rfl⟩

end DectMesh.Identity
