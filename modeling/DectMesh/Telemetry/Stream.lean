import DectMesh.Aether.Conversation
import DectMesh.Lib.Wire
import DectMesh.Telemetry.Base64
import Mathlib.Data.Nat.Digits.Defs

/-! The text that a device's telemetry file gives: the chunks it takes from the
packetizer, in base64 lines behind the line that names the device. -/
namespace DectMesh.Telemetry

open DectMesh.Lib DectMesh.Aether

/-- A chunk of the packetizer, asked for with a buffer of 192 bytes. -/
structure Chunk where
  bytes : List UInt8
  nonempty : bytes ≠ []
  short : bytes.length ≤ 192
  deriving DecidableEq

/-- No colon, and no end of the string. -/
def Clean (text : List UInt8) : Prop := ∀ c ∈ text, c ≠ 0x3a ∧ c ≠ 0

instance (text : List UInt8) : Decidable (Clean text) := List.decidableBAll (fun c => c ≠ 0x3a ∧ c ≠ 0) text

structure Serial where
  text : List UInt8
  nonempty : text ≠ []
  short : text.length ≤ 39
  clean : Clean text
  deriving DecidableEq

def devKey : List UInt8 := [0x44, 0x45, 0x56, 0x3a]

def mcKey : List UInt8 := [0x4d, 0x43, 0x3a]

/-- `"DEV:%s:\n"` -/
def devLine (serial : List UInt8) : List UInt8 := devKey ++ serial ++ [0x3a, 0x0a]

def mcLine (chunk : Chunk) : List UInt8 := mcKey ++ b64enc chunk.bytes ++ [0x3a, 0x0a]

structure MfltRead where
  total : Nat
  text : List UInt8
  pending : List Chunk
  deriving DecidableEq

/-- A chunk is taken when the longest line fits. -/
def mfltLoop (bufSize : Nat) : List Chunk → Nat → List UInt8 → MfltRead
  | [], total, text => ⟨total, text, []⟩
  | chunk :: pending, total, text =>
      if cInt bufSize < total + 270 then ⟨total, text, chunk :: pending⟩
      else mfltLoop bufSize pending (total + (mcLine chunk).length) (text ++ mcLine chunk)

/-- `snprintf` cuts the line and returns its length. -/
def mfltRead (serial : Option (List UInt8)) (bufSize offset : Nat) (pending : List Chunk) : MfltRead :=
  if offset ≠ 0 ∨ pending = [] then ⟨0, [], pending⟩
  else
    let line := serial.elim [] devLine
    mfltLoop bufSize pending line.length (line.take (bufSize - 1))

def hexDigit (d : Nat) : UInt8 := UInt8.ofNat (if d < 10 then 0x30 + d else 0x57 + d)

def hexText (bytes : List UInt8) : List UInt8 :=
  bytes.flatMap fun b => [hexDigit (b.toNat / 16), hexDigit (b.toNat % 16)]

/-- `"dect-%02x%02x%02x%02x%02x%02x"` -/
def dectSerial (nodeEui : Addr) : List UInt8 := [0x64, 0x65, 0x63, 0x74, 0x2d] ++ hexText nodeEui.bytes

/-- The mesh node's file. Without a mesh context nothing names the device. -/
def genMflt (meshCtx : Option Addr) (bufSize offset : Nat) (pending : List Chunk) : MfltRead :=
  mfltRead (meshCtx.map dectSerial) bufSize offset pending

def mflt5340Read (relaySerial : List UInt8) (bufSize offset : Nat) (pending : List Chunk) : MfltRead :=
  mfltRead (some relaySerial) bufSize offset pending

def decimalText (i : Int) : List UInt8 :=
  (if i < 0 then [0x2d] else []) ++
    if i = 0 then [0x30] else (Nat.digits 10 i.natAbs).reverse.map fun d => UInt8.ofNat (0x30 + d)

/-- `"MESHDBG active=%d eligible=%d cap=%d\n"` -/
def meshdbgLine (active eligible cap : Int) : List UInt8 :=
  [0x4d, 0x45, 0x53, 0x48, 0x44, 0x42, 0x47, 0x20, 0x61, 0x63, 0x74, 0x69, 0x76, 0x65, 0x3d] ++ decimalText active ++
    [0x20, 0x65, 0x6c, 0x69, 0x67, 0x69, 0x62, 0x6c, 0x65, 0x3d] ++ decimalText eligible ++
    [0x20, 0x63, 0x61, 0x70, 0x3d] ++ decimalText cap ++ [0x0a]

/-- `"DBG %02x%02x%02x%02x%02x%02x: n=%d sr=%d gr=%d\n"` -/
def dbgLine (nodeEui : Addr) (n sr gr : Int) : List UInt8 :=
  [0x44, 0x42, 0x47, 0x20] ++ hexText nodeEui.bytes ++ [0x3a, 0x20, 0x6e, 0x3d] ++ decimalText n ++
    [0x20, 0x73, 0x72, 0x3d] ++ decimalText sr ++ [0x20, 0x67, 0x72, 0x3d] ++ decimalText gr ++ [0x0a]

/-! ## Clean texts -/

@[simp] theorem clean_nil : Clean [] := by simp [Clean]

@[simp] theorem clean_cons {c : UInt8} {text : List UInt8} :
    Clean (c :: text) ↔ (c ≠ 0x3a ∧ c ≠ 0) ∧ Clean text := by
  simp [Clean]

@[simp] theorem clean_append {first second : List UInt8} : Clean (first ++ second) ↔ Clean first ∧ Clean second := by
  simp [Clean, or_imp, forall_and, and_and_and_comm]

theorem Clean.not_mem {text : List UInt8} (h : Clean text) : 0x3a ∉ text :=
  fun hmem => (h _ hmem).1 rfl

@[simp] theorem b64enc_isClean (bytes : List UInt8) : Clean (b64enc bytes) := b64enc_clean bytes

theorem hexDigit_clean (d : Nat) (h : d < 16) : hexDigit d ≠ 0x3a ∧ hexDigit d ≠ 0 := by
  revert d
  decide

@[simp] theorem hexText_clean (bytes : List UInt8) : Clean (hexText bytes) := by
  induction bytes with
  | nil => exact clean_nil
  | cons b rest ih =>
    have hb := b.toNat_lt
    have hhigh := hexDigit_clean (b.toNat / 16) (by omega)
    have hlow := hexDigit_clean (b.toNat % 16) (by omega)
    rw [hexText, List.flatMap_cons, clean_append]
    refine ⟨?_, ih⟩
    simp [hhigh, hlow]

theorem digit_clean (d : Nat) (h : d < 10) : UInt8.ofNat (0x30 + d) ≠ 0x3a ∧ UInt8.ofNat (0x30 + d) ≠ 0 := by
  revert d
  decide

@[simp] theorem decimalText_clean (i : Int) : Clean (decimalText i) := by
  have hsign : Clean (if i < 0 then [0x2d] else []) := by split <;> decide
  rw [decimalText, clean_append]
  refine ⟨hsign, ?_⟩
  split
  · decide
  · intro c hc
    obtain ⟨d, hd, rfl⟩ := List.mem_map.mp hc
    exact digit_clean d (Nat.digits_lt_base (by decide) (List.mem_reverse.mp hd))

@[simp] theorem meshdbgLine_clean (active eligible cap : Int) : Clean (meshdbgLine active eligible cap) := by
  simp [meshdbgLine]

def meshSerial (nodeEui : Addr) : Serial where
  text := dectSerial nodeEui
  nonempty := by simp [dectSerial]
  short := by simp [dectSerial, hexText, nodeEui.six]
  clean := by simp [dectSerial]

/-! ## What a read takes -/

theorem length_hexText (bytes : List UInt8) : (hexText bytes).length = 2 * bytes.length := by
  induction bytes with
  | nil => rfl
  | cons b rest ih =>
    rw [hexText, List.flatMap_cons, List.length_append, ← hexText, ih, List.length_cons, List.length_cons,
      List.length_cons, List.length_nil]
    omega

theorem length_mcLine (chunk : Chunk) : (mcLine chunk).length ≤ 261 := by
  have hshort := chunk.short
  simp only [mcLine, mcKey, List.length_append, length_b64enc, List.length_cons, List.length_nil]
  omega

theorem cInt_le (n : Nat) : cInt n ≤ n := by
  unfold cInt cWrap
  rw [Int.bmod_def]
  split <;> omega

theorem mfltLoop_takes (bufSize : Nat) (pending : List Chunk) {text : List UInt8} (h : text.length ≤ bufSize) :
    ∃ taken, pending = taken ++ (mfltLoop bufSize pending text.length text).pending ∧
      (mfltLoop bufSize pending text.length text).text = text ++ taken.flatMap mcLine ∧
      (mfltLoop bufSize pending text.length text).total = (mfltLoop bufSize pending text.length text).text.length ∧
      (mfltLoop bufSize pending text.length text).total ≤ bufSize := by
  induction pending generalizing text with
  | nil => exact ⟨[], by simp [mfltLoop, h]⟩
  | cons chunk pending ih =>
    unfold mfltLoop
    split
    · exact ⟨[], by simp [h]⟩
    · rename_i hfits
      have hline := length_mcLine chunk
      have hint := cInt_le bufSize
      have hlen : (text ++ mcLine chunk).length ≤ bufSize := by
        rw [List.length_append]
        omega
      obtain ⟨taken, hpending, htext, htotal⟩ := ih hlen
      rw [← List.length_append]
      refine ⟨chunk :: taken, ?_, ?_, htotal⟩
      · rw [List.cons_append, ← hpending]
      · rw [htext, List.flatMap_cons, List.append_assoc]

end DectMesh.Telemetry
