import DectMesh.Aether.Conversation
import DectMesh.Lib.Hex
import DectMesh.Relay.Firmware
import Mathlib.Data.List.DropRight

/-! The ctl file as text: what a write to it is cut to, how a command is read,
and the grammar that a command is written in. -/
namespace DectMesh.Aether

open DectMesh.Lib DectMesh.Relay

variable {ρ : Type}

/-! ## Addresses as text -/

def colonHex : List UInt8 → List UInt8
  | [] => []
  | [b] => hexByte b
  | b :: c :: bytes => hexByte b ++ 0x3a :: colonHex (c :: bytes)

/-- `"%02x:%02x:%02x:%02x:%02x:%02x"` -/
def fmtAddr (a : Addr) : List UInt8 := colonHex a.bytes

def scanColon : List UInt8 → Option (List UInt8)
  | [] => none
  | c :: text => if c = 0x3a then some text else none

/-- The conversions of `sscanf(s, "%x:%x:..", ..)` up to the first that fails. -/
def scanGroups : Nat → List UInt8 → List Nat
  | 0, _ => []
  | n + 1, text =>
      match scanHexItem (text.dropWhile isSpace) with
      | none => []
      | some (value, left) => value :: (scanColon left).elim [] (scanGroups n)

/-- `none` is `-EINVAL`. -/
def parseAddr (s : List UInt8) : Option Addr :=
  if h : (scanGroups 6 s).length = 6 ∧ ∀ b ∈ scanGroups 6 s, b ≤ 0xff then
    some ⟨(scanGroups 6 s).map UInt8.ofNat, by simpa using h.1⟩
  else none

/-! ## A write to ctl -/

/-- `"connect "` -/
def connectKey : List UInt8 := [0x63, 0x6f, 0x6e, 0x6e, 0x65, 0x63, 0x74, 0x20]

/-- `"announce"` -/
def announceKey : List UInt8 := [0x61, 0x6e, 0x6e, 0x6f, 0x75, 0x6e, 0x63, 0x65]

/-- `"hangup"` -/
def hangupKey : List UInt8 := [0x68, 0x61, 0x6e, 0x67, 0x75, 0x70]

def CtlCmd.ofText (cmd : List UInt8) : CtlCmd :=
  if connectKey.isPrefixOf cmd then (parseAddr (cmd.drop 8)).elim .unknown .connect
  else if cmd = announceKey then .announce
  else if cmd = hangupKey then .hangup
  else .unknown

def isBlank (c : UInt8) : Bool := c = 0x0a || c = 0x0d || c = 0x20

def stripped (buf : List UInt8) : List UInt8 := buf.rdropWhile isBlank

/-- The string in `cmd[64]`. -/
def ctlText (buf : List UInt8) : List UInt8 := cString (stripped (buf.take 63))

/-- The conversation's part of `anet_write` on a ctl file: -22 is `-EINVAL`. -/
def anetWriteCtl (c : Conv ρ) (buf : List UInt8) : Except Int Nat × Conv ρ :=
  match ctlExec c (.ofText (ctlText buf)) with
  | none => (.error (-22), c)
  | some c' => (.ok buf.length, c')

def anetReadRemote (c : Conv ρ) (offset count : Nat) : List UInt8 :=
  ((if c.state = .connected then fmtAddr c.peer ++ [0x0a] else []).drop offset).take count

/-! ## The grammar -/

inductive Grammar : List UInt8 → CtlCmd → Prop where
  | connect (addr : Addr) : Grammar (connectKey ++ fmtAddr addr) (.connect addr)
  | announce : Grammar announceKey .announce
  | hangup : Grammar hangupKey .hangup

def CtlCmd.Fits (cmd : CtlCmd) (state : ConvState) : Prop := cmd = .hangup ∨ state = .unconnected

def CtlCmd.effect (cmd : CtlCmd) (c : Conv ρ) : Conv ρ :=
  match cmd with
  | .connect addr =>
      if addr = .bcast then { c with state := .bcast } else { c with state := .connected, peer := addr }
  | .announce => { c with state := .announced }
  | .hangup => { c with state := .unconnected, peer := .zero, rxq := purgeAndSentinel c.rxq }
  | .unknown => c

/-- The text is read as the grammar has it: a write succeeds exactly if the text
is a command that fits the state, does what the command says, and changes
nothing when it fails. -/
structure CtlReads (text : List UInt8) (c : Conv ρ) (buf : List UInt8) : Prop where
  accepted : (∃ count, (anetWriteCtl c buf).1 = .ok count) ↔ ∃ cmd, Grammar text cmd ∧ cmd.Fits c.state
  effect : ∀ cmd, Grammar text cmd → cmd.Fits c.state → anetWriteCtl c buf = (.ok buf.length, cmd.effect c)
  remote : ∀ addr, Grammar text (.connect addr) → addr ≠ .bcast → c.state = .unconnected →
    ∀ offset count, anetReadRemote (anetWriteCtl c buf).2 offset count =
      ((text.drop 8 ++ [0x0a]).drop offset).take count
  rejected : ∀ error, (anetWriteCtl c buf).1 = .error error → (anetWriteCtl c buf).2 = c

/-- The end of the buffer cuts nothing off, and `sscanf` reads an address only
where one is printed. -/
structure Regular (buf : List UInt8) : Prop where
  short : (stripped buf).length ≤ 63
  printed : ∀ rest addr, cString (stripped buf) = connectKey ++ rest → parseAddr rest = some addr →
    rest = fmtAddr addr

/-! ## Printed addresses read back -/

theorem isSpace_of_isHex {c : UInt8} (h : isHex c = true) : isSpace c = false := by
  by_contra hspace
  rw [Bool.not_eq_false] at hspace
  simp only [isSpace, Bool.or_eq_true, Bool.and_eq_true, decide_eq_true_eq] at hspace
  rcases hspace with rfl | ⟨hlow, hhigh⟩
  · exact absurd h (by decide)
  · have hlt : c < 0x30 := UInt8.lt_of_le_of_lt hhigh (by decide)
    have hnone : hexValue c = none := by
      have h30 : ¬ (0x30 : UInt8) ≤ c := UInt8.not_le.mpr hlt
      have h61 : ¬ (0x61 : UInt8) ≤ c := fun hle => h30 (UInt8.le_trans (by decide) hle)
      have h41 : ¬ (0x41 : UInt8) ≤ c := fun hle => h30 (UInt8.le_trans (by decide) hle)
      simp only [hexValue, h30, h61, h41, false_and, if_false]
    rw [isHex, hnone] at h
    cases h

theorem dropWhile_hexByte (b : UInt8) (rest : List UInt8) :
    (hexByte b ++ rest).dropWhile isSpace = hexByte b ++ rest := by
  have hbyte := b.toNat_lt
  have hhigh : b.toNat / 16 < 16 := by omega
  rw [hexByte, List.cons_append, List.dropWhile_cons_of_neg]
  rw [isSpace_of_isHex (isHex_hexChar hhigh)]
  decide

theorem scanGroups_colonHex (bytes : List UInt8) :
    scanGroups bytes.length (colonHex bytes) = bytes.map UInt8.toNat := by
  induction bytes with
  | nil => rfl
  | cons b bytes ih =>
    cases bytes with
    | nil =>
      have hitem : scanHexItem (hexByte b ++ []) = some (b.toNat, []) := scanHexItem_hexByte b (by simp)
      have hblank := dropWhile_hexByte b []
      rw [List.append_nil] at hitem hblank
      simp only [List.length_cons, List.length_nil, scanGroups, colonHex, hblank, hitem, scanColon,
        Option.elim_none, List.map_cons, List.map_nil]
    | cons c bytes =>
      have hitem : scanHexItem (hexByte b ++ 0x3a :: colonHex (c :: bytes)) =
          some (b.toNat, 0x3a :: colonHex (c :: bytes)) :=
        scanHexItem_hexByte b (fun d hd => by cases hd; decide)
      rw [List.length_cons, scanGroups, colonHex, dropWhile_hexByte, hitem]
      simp only [scanColon, if_true, Option.elim_some, ih, List.map_cons]

theorem parseAddr_fmtAddr (a : Addr) : parseAddr (fmtAddr a) = some a := by
  have hgroups : scanGroups 6 (fmtAddr a) = a.bytes.map UInt8.toNat := by
    rw [fmtAddr, ← scanGroups_colonHex, a.six]
  have hbytes : (scanGroups 6 (fmtAddr a)).map UInt8.ofNat = a.bytes := by
    rw [hgroups, List.map_map]
    exact (List.map_congr_left fun b _ => UInt8.ofNat_toNat).trans (List.map_id _)
  unfold parseAddr
  rw [dif_pos]
  · obtain ⟨bytes, six⟩ := a
    simp only [hbytes]
  · rw [hgroups]
    refine ⟨by rw [List.length_map, a.six], fun n hn => ?_⟩
    obtain ⟨b, -, rfl⟩ := List.mem_map.mp hn
    exact Nat.lt_succ_iff.mp b.toNat_lt

/-! ## What the grammar writes -/

theorem mem_colonHex {bytes : List UInt8} {c : UInt8} (h : c ∈ colonHex bytes) :
    c = 0x3a ∨ ∃ d, d < 16 ∧ c = hexChar d := by
  induction bytes with
  | nil => cases h
  | cons b bytes ih =>
    cases bytes with
    | nil => exact .inr (mem_hexByte h)
    | cons d bytes =>
      rw [colonHex, List.mem_append, List.mem_cons] at h
      rcases h with h | rfl | h
      · exact .inr (mem_hexByte h)
      · exact .inl rfl
      · exact ih h

theorem colonHex_no_nul (bytes : List UInt8) : ∀ c ∈ colonHex bytes, c ≠ 0 := by
  intro c hc
  rcases mem_colonHex hc with rfl | ⟨d, hd, rfl⟩
  · decide
  · interval_cases d <;> decide

theorem length_colonHex (bytes : List UInt8) : (colonHex bytes).length = 3 * bytes.length - 1 := by
  induction bytes with
  | nil => rfl
  | cons b bytes ih =>
    cases bytes with
    | nil => rfl
    | cons d bytes =>
      rw [colonHex, List.length_append, List.length_cons, ih, length_hexByte]
      simp only [List.length_cons]
      omega

theorem length_fmtAddr (a : Addr) : (fmtAddr a).length = 17 := by
  rw [fmtAddr, length_colonHex, a.six]

theorem Grammar.no_nul {text : List UInt8} {cmd : CtlCmd} (h : Grammar text cmd) : ∀ c ∈ text, c ≠ 0 := by
  cases h with
  | connect addr =>
    intro c hc
    rcases List.mem_append.mp hc with hc | hc
    · exact (by simp [connectKey] : ∀ c ∈ connectKey, c ≠ 0) c hc
    · exact colonHex_no_nul _ c hc
  | announce => simp [announceKey]
  | hangup => simp [hangupKey]

theorem Grammar.length {text : List UInt8} {cmd : CtlCmd} (h : Grammar text cmd) : text.length ≤ 25 := by
  cases h with
  | connect addr =>
    rw [List.length_append, length_fmtAddr]
    decide
  | announce => decide
  | hangup => decide

theorem drop_connectKey (rest : List UInt8) : (connectKey ++ rest).drop 8 = rest := rfl

theorem Grammar.ofText {text : List UInt8} {cmd : CtlCmd} (h : Grammar text cmd) :
    CtlCmd.ofText text = cmd ∧ cmd ≠ .unknown := by
  cases h with
  | connect addr =>
    have hstarts : connectKey.isPrefixOf (connectKey ++ fmtAddr addr) = true := by simp
    rw [CtlCmd.ofText, if_pos hstarts, drop_connectKey, parseAddr_fmtAddr]
    exact ⟨rfl, nofun⟩
  | announce => decide
  | hangup => decide

/-- What `ctl_exec` takes for a command is in the grammar, or an address that
`sscanf` reads. -/
theorem ofText_cases {text : List UInt8} (h : CtlCmd.ofText text ≠ .unknown) :
    Grammar text (CtlCmd.ofText text) ∨
      ∃ rest addr, text = connectKey ++ rest ∧ parseAddr rest = some addr ∧ CtlCmd.ofText text = .connect addr := by
  unfold CtlCmd.ofText at h ⊢
  split at h
  · rename_i hstarts
    rw [if_pos hstarts]
    obtain ⟨rest, rfl⟩ := List.isPrefixOf_iff_prefix.mp hstarts
    rw [drop_connectKey] at h ⊢
    cases haddr : parseAddr rest with
    | none =>
      rw [haddr] at h
      exact absurd rfl h
    | some addr => exact .inr ⟨rest, addr, rfl, haddr, rfl⟩
  · rename_i hother
    rw [if_neg hother]
    split at h
    · rename_i hannounce
      rw [if_pos hannounce, hannounce]
      exact .inl .announce
    · rename_i hannounce
      rw [if_neg hannounce]
      split at h
      · rename_i hhangup
        rw [if_pos hhangup, hhangup]
        exact .inl .hangup
      · exact absurd rfl h

/-! ## The cut and the trailing blanks -/

theorem stripped_append {bytes blanks : List UInt8} (h : ∀ c ∈ blanks, isBlank c = true) :
    stripped (bytes ++ blanks) = stripped bytes := by
  unfold stripped List.rdropWhile
  rw [List.reverse_append, List.dropWhile_append_of_pos fun c hc => h c (List.mem_reverse.mp hc)]

theorem stripped_take {buf : List UInt8} {n : Nat} (h : (stripped buf).length ≤ n) :
    stripped (buf.take n) = stripped buf := by
  have hsplit : buf = stripped buf ++ buf.rtakeWhile isBlank := (List.rdropWhile_append_rtakeWhile ..).symm
  have htake : buf.take n = stripped buf ++ (buf.rtakeWhile isBlank).take (n - (stripped buf).length) := by
    conv_lhs => rw [hsplit]
    rw [List.take_append, List.take_of_length_le h]
  rw [htake, stripped_append fun c hc => List.mem_rtakeWhile_imp (List.mem_of_mem_take hc)]
  exact List.rdropWhile_idempotent ..

theorem ctlText_of_short {buf : List UInt8} (h : (stripped buf).length ≤ 63) :
    ctlText buf = cString (stripped buf) := by
  rw [ctlText, stripped_take h]

theorem cString_of_no_nul {text : List UInt8} (h : ∀ c ∈ text, c ≠ 0) : cString text = text :=
  List.takeWhile_eq_self_iff.mpr fun c hc => by simpa using h c hc

/-- Up to blanks at its end, what the grammar writes is read as it stands. -/
theorem Grammar.regular {buf : List UInt8} {cmd : CtlCmd} (h : Grammar (stripped buf) cmd) :
    Regular buf ∧ cString (stripped buf) = stripped buf := by
  have htext := cString_of_no_nul h.no_nul
  have hlength := h.length
  refine ⟨⟨by omega, fun rest addr hrest hparse => ?_⟩, htext⟩
  rw [htext] at hrest
  rw [hrest] at h
  generalize hwhole : connectKey ++ rest = text at h
  cases h with
  | connect a =>
    cases List.append_cancel_left hwhole
    rw [parseAddr_fmtAddr] at hparse
    cases hparse
    rfl
  | announce =>
    have := congrArg (List.take 1) hwhole
    exact absurd this (by simp [connectKey, announceKey])
  | hangup =>
    have := congrArg (List.take 1) hwhole
    exact absurd this (by simp [connectKey, hangupKey])

/-! ## A write does what the grammar says -/

theorem ctlExec_of_fits {c : Conv ρ} {cmd : CtlCmd} (hknown : cmd ≠ .unknown) (h : cmd.Fits c.state) :
    ctlExec c cmd = some (cmd.effect c) := by
  cases cmd with
  | connect addr =>
    have hstate : c.state = .unconnected := h.resolve_left (by simp)
    simp only [ctlExec, CtlCmd.effect, if_neg (not_not.mpr hstate)]
    split <;> rfl
  | announce =>
    have hstate : c.state = .unconnected := h.resolve_left (by simp)
    exact if_neg (not_not.mpr hstate)
  | hangup => rfl
  | unknown => exact absurd rfl hknown

theorem ctlExec_eq_none {c : Conv ρ} {cmd : CtlCmd} (h : cmd = .unknown ∨ ¬ cmd.Fits c.state) :
    ctlExec c cmd = none := by
  rcases h with rfl | h
  · rfl
  · obtain ⟨hhangup, hstate⟩ := not_or.mp h
    cases cmd with
    | connect addr => exact if_pos hstate
    | announce => exact if_pos hstate
    | hangup => exact absurd rfl hhangup
    | unknown => rfl

theorem anetWriteCtl_rejected (c : Conv ρ) (buf : List UInt8) (error : Int)
    (h : (anetWriteCtl c buf).1 = .error error) : (anetWriteCtl c buf).2 = c := by
  unfold anetWriteCtl at h ⊢
  split at h
  · rfl
  · cases h

theorem CtlReads.of_regular {buf : List UInt8} (h : Regular buf) (c : Conv ρ) :
    CtlReads (cString (stripped buf)) c buf := by
  have htext := ctlText_of_short h.short
  have heffect : ∀ cmd, Grammar (cString (stripped buf)) cmd → cmd.Fits c.state →
      anetWriteCtl c buf = (.ok buf.length, cmd.effect c) := by
    intro cmd hcmd hfits
    obtain ⟨hof, hknown⟩ := hcmd.ofText
    rw [anetWriteCtl, htext, hof, ctlExec_of_fits hknown hfits]
  refine ⟨⟨fun ⟨count, hok⟩ => ?_, fun ⟨cmd, hcmd, hfits⟩ => ?_⟩, heffect, fun addr hcmd haddr hstate => ?_,
    anetWriteCtl_rejected c buf⟩
  · by_contra hnone
    have hfails : CtlCmd.ofText (ctlText buf) = .unknown ∨ ¬ (CtlCmd.ofText (ctlText buf)).Fits c.state := by
      by_contra hcommand
      obtain ⟨hknown, hfits⟩ := not_or.mp hcommand
      rw [not_not] at hfits
      rw [htext] at hknown hfits
      apply hnone
      refine ⟨_, ?_, hfits⟩
      rcases ofText_cases hknown with hcmd | ⟨rest, addr, hrest, hparse, hof⟩
      · exact hcmd
      · rw [hof, hrest, h.printed rest addr hrest hparse]
        exact .connect addr
    rw [anetWriteCtl, ctlExec_eq_none hfails] at hok
    cases hok
  · rw [heffect cmd hcmd hfits]
    exact ⟨_, rfl⟩
  · intro offset count
    rw [heffect _ hcmd (.inr hstate)]
    generalize cString (stripped buf) = text at hcmd
    cases hcmd
    simp only [CtlCmd.effect, if_neg haddr, anetReadRemote, if_true, drop_connectKey]

/-- A write that is in the grammar, whatever blanks end it, is read as it
stands; so is one that a NUL ends, if the buffer holds it and its address is not
one that only `sscanf` reads. What is rejected changes nothing. -/
theorem ctl_reads_grammar (c : Conv ρ) (buf : List UInt8) :
    (∀ cmd, Grammar (stripped buf) cmd → CtlReads (stripped buf) c buf) ∧
      (Regular buf → CtlReads (cString (stripped buf)) c buf) ∧
      ∀ error, (anetWriteCtl c buf).1 = .error error → (anetWriteCtl c buf).2 = c := by
  refine ⟨fun cmd hcmd => ?_, fun h => .of_regular h c, anetWriteCtl_rejected c buf⟩
  obtain ⟨hregular, htext⟩ := hcmd.regular
  have := CtlReads.of_regular hregular c
  rwa [htext] at this

/-- A NUL ends the command `"hangup"`, and what is behind it is not read. -/
theorem ctl_reads_past_nul : ¬ CtlReads (stripped (hangupKey ++ [0x00, 0x78])) (Conv.fresh : Conv Nat)
    (hangupKey ++ [0x00, 0x78]) := by
  intro h
  obtain ⟨cmd, hcmd, -⟩ := h.accepted.mp ⟨_, rfl⟩
  exact hcmd.no_nul 0 (by decide) rfl

end DectMesh.Aether
