import DectMesh.Aether.CtlGrammar
import DectMesh.Aether.PortInvariant

/-! An OTA over the mesh as its host drives it: commands written to `dev/push_ctl`
and the image written to `dev/push`. The two files are a machine that a target
is selected on or not; each call underneath may fail in any way. -/
namespace DectMesh.Aether

open DectMesh.Lib

/-! ## The text of a command -/

def hexPairs : (want : Nat) → List UInt8 → Option { bytes : List UInt8 // bytes.length = want }
  | 0, _ => some ⟨[], List.length_nil⟩
  | want + 1, hi :: lo :: s =>
      match hexValue hi, hexValue lo with
      | some h, some l =>
          (hexPairs want s).map fun bytes =>
            ⟨UInt8.ofNat (h <<< 4 ||| l) :: bytes.1, List.length_cons.trans (congrArg Nat.succ bytes.2)⟩
      | _, _ => none
  | _ + 1, _ => none

/-- `parse_eui12`, with `hexnib` for its digits. -/
def parseEui12 (s : List UInt8) : Option Addr :=
  if s.length < 12 then none else (hexPairs 6 s).map fun bytes => ⟨bytes.1, bytes.2⟩

/-- `"target "` -/
def targetKey : List UInt8 := [0x74, 0x61, 0x72, 0x67, 0x65, 0x74, 0x20]

/-- `"commit"` -/
def commitKey : List UInt8 := [0x63, 0x6f, 0x6d, 0x6d, 0x69, 0x74]

/-- `"reboot "` -/
def rebootKey : List UInt8 := [0x72, 0x65, 0x62, 0x6f, 0x6f, 0x74, 0x20]

/-- `"confirm "` -/
def confirmKey : List UInt8 := [0x63, 0x6f, 0x6e, 0x66, 0x69, 0x72, 0x6d, 0x20]

def rebootName : List UInt8 := [0x72, 0x65, 0x62, 0x6f, 0x6f, 0x74]

inductive PushCmd where
  | target (eui : Addr)
  | commit
  | reboot (eui : Addr)
  | confirm (eui : Addr)
  deriving DecidableEq

def keyed (key cmd : List UInt8) : Option Addr :=
  if key.isPrefixOf cmd then parseEui12 (cmd.drop key.length) else none

/-- The comparisons of `write_push_ctl`, one after the other. -/
def PushCmd.ofText (cmd : List UInt8) : Option PushCmd :=
  match keyed targetKey cmd with
  | some eui => some (.target eui)
  | none =>
      if commitKey.isPrefixOf cmd then some .commit
      else
        match keyed rebootKey cmd with
        | some eui => some (.reboot eui)
        | none => (keyed confirmKey cmd).map .confirm

/-- The string in `cmd[64]`. Behind its blanks no digit is looked at. -/
def pushCmdText (buf : List UInt8) : List UInt8 := stripped (buf.take 63)

section

variable {σ : Type} (port : Port σ) (maxMsg fuel : Nat)

def runCmd (cmd : PushCmd) (g : Push) (w : σ) : Option (Int × Push × σ) :=
  match cmd with
  | .target eui => some (pushOpen port maxMsg eui g w)
  | .commit => pushClose port maxMsg fuel g w
  | .reboot eui =>
      match pushCtl port maxMsg eui rebootName true w with
      | (r, w) => some (r, g, w)
  | .confirm eui =>
      match pushCtl port maxMsg eui confirmName false w with
      | (r, w) => some (r, g, w)

/-- -22 is `-EINVAL`. -/
def writePushCtl (buf : List UInt8) (g : Push) (w : σ) : Option (Int × Push × σ) :=
  match PushCmd.ofText (pushCmdText buf) with
  | none => some (-22, g, w)
  | some cmd =>
      (runCmd port maxMsg fuel cmd g w).map fun (r, g, w) => (if r = 0 then (buf.length : Int) else r, g, w)

inductive HostWrite where
  | ctl (buf : List UInt8)
  | image (offset : Nat) (buf : List UInt8)
  deriving DecidableEq

def hostWrite (write : HostWrite) (g : Push) (w : σ) : Option (Int × Push × σ) :=
  match write with
  | .ctl buf => writePushCtl port maxMsg fuel buf g w
  | .image offset buf => pushWrite port maxMsg fuel buf offset g w

def hostWrites : List HostWrite → Push → σ → Option (List Int × Push × σ)
  | [], g, w => some ([], g, w)
  | write :: later, g, w =>
      match hostWrite port maxMsg fuel write g w with
      | none => none
      | some (result, g, w) => (hostWrites later g w).map fun (results, g, w) => (result :: results, g, w)

end

/-! ## The files as a machine -/

def nibbles (b : UInt8) : List (Option Nat) := [some (b.toNat / 16), some (b.toNat % 16)]

def Spells (digits : List UInt8) (eui : Addr) : Prop := digits.map hexValue = eui.bytes.flatMap nibbles

/-- The commands and how each is written. Whatever stands behind one is not
looked at. -/
inductive PushGrammar : List UInt8 → PushCmd → Prop where
  | target {digits : List UInt8} {eui : Addr} (spelled : Spells digits eui) (rest : List UInt8) :
      PushGrammar (targetKey ++ (digits ++ rest)) (.target eui)
  | commit (rest : List UInt8) : PushGrammar (commitKey ++ rest) .commit
  | reboot {digits : List UInt8} {eui : Addr} (spelled : Spells digits eui) (rest : List UInt8) :
      PushGrammar (rebootKey ++ (digits ++ rest)) (.reboot eui)
  | confirm {digits : List UInt8} {eui : Addr} (spelled : Spells digits eui) (rest : List UInt8) :
      PushGrammar (confirmKey ++ (digits ++ rest)) (.confirm eui)

/-- One write to the files, and its result: `opened` says whether a target is
selected. A failed selection drops the target before it. -/
inductive FilesStep : Bool → HostWrite → Int → Bool → Prop where
  | refused {opened : Bool} {buf : List UInt8} (bad : ∀ cmd, ¬ PushGrammar (pushCmdText buf) cmd) :
      FilesStep opened (.ctl buf) (-22) opened
  | selected {opened : Bool} {buf : List UInt8} {eui : Addr} (cmd : PushGrammar (pushCmdText buf) (.target eui)) :
      FilesStep opened (.ctl buf) buf.length true
  | unselected {opened : Bool} {buf : List UInt8} {eui : Addr} {r : Int}
      (cmd : PushGrammar (pushCmdText buf) (.target eui)) (failed : r < 0 ∧ r ≠ -22) :
      FilesStep opened (.ctl buf) r false
  | committed {buf : List UInt8} (cmd : PushGrammar (pushCmdText buf) .commit) :
      FilesStep true (.ctl buf) buf.length false
  | nothing {buf : List UInt8} (cmd : PushGrammar (pushCmdText buf) .commit) : FilesStep false (.ctl buf) (-32) false
  | reboot {opened : Bool} {buf : List UInt8} {eui : Addr} {r : Int}
      (cmd : PushGrammar (pushCmdText buf) (.reboot eui)) (result : r = buf.length ∨ (r < 0 ∧ r ≠ -22)) :
      FilesStep opened (.ctl buf) r opened
  | confirm {opened : Bool} {buf : List UInt8} {eui : Addr} {r : Int}
      (cmd : PushGrammar (pushCmdText buf) (.confirm eui)) (result : r = buf.length ∨ (r < 0 ∧ r ≠ -22)) :
      FilesStep opened (.ctl buf) r opened
  | image {offset : Nat} {buf : List UInt8} {r : Int} (result : r = buf.length ∨ r = -5) :
      FilesStep true (.image offset buf) r true
  | closed {offset : Nat} {buf : List UInt8} : FilesStep false (.image offset buf) (-32) false

inductive Follows : Bool → List HostWrite → List Int → Bool → Prop where
  | nil {opened : Bool} : Follows opened [] [] opened
  | cons {opened mid final : Bool} {write : HostWrite} {r : Int} {later : List HostWrite} {results : List Int}
      (step : FilesStep opened write r mid) (rest : Follows mid later results final) :
      Follows opened (write :: later) (r :: results) final

/-! ## Commands are read as the grammar has them -/

theorem hexValue_lt {c : UInt8} {n : Nat} (h : hexValue c = some n) : n < 16 := by
  unfold hexValue at h
  simp only [UInt8.le_iff_toNat_le] at h
  split at h
  · rename_i hrange
    have hlow : c.toNat ≤ 0x39 := hrange.2
    cases h
    omega
  · split at h
    · rename_i hrange
      have hlow : c.toNat ≤ 0x66 := hrange.2
      cases h
      omega
    · split at h
      · rename_i hrange
        have hlow : c.toNat ≤ 0x46 := hrange.2
        cases h
        omega
      · cases h

theorem nibbles_ofNat {h l : Nat} (hh : h < 16) (hl : l < 16) :
    nibbles (UInt8.ofNat (h <<< 4 ||| l)) = [some h, some l] := by
  interval_cases h <;> interval_cases l <;> decide

theorem nibbles_inj {b c : UInt8} (h : nibbles b = nibbles c) : b = c := by
  simp only [nibbles, List.cons.injEq, Option.some.injEq, and_true] at h
  apply UInt8.toNat_inj.mp
  omega

theorem hexPairs_spelled {want : Nat} {digits rest : List UInt8}
    {bytes : { bytes : List UInt8 // bytes.length = want }} (h : digits.map hexValue = bytes.1.flatMap nibbles) :
    hexPairs want (digits ++ rest) = some bytes := by
  induction want generalizing digits with
  | zero =>
    obtain ⟨bytes, hlength⟩ := bytes
    cases List.length_eq_zero_iff.mp hlength
    rfl
  | succ want ih =>
    obtain ⟨_ | ⟨b, bytes⟩, hlength⟩ := bytes
    · cases hlength
    · obtain _ | ⟨hi, _ | ⟨lo, digits⟩⟩ := digits
      · simp [nibbles] at h
      · simp [nibbles] at h
      · simp only [List.map_cons, List.flatMap_cons, nibbles, List.cons_append, List.nil_append, List.cons.injEq] at h
        obtain ⟨hhi, hlo, hdigits⟩ := h
        have hbyte : UInt8.ofNat ((b.toNat / 16) <<< 4 ||| b.toNat % 16) = b := by
          refine nibbles_inj (nibbles_ofNat (hexValue_lt hhi) (hexValue_lt hlo))
        have hrest := @ih digits ⟨bytes, Nat.succ.inj hlength⟩ hdigits
        simp only [List.cons_append, hexPairs, hhi, hlo, hrest, Option.map_some, hbyte]

theorem hexPairs_some {want : Nat} {s : List UInt8} {bytes : { bytes : List UInt8 // bytes.length = want }}
    (h : hexPairs want s = some bytes) :
    ∃ digits rest, s = digits ++ rest ∧ digits.map hexValue = bytes.1.flatMap nibbles := by
  induction want generalizing s with
  | zero =>
    cases h
    exact ⟨[], s, rfl, rfl⟩
  | succ want ih =>
    obtain _ | ⟨hi, _ | ⟨lo, s⟩⟩ := s
    · cases h
    · cases h
    · rw [hexPairs] at h
      split at h
      · rename_i m n hm hn
        obtain ⟨later, hlater, rfl⟩ := Option.map_eq_some_iff.mp h
        obtain ⟨digits, rest, rfl, hdigits⟩ := ih hlater
        refine ⟨hi :: lo :: digits, rest, rfl, ?_⟩
        rw [List.flatMap_cons, nibbles_ofNat (hexValue_lt hm) (hexValue_lt hn), ← hdigits, List.map_cons,
          List.map_cons, hm, hn]
        rfl
      · cases h

theorem Spells.length {digits : List UInt8} {eui : Addr} (h : Spells digits eui) : digits.length = 12 := by
  have hlength := congrArg List.length h
  rw [List.length_map, List.length_flatMap] at hlength
  rw [hlength]
  have hsix := eui.six
  simp only [nibbles, List.length_cons, List.length_nil, List.map_const', hsix]
  rfl

theorem parseEui12_iff {s : List UInt8} {eui : Addr} :
    parseEui12 s = some eui ↔ ∃ digits rest, s = digits ++ rest ∧ Spells digits eui := by
  constructor
  · intro h
    rw [parseEui12, Option.ite_none_left_eq_some] at h
    obtain ⟨-, h⟩ := h
    obtain ⟨bytes, hbytes, rfl⟩ := Option.map_eq_some_iff.mp h
    exact hexPairs_some hbytes
  · rintro ⟨digits, rest, rfl, hspells⟩
    have hlong : ¬ (digits ++ rest).length < 12 := by
      rw [List.length_append, hspells.length]
      omega
    have hpairs : hexPairs 6 (digits ++ rest) = some ⟨eui.bytes, eui.six⟩ := hexPairs_spelled hspells
    rw [parseEui12, if_neg hlong, hpairs]
    rfl

theorem keyed_iff {key cmd : List UInt8} {eui : Addr} :
    keyed key cmd = some eui ↔ ∃ digits rest, cmd = key ++ (digits ++ rest) ∧ Spells digits eui := by
  rw [keyed, Option.ite_none_right_eq_some, List.isPrefixOf_iff_prefix, parseEui12_iff]
  constructor
  · rintro ⟨⟨later, rfl⟩, digits, rest, hrest, hspells⟩
    rw [List.drop_left] at hrest
    exact ⟨digits, rest, by rw [hrest], hspells⟩
  · rintro ⟨digits, rest, rfl, hspells⟩
    exact ⟨⟨_, rfl⟩, digits, rest, List.drop_left .., hspells⟩

theorem keyed_other {key other rest : List UInt8} (h : key.isPrefixOf (other ++ rest) = false) :
    keyed key (other ++ rest) = none := by
  rw [keyed, h, if_neg Bool.false_ne_true]

/-- `write_push_ctl` takes for a command exactly what the grammar writes. -/
theorem ofText_iff {text : List UInt8} {cmd : PushCmd} : PushCmd.ofText text = some cmd ↔ PushGrammar text cmd := by
  constructor
  · intro h
    unfold PushCmd.ofText at h
    split at h
    · rename_i eui htarget
      cases h
      obtain ⟨digits, rest, rfl, hspells⟩ := keyed_iff.mp htarget
      exact .target hspells rest
    · split at h
      · rename_i hcommit
        cases h
        obtain ⟨rest, rfl⟩ := List.isPrefixOf_iff_prefix.mp hcommit
        exact .commit rest
      · split at h
        · rename_i eui hreboot
          cases h
          obtain ⟨digits, rest, rfl, hspells⟩ := keyed_iff.mp hreboot
          exact .reboot hspells rest
        · obtain ⟨eui, hconfirm, rfl⟩ := Option.map_eq_some_iff.mp h
          obtain ⟨digits, rest, rfl, hspells⟩ := keyed_iff.mp hconfirm
          exact .confirm hspells rest
  · intro h
    cases h with
    | target hspells rest => rw [PushCmd.ofText, keyed_iff.mpr ⟨_, rest, rfl, hspells⟩]
    | commit rest =>
      rw [PushCmd.ofText, keyed_other rfl, if_pos]
      exact List.isPrefixOf_iff_prefix.mpr ⟨rest, rfl⟩
    | @reboot digits _ hspells rest =>
      have hcommit : commitKey.isPrefixOf (rebootKey ++ (digits ++ rest)) = false := rfl
      rw [PushCmd.ofText, keyed_other rfl, hcommit]
      simp only [Bool.false_eq_true, if_false, keyed_iff.mpr ⟨_, rest, rfl, hspells⟩]
    | @confirm digits _ hspells rest =>
      have hcommit : commitKey.isPrefixOf (confirmKey ++ (digits ++ rest)) = false := rfl
      rw [PushCmd.ofText, keyed_other rfl, hcommit, keyed_other rfl, keyed_iff.mpr ⟨_, rest, rfl, hspells⟩]
      rfl

/-! ## Each write is a step of the machine -/

section

variable {σ : Type} {port : Port σ} {maxMsg fuel : Nat}

structure Push.Opened (opened : Bool) (g : Push) : Prop where
  active : g.active = opened
  paired : g.Paired

theorem Push.opened_idle : Push.idle.Opened false := ⟨rfl, rfl⟩

theorem dropStale_opened {g : Push} {w : σ} (h : g.Paired) : (dropStale port g w).1.Opened false := by
  unfold dropStale
  split
  · exact ⟨rfl, rfl⟩
  · rename_i hidle
    exact ⟨Bool.not_eq_true _ ▸ hidle, h⟩

theorem m9Steps_result {conv : Slot} {requests : List (List UInt8 × UInt8)} {number : Nat} {w : σ} :
    -((number : Int) + requests.length) ≤ (m9Steps port maxMsg conv requests number w).1 := by
  induction requests generalizing number w with
  | nil =>
    rw [m9Steps]
    omega
  | cons request rest ih =>
    rw [m9Steps]
    dsimp only
    split
    · have hrest := @ih (number + 1) (m9Rpc port conv request.1 maxMsg w).2
      rw [List.length_cons]
      omega
    · rw [List.length_cons]
      omega

theorem m9OpenDevfile_result {conv : Slot} {tag tag' : Nat} {file : List UInt8} {mode : UInt8} {w w' : σ} {step : Int}
    (h : m9OpenDevfile port maxMsg conv tag file mode w = (step, tag', w')) : step ≠ -22 := by
  have hresult := @m9Steps_result σ port maxMsg conv (openRequests maxMsg tag file mode) 1 w
  unfold m9OpenDevfile at h
  split at h
  rename_i step' w₁ hsteps
  cases h
  rw [hsteps, show (openRequests maxMsg tag file mode).length = 4 from rfl] at hresult
  dsimp only at hresult
  omega

theorem pushOpen_opened {eui : Addr} {g g' : Push} {w w' : σ} {r : Int} (hg : g.Paired)
    (h : pushOpen port maxMsg eui g w = (r, g', w')) :
    r = 0 ∧ g'.Opened true ∨ (r < 0 ∧ r ≠ -22) ∧ g'.Opened false := by
  have hdropped := @dropStale_opened σ port g w hg
  unfold pushOpen at h
  split at h
  rename_i g w hstale
  rw [hstale] at hdropped
  split at h
  · cases h
    exact .inr ⟨by decide, hdropped⟩
  · split at h
    rename_i step tag w hstep
    split at h
    · rename_i hneg
      cases h
      exact .inr ⟨⟨hneg, m9OpenDevfile_result hstep⟩, hdropped.active, hdropped.paired⟩
    · cases h
      exact .inl ⟨rfl, rfl, rfl⟩

theorem pushClose_opened {opened : Bool} {g g' : Push} {w w' : σ} {r : Int} (hg : g.Opened opened)
    (h : pushClose port maxMsg fuel g w = some (r, g', w')) :
    g'.Opened false ∧ r = if opened then 0 else -32 := by
  obtain ⟨hactive, hpaired⟩ := hg
  unfold pushClose at h
  split at h
  · rename_i conv hon _
    cases hactive.symm.trans hon
    split at h
    · cases h
    · cases h
      exact ⟨⟨rfl, rfl⟩, rfl⟩
  · rename_i hnot
    cases h
    cases opened with
    | true =>
      rw [Push.Paired, hactive] at hpaired
      obtain ⟨conv, hconv⟩ := Option.isSome_iff_exists.mp hpaired.symm
      exact absurd hconv (hnot conv hactive)
    | false => exact ⟨⟨hactive, hpaired⟩, rfl⟩

theorem pushWrite_opened {opened : Bool} {g g' : Push} {w w' : σ} {r : Int} {offset : Nat} {buf : List UInt8}
    (hg : g.Opened opened) (h : pushWrite port maxMsg fuel buf offset g w = some (r, g', w')) :
    g'.Opened opened ∧ if opened then r = buf.length ∨ r = -5 else r = -32 := by
  obtain ⟨hactive, hpaired⟩ := hg
  have hkeeps : port.Keeps fun _ => True := by constructor <;> intros <;> trivial
  obtain ⟨-, hconv, hsame⟩ := pushWrite_keeps maxMsg hkeeps trivial h
  refine ⟨⟨hsame.trans hactive, by rw [Push.Paired, hconv, hsame]; exact hpaired⟩, ?_⟩
  unfold pushWrite at h
  split at h
  · rename_i conv hon _
    cases hactive.symm.trans hon
    dsimp only at h
    split at h
    · cases h
    · cases h
      exact .inl rfl
    · cases h
      exact .inr rfl
  · rename_i hnot
    cases h
    cases opened with
    | true =>
      rw [Push.Paired, hactive] at hpaired
      obtain ⟨conv, hconv⟩ := Option.isSome_iff_exists.mp hpaired.symm
      exact absurd hconv (hnot conv hactive)
    | false => rfl

theorem ctlWrite_result {conv : Slot} {tag : Nat} {expectReset : Bool} {w : σ} :
    (ctlWrite port maxMsg conv tag expectReset w).1 ≤ 0 ∧ (ctlWrite port maxMsg conv tag expectReset w).1 ≠ -22 := by
  unfold ctlWrite
  dsimp only
  split <;> decide

theorem pushCtl_result {eui : Addr} {file : List UInt8} {expectReset : Bool} {w w' : σ} {r : Int}
    (h : pushCtl port maxMsg eui file expectReset w = (r, w')) : r ≤ 0 ∧ r ≠ -22 := by
  unfold pushCtl at h
  split at h
  · cases h
    decide
  · split at h
    rename_i step tag w hstep
    split at h
    · rename_i hneg
      cases h
      exact ⟨Int.le_of_lt hneg, m9OpenDevfile_result hstep⟩
    · cases h
      exact ctlWrite_result

/-- A result of `write_push_ctl` that is not the byte count is negative, and
not -EINVAL. -/
theorem countOr_cases {r : Int} (h : r ≤ 0 ∧ r ≠ -22) (count : Nat) :
    (if r = 0 then (count : Int) else r) = count ∨
      ((if r = 0 then (count : Int) else r) < 0 ∧ (if r = 0 then (count : Int) else r) ≠ -22) := by
  split
  · exact .inl rfl
  · exact .inr ⟨by omega, h.2⟩

theorem writePushCtl_step {opened : Bool} {g g' : Push} {w w' : σ} {r : Int} {buf : List UInt8}
    (hg : g.Opened opened) (h : writePushCtl port maxMsg fuel buf g w = some (r, g', w')) :
    ∃ opened', FilesStep opened (.ctl buf) r opened' ∧ g'.Opened opened' := by
  unfold writePushCtl at h
  split at h
  · rename_i hnone
    cases h
    refine ⟨opened, .refused fun cmd hcmd => ?_, hg⟩
    rw [ofText_iff.mpr hcmd] at hnone
    cases hnone
  · rename_i cmd hsome
    have hcmd := ofText_iff.mp hsome
    obtain ⟨⟨result, after, world⟩, hrun, hresult⟩ := Option.map_eq_some_iff.mp h
    cases hresult
    cases cmd with
    | target eui =>
      rcases pushOpen_opened hg.paired (Option.some.inj hrun) with ⟨rfl, hafter⟩ | ⟨hneg, hafter⟩
      · exact ⟨true, .selected hcmd, hafter⟩
      · rw [if_neg (Int.ne_of_lt hneg.1)]
        exact ⟨false, .unselected hcmd hneg, hafter⟩
    | commit =>
      obtain ⟨hafter, rfl⟩ := pushClose_opened hg hrun
      refine ⟨false, ?_, hafter⟩
      cases opened with
      | true => exact .committed hcmd
      | false => exact .nothing hcmd
    | reboot eui =>
      cases hrun
      exact ⟨opened, .reboot hcmd (countOr_cases (pushCtl_result rfl) _), hg⟩
    | confirm eui =>
      cases hrun
      exact ⟨opened, .confirm hcmd (countOr_cases (pushCtl_result rfl) _), hg⟩

theorem hostWrite_step {opened : Bool} {write : HostWrite} {g g' : Push} {w w' : σ} {r : Int} (hg : g.Opened opened)
    (h : hostWrite port maxMsg fuel write g w = some (r, g', w')) :
    ∃ opened', FilesStep opened write r opened' ∧ g'.Opened opened' := by
  cases write with
  | ctl buf => exact writePushCtl_step hg h
  | image offset buf =>
    obtain ⟨hafter, hresult⟩ := pushWrite_opened hg h
    refine ⟨opened, ?_, hafter⟩
    cases opened with
    | true => exact .image hresult
    | false =>
      cases hresult
      exact .closed

/-- Whatever the calls underneath come to: a host's writes to the two files and
their results are a run of the machine. What is written to `dev/push_ctl` is
refused without effect exactly if it is not in the grammar, and the image goes
through while a target is selected, -32 being the result of every other write. -/
theorem push_files_follow {writes : List HostWrite} {g' : Push} {w w' : σ} {results : List Int}
    (h : hostWrites port maxMsg fuel writes .idle w = some (results, g', w')) :
    Follows false writes results g'.active := by
  have hrun : ∀ {opened : Bool} {g : Push} {w : σ} {results : List Int}, g.Opened opened →
      hostWrites port maxMsg fuel writes g w = some (results, g', w') → Follows opened writes results g'.active := by
    clear h
    induction writes with
    | nil =>
      intro opened g w results hg h
      cases h
      rw [hg.active]
      exact .nil
    | cons write later ih =>
      intro opened g w results hg h
      rw [hostWrites] at h
      split at h
      · cases h
      · rename_i r after world hwrite
        obtain ⟨mid, hstep, hafter⟩ := hostWrite_step hg hwrite
        obtain ⟨⟨rest, last, ended⟩, hrest, hresult⟩ := Option.map_eq_some_iff.mp h
        cases hresult
        exact .cons hstep (ih hafter hrest)
  exact hrun Push.opened_idle h

end

def threeByteCycle : List HostWrite :=
  [.ctl (targetKey ++ [0x30, 0x32, 0x30, 0x30, 0x30, 0x30, 0x30, 0x30, 0x30, 0x30, 0x30, 0x31, 0x0a]),
    .image 0 [1, 2, 3], .ctl (commitKey ++ [0x0a]), .image 3 [4]]

theorem push_files_three_bytes :
    ∃ g' w', hostWrites (nodePort 512) 512 9 threeByteCycle .idle
        (World.hearing ⟨[2, 0, 0, 0, 0, 1], rfl⟩ ((openReplies 512).map some ++
          [some (frame 119 4 (leBytes 4 3)), none, some (frame 121 5 [])])) = some ([20, 3, 7, -32], g', w') ∧
      Follows false threeByteCycle [20, 3, 7, -32] g'.active := by
  have hret : (hostWrites (nodePort 512) 512 9 threeByteCycle .idle
      (World.hearing ⟨[2, 0, 0, 0, 0, 1], rfl⟩ ((openReplies 512).map some ++
        [some (frame 119 4 (leBytes 4 3)), none, some (frame 121 5 [])]))).map Prod.fst = some [20, 3, 7, -32] := by
    decide +kernel
  obtain ⟨⟨results, g', w'⟩, hrun, rfl⟩ := Option.map_eq_some_iff.mp hret
  exact ⟨g', w', hrun, push_files_follow hrun⟩

end DectMesh.Aether
