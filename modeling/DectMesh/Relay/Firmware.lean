import Mathlib.Data.List.Basic

/-! Image versions: in the header of a streamed image, and in the status text
of the running one. -/
namespace DectMesh.Relay

structure Version where
  major : Nat
  minor : Nat
  rev : Nat
  deriving DecidableEq

/-- The version in an MCUboot header: magic 0x96f3b83d, `ih_ver` at offset 20. -/
def headerVersion (buf : List UInt8) : Option Version :=
  if 28 ≤ buf.length ∧ buf.take 4 = [0x3d, 0xb8, 0xf3, 0x96] then
    some ⟨(buf.getD 20 0).toNat, (buf.getD 21 0).toNat, (buf.getD 22 0).toNat + 256 * (buf.getD 23 0).toNat⟩
  else none

/-! ## `strstr` and `sscanf` -/

def strstr (needle : List UInt8) : List UInt8 → Option (List UInt8)
  | [] => if needle = [] then some [] else none
  | c :: text => if needle.isPrefixOf (c :: text) then some (c :: text) else strstr needle text

def isSpace (c : UInt8) : Bool := c = 0x20 || (0x09 ≤ c && c ≤ 0x0d)

def isDigit (c : UInt8) : Bool := 0x30 ≤ c && c ≤ 0x39

def decimal (ds : List UInt8) : Nat := ds.foldl (fun n d => 10 * n + (d.toNat - 0x30)) 0

def scanDigits (text : List UInt8) : Option (Nat × List UInt8) :=
  if text.takeWhile isDigit = [] then none
  else some (decimal (text.takeWhile isDigit), text.dropWhile isDigit)

/-- `%u`: blanks, a sign and digits, the value as an `unsigned int`. -/
def scanUnsigned (text : List UInt8) : Option (Nat × List UInt8) :=
  match text.dropWhile isSpace with
  | [] => none
  | c :: text =>
      if c = 0x2d then (scanDigits text).map fun (n, left) => ((4294967296 - n % 4294967296) % 4294967296, left)
      else (scanDigits (if c = 0x2b then text else c :: text)).map fun (n, left) => (n % 4294967296, left)

def scanDot : List UInt8 → Option (List UInt8)
  | 0x2e :: text => some text
  | _ => none

/-- `sscanf(text, "%u.%u.%u", ..)`: what is not there stays 0. -/
def scanVersion (text : List UInt8) : Version :=
  match scanUnsigned text with
  | none => ⟨0, 0, 0⟩
  | some (major, text) =>
      match (scanDot text).bind scanUnsigned with
      | none => ⟨major, 0, 0⟩
      | some (minor, text) =>
          match (scanDot text).bind scanUnsigned with
          | none => ⟨major, minor, 0⟩
          | some (rev, _) => ⟨major, minor, rev⟩

/-! ## The status text -/

/-- `"current "` -/
def currentKey : List UInt8 := [0x63, 0x75, 0x72, 0x72, 0x65, 0x6e, 0x74, 0x20]

/-- `"confirmed "` -/
def confirmedKey : List UInt8 := [0x63, 0x6f, 0x6e, 0x66, 0x69, 0x72, 0x6d, 0x65, 0x64, 0x20]

def yes : List UInt8 := [0x79, 0x65, 0x73]

def no : List UInt8 := [0x6e, 0x6f]

def cString (buf : List UInt8) : List UInt8 := buf.takeWhile (· ≠ 0)

def runningVersion (text : List UInt8) : Version :=
  match strstr currentKey text with
  | none => ⟨0, 0, 0⟩
  | some p => scanVersion (p.drop 8)

def runningConfirmed (text : List UInt8) : Bool :=
  match strstr confirmedKey text with
  | none => false
  | some q => (q.drop 10).take 3 = yes

/-! ## What a status text says

`Status.ofText` reads only texts in which everything is there. -/

structure Status where
  version : Version
  confirmed : Bool
  deriving DecidableEq

def readNumber (text : List UInt8) : Option (Nat × List UInt8) :=
  (scanDigits text).bind fun (n, left) => if n < 4294967296 then some (n, left) else none

def readVersion (text : List UInt8) : Option Version :=
  (readNumber text).bind fun (major, text) =>
    ((scanDot text).bind readNumber).bind fun (minor, text) =>
      ((scanDot text).bind readNumber).map fun (rev, _) => ⟨major, minor, rev⟩

def readConfirmed (text : List UInt8) : Option Bool :=
  if text.take 3 = yes then some true else if text.take 2 = no then some false else none

def Status.ofText (text : List UInt8) : Option Status :=
  ((strstr currentKey text).bind fun p => readVersion (p.drop 8)).bind fun version =>
    ((strstr confirmedKey text).bind fun q => readConfirmed (q.drop 10)).map fun confirmed =>
      ⟨version, confirmed⟩

theorem isSpace_of_isDigit {c : UInt8} (h : isDigit c = true) : isSpace c = false := by
  simp only [isDigit, Bool.and_eq_true, decide_eq_true_eq] at h
  simp only [isSpace, Bool.or_eq_false_iff, Bool.and_eq_false_iff, decide_eq_false_iff_not]
  have hlow := UInt8.le_iff_toNat_le.mp h.1
  refine ⟨fun heq => ?_, .inr fun hle => ?_⟩
  · rw [heq] at hlow
    exact absurd hlow (by decide)
  · have hhigh := UInt8.le_iff_toNat_le.mp hle
    change 48 ≤ c.toNat at hlow
    change c.toNat ≤ 13 at hhigh
    omega

theorem scanUnsigned_of_readNumber {text left : List UInt8} {n : Nat}
    (h : readNumber text = some (n, left)) : scanUnsigned text = some (n, left) := by
  unfold readNumber at h
  obtain ⟨⟨m, after⟩, hscan, h⟩ := Option.bind_eq_some_iff.mp h
  dsimp only at h
  split at h
  · rename_i hfits
    cases h
    cases text with
    | nil => exact absurd hscan (by simp [scanDigits])
    | cons c text =>
      have hdigit : isDigit c = true := by
        by_contra hc
        simp [scanDigits, hc] at hscan
      have hspace : (c :: text).dropWhile isSpace = c :: text := by
        rw [List.dropWhile_cons_of_neg]
        rw [isSpace_of_isDigit hdigit]
        decide
      have hminus : c ≠ 0x2d := by
        rintro rfl
        exact absurd hdigit (by decide)
      have hplus : c ≠ 0x2b := by
        rintro rfl
        exact absurd hdigit (by decide)
      unfold scanUnsigned
      rw [hspace]
      simp only [if_neg hminus, if_neg hplus, hscan, Option.map_some, Nat.mod_eq_of_lt hfits]
  · cases h

theorem scanVersion_of_readVersion {text : List UInt8} {v : Version} (h : readVersion text = some v) :
    scanVersion text = v := by
  unfold readVersion at h
  obtain ⟨⟨major, text1⟩, hmajor, h⟩ := Option.bind_eq_some_iff.mp h
  obtain ⟨⟨minor, text2⟩, hminor, h⟩ := Option.bind_eq_some_iff.mp h
  obtain ⟨⟨rev, text3⟩, hrev, h⟩ := Option.map_eq_some_iff.mp h
  obtain ⟨text1', hdot1, hminor⟩ := Option.bind_eq_some_iff.mp hminor
  obtain ⟨text2', hdot2, hrev⟩ := Option.bind_eq_some_iff.mp hrev
  simp only [scanVersion, scanUnsigned_of_readNumber hmajor, hdot1, hdot2, Option.bind_some,
    scanUnsigned_of_readNumber hminor, scanUnsigned_of_readNumber hrev]
  exact h

theorem Status.ofText_read {text : List UInt8} {status : Status} (h : Status.ofText text = some status) :
    runningVersion text = status.version ∧ runningConfirmed text = status.confirmed := by
  unfold Status.ofText at h
  obtain ⟨version, hversion, h⟩ := Option.bind_eq_some_iff.mp h
  obtain ⟨confirmed, hconfirmed, rfl⟩ := Option.map_eq_some_iff.mp h
  obtain ⟨p, hp, hversion⟩ := Option.bind_eq_some_iff.mp hversion
  obtain ⟨q, hq, hconfirmed⟩ := Option.bind_eq_some_iff.mp hconfirmed
  constructor
  · simp only [runningVersion, hp]
    exact scanVersion_of_readVersion hversion
  · simp only [runningConfirmed, hq]
    unfold readConfirmed at hconfirmed
    split at hconfirmed
    · rename_i hyes
      cases hconfirmed
      exact decide_eq_true hyes
    · rename_i hyes
      split at hconfirmed
      · cases hconfirmed
        exact decide_eq_false hyes
      · cases hconfirmed

end DectMesh.Relay
