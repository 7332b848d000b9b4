import DectMesh.Relay.Firmware
import DectMesh.Telemetry.Base64

/-! The host's forwarder: `forward_stream` looks for the next of two keys, takes
what stands before the next colon, and goes on behind it. A key ends with the
colon, so it works field by field. -/
namespace DectMesh.Telemetry

open DectMesh.Relay (strstr cString)

abbrev colon : UInt8 := 0x3a

structure Post where
  serial : List UInt8
  data : List UInt8
  deriving DecidableEq

structure Dev where
  serial : List UInt8
  last : Int
  chunks : UInt32
  active : Bool
  deriving DecidableEq

/-- The locals of `forward_stream`, the table of the devices, and what was posted. -/
structure Forwarding where
  serial : List UInt8
  posted : Nat
  devs : List Dev
  posts : List Post
  deriving DecidableEq

def Dev.seen (now : Int) (d : Dev) : Dev := { d with last := now, chunks := d.chunks + 1, active := true }

/-- `dev_find`, and the entry brought up to date. -/
def devSeen (serial : List UInt8) (now : Int) (devs : List Dev) : List Dev :=
  match devs.findIdx? (·.serial = serial) with
  | some i => devs.modify i (Dev.seen now)
  | none => if devs.length < 64 then devs ++ [Dev.seen now ⟨serial, 0, 0, false⟩] else devs

inductive Key where
  | dev
  | mc
  deriving DecidableEq

def mcName : List UInt8 := [0x4d, 0x43]

def devName : List UInt8 := [0x44, 0x45, 0x56]

/-- The next key, and the text behind it: that of the chunk when it comes first. -/
def nextKey (p : List UInt8) : Option (Key × List UInt8) :=
  match strstr (mcName ++ [colon]) p, strstr (devName ++ [colon]) p with
  | none, none => none
  | some mc, none => some (.mc, mc.drop 3)
  | none, some dev => some (.dev, dev.drop 4)
  | some mc, some dev => if dev.length < mc.length then some (.mc, mc.drop 3) else some (.dev, dev.drop 4)

/-- `strchr(b, ':')`: the text before the colon and the text behind it. -/
def strchrColon (b : List UInt8) : Option (List UInt8 × List UInt8) :=
  if colon ∈ b then some (b.takeWhile (· ≠ colon), (b.dropWhile (· ≠ colon)).drop 1) else none

section

-- what the n-th post returns, and when it does
variable (curl : Nat → Bool) (clock : Nat → Int)

def forwardChunk (b64 : List UInt8) (s : Forwarding) : Forwarding :=
  let raw := b64dec b64 512
  if s.serial = [] ∨ raw = [] then s
  else if curl s.posts.length then
    { s with
      posts := s.posts ++ [⟨s.serial, raw⟩]
      posted := s.posted + 1
      devs := devSeen s.serial (clock s.posts.length) s.devs }
  else { s with posts := s.posts ++ [⟨s.serial, raw⟩] }

def takeField (s : Forwarding) (field : List UInt8) : Key → Forwarding
  | .mc => forwardChunk curl clock field s
  | .dev => { s with serial := field.take 39 }

/-- Each turn of the loop takes bytes off the text, so that its length is enough. -/
def forwardLoop : Nat → List UInt8 → Forwarding → Forwarding
  | 0, _, s => s
  | fuel + 1, p, s =>
      if p = [] then s
      else
        match nextKey p with
        | none => s
        | some (key, b) =>
            match strchrColon b with
            | none => s
            | some (field, p) => forwardLoop fuel p (takeField curl clock s field key)

def forwardText (text : List UInt8) (s : Forwarding) : Forwarding := forwardLoop curl clock text.length text s

def forwardStream (text : List UInt8) (devs : List Dev) : Forwarding :=
  forwardText curl clock (cString text) ⟨[], 0, devs, []⟩

end

/-! ## Fields -/

/-- A needle that ends with the separator stands before a separator's end exactly
when it is the field. -/
theorem prefix_field {sep : UInt8} {key field rest : List UInt8} (hkey : sep ∉ key) (hfield : sep ∉ field) :
    key ++ [sep] <+: field ++ sep :: rest ↔ key = field := by
  induction key generalizing field with
  | nil =>
    cases field with
    | nil => simp
    | cons c field =>
      rw [List.mem_cons, not_or] at hfield
      simp [hfield.1]
  | cons k key ih =>
    rw [List.mem_cons, not_or] at hkey
    cases field with
    | nil => simp [Ne.symm hkey.1]
    | cons c field =>
      rw [List.mem_cons, not_or] at hfield
      rw [List.cons_append, List.cons_append, List.cons_prefix_cons, ih hkey.2 hfield.2, List.cons.injEq]

/-- The first such needle is at the end of the first field or behind it. -/
theorem strstr_field {sep : UInt8} {key field : List UInt8} (hkey : sep ∉ key) (hfield : sep ∉ field)
    (rest : List UInt8) :
    strstr (key ++ [sep]) (field ++ sep :: rest) =
      if key <:+ field then some (key ++ sep :: rest) else strstr (key ++ [sep]) rest := by
  have hstarts : (key ++ [sep]).isPrefixOf (field ++ sep :: rest) = true ↔ key = field :=
    List.isPrefixOf_iff_prefix.trans (prefix_field hkey hfield)
  induction field with
  | nil =>
    rw [List.nil_append] at hstarts ⊢
    rw [strstr]
    by_cases hnil : key = []
    · rw [if_pos (hstarts.mpr hnil), if_pos (List.suffix_nil.mpr hnil), hnil, List.nil_append]
    · rw [if_neg (mt hstarts.mp hnil), if_neg (mt List.suffix_nil.mp hnil)]
  | cons c field ih =>
    rw [List.cons_append] at hstarts ⊢
    rw [List.mem_cons, not_or] at hfield
    rw [strstr]
    by_cases heq : key = c :: field
    · rw [if_pos (hstarts.mpr heq), if_pos (List.suffix_cons_iff.mpr (.inl heq)), heq, List.cons_append]
    · rw [if_neg (mt hstarts.mp heq), ih hfield.2 (List.isPrefixOf_iff_prefix.trans (prefix_field hkey hfield.2))]
      simp only [List.suffix_cons_iff, heq, false_or]

theorem strstr_none {sep : UInt8} {key field : List UInt8} (hfield : sep ∉ field) :
    strstr (key ++ [sep]) field = none := by
  induction field with
  | nil => simp [strstr]
  | cons c field ih =>
    rw [List.mem_cons, not_or] at hfield
    have hnot : ¬ (key ++ [sep]).isPrefixOf (c :: field) = true := by
      intro hstarts
      have hsep : sep ∈ key ++ [sep] := List.mem_append_right key (List.mem_singleton_self sep)
      have hmem := (List.isPrefixOf_iff_prefix.mp hstarts).subset hsep
      simp [hfield] at hmem
    rw [strstr, if_neg hnot, ih hfield.2]

theorem strstr_length {needle text found : List UInt8} (h : strstr needle text = some found) :
    found.length ≤ text.length := by
  induction text with
  | nil =>
    simp only [strstr] at h
    split at h <;> cases h
    exact Nat.le_refl _
  | cons c text ih =>
    simp only [strstr] at h
    split at h
    · cases h
      exact Nat.le_refl _
    · exact (ih h).trans (Nat.le_succ _)

theorem decide_ne_of_not_mem {c : UInt8} {text : List UInt8} (h : c ∉ text) : ∀ x ∈ text, decide (x ≠ c) = true := by
  intro x hx
  rw [decide_eq_true_iff]
  rintro rfl
  exact h hx

theorem strchrColon_field {field : List UInt8} (h : colon ∉ field) (rest : List UInt8) :
    strchrColon (field ++ colon :: rest) = some (field, rest) := by
  have hne := decide_ne_of_not_mem h
  rw [strchrColon, if_pos (by simp), List.takeWhile_append_of_pos hne, List.dropWhile_append_of_pos hne]
  simp

theorem strchrColon_length {b field rest : List UInt8} (h : strchrColon b = some (field, rest)) :
    rest.length < b.length := by
  unfold strchrColon at h
  split at h
  · rename_i hmem
    cases h
    have hb := List.length_pos_of_mem hmem
    have hdrop := (List.dropWhile_suffix (l := b) fun c => decide (c ≠ colon)).length_le
    rw [List.length_drop]
    omega
  · cases h

/-! ## Keys -/

theorem not_devName {field : List UInt8} (h : mcName <:+ field) : ¬ devName <:+ field := by
  intro hdev
  have hsuffix : mcName <:+ devName := List.suffix_of_suffix_length_le h hdev (by decide)
  exact absurd hsuffix (by decide)

theorem nextKey_mc {field : List UInt8} (hfield : colon ∉ field) (h : mcName <:+ field) (rest : List UInt8) :
    nextKey (field ++ colon :: rest) = some (.mc, rest) := by
  rw [nextKey, strstr_field (by decide) hfield, if_pos h, strstr_field (by decide) hfield, if_neg (not_devName h)]
  cases hdev : strstr (devName ++ [colon]) rest with
  | none => rfl
  | some dev =>
    have hlen := strstr_length hdev
    dsimp only
    rw [if_pos (by simp [mcName]; omega)]
    rfl

theorem nextKey_dev {field : List UInt8} (hfield : colon ∉ field) (h : devName <:+ field) (rest : List UInt8) :
    nextKey (field ++ colon :: rest) = some (.dev, rest) := by
  rw [nextKey, strstr_field (by decide) hfield, if_neg (fun hmc => not_devName hmc h),
    strstr_field (by decide) hfield, if_pos h]
  cases hmc : strstr (mcName ++ [colon]) rest with
  | none => rfl
  | some mc =>
    have hlen := strstr_length hmc
    dsimp only
    rw [if_neg (by simp [devName]; omega)]
    rfl

theorem nextKey_skip {field : List UInt8} (hfield : colon ∉ field) (hmc : ¬ mcName <:+ field)
    (hdev : ¬ devName <:+ field) (rest : List UInt8) : nextKey (field ++ colon :: rest) = nextKey rest := by
  rw [nextKey, strstr_field (by decide) hfield, if_neg hmc, strstr_field (by decide) hfield, if_neg hdev]
  rfl

theorem nextKey_none {field : List UInt8} (hfield : colon ∉ field) : nextKey field = none := by
  rw [nextKey, strstr_none hfield, strstr_none hfield]

theorem nextKey_length {p b : List UInt8} {key : Key} (h : nextKey p = some (key, b)) : b.length ≤ p.length := by
  unfold nextKey at h
  split at h
  · cases h
  · rename_i mc hmc _
    cases h
    exact (List.drop_suffix 3 mc).length_le.trans (strstr_length hmc)
  · rename_i dev _ hdev
    cases h
    exact (List.drop_suffix 4 dev).length_le.trans (strstr_length hdev)
  · rename_i mc dev hmc hdev
    split at h
    · cases h
      exact (List.drop_suffix 3 mc).length_le.trans (strstr_length hmc)
    · cases h
      exact (List.drop_suffix 4 dev).length_le.trans (strstr_length hdev)

/-! ## The loop on fields -/

section

variable (curl : Nat → Bool) (clock : Nat → Int)

theorem forwardLoop_nil (fuel : Nat) (s : Forwarding) : forwardLoop curl clock fuel [] s = s := by
  cases fuel with
  | zero => rfl
  | succ fuel => rw [forwardLoop, if_pos rfl]

theorem forwardLoop_enough {fuel more : Nat} {p : List UInt8} (s : Forwarding) (hfuel : p.length ≤ fuel)
    (hmore : p.length ≤ more) : forwardLoop curl clock fuel p s = forwardLoop curl clock more p s := by
  induction fuel generalizing more p s with
  | zero => rw [List.length_eq_zero_iff.mp (Nat.le_zero.mp hfuel), forwardLoop_nil, forwardLoop_nil]
  | succ fuel ih =>
    cases more with
    | zero => rw [List.length_eq_zero_iff.mp (Nat.le_zero.mp hmore), forwardLoop_nil, forwardLoop_nil]
    | succ more =>
      unfold forwardLoop
      cases hkey : nextKey p with
      | none => rfl
      | some found =>
        obtain ⟨key, b⟩ := found
        cases hfield : strchrColon b with
        | none => simp only [hfield]
        | some split =>
          obtain ⟨field, rest⟩ := split
          have hb := nextKey_length hkey
          have hrest := strchrColon_length hfield
          have hnext := ih (takeField curl clock s field key) (show rest.length ≤ fuel by omega)
            (show rest.length ≤ more by omega)
          simp only [hfield, hnext]

theorem forwardText_eq (p : List UInt8) (s : Forwarding) :
    forwardText curl clock p s =
      match nextKey p with
      | none => s
      | some (key, b) =>
          match strchrColon b with
          | none => s
          | some (field, rest) => forwardText curl clock rest (takeField curl clock s field key) := by
  unfold forwardText
  cases p with
  | nil => rfl
  | cons c p =>
    rw [List.length_cons, forwardLoop, if_neg (List.cons_ne_nil c p)]
    cases hkey : nextKey (c :: p) with
    | none => rfl
    | some found =>
      obtain ⟨key, b⟩ := found
      cases hfield : strchrColon b with
      | none => simp only [hfield]
      | some split =>
        obtain ⟨field, rest⟩ := split
        have hb := nextKey_length hkey
        have hrest := strchrColon_length hfield
        rw [List.length_cons] at hb
        simp only [hfield]
        exact forwardLoop_enough curl clock _ (by omega) (Nat.le_refl _)

theorem forwardText_last {field : List UInt8} (hfield : colon ∉ field) (s : Forwarding) :
    forwardText curl clock field s = s := by
  rw [forwardText_eq, nextKey_none hfield]

theorem forwardText_skip {field : List UInt8} (hfield : colon ∉ field) (hmc : ¬ mcName <:+ field)
    (hdev : ¬ devName <:+ field) (rest : List UInt8) (s : Forwarding) :
    forwardText curl clock (field ++ colon :: rest) s = forwardText curl clock rest s := by
  rw [forwardText_eq, nextKey_skip hfield hmc hdev, ← forwardText_eq]

theorem forwardText_dev {before serial : List UInt8} (hbefore : colon ∉ before) (hserial : colon ∉ serial)
    (rest : List UInt8) (s : Forwarding) :
    forwardText curl clock (before ++ devName ++ colon :: (serial ++ colon :: rest)) s =
      forwardText curl clock rest { s with serial := serial.take 39 } := by
  have hfield : colon ∉ before ++ devName := mt List.mem_append.mp (not_or.mpr ⟨hbefore, by decide⟩)
  rw [forwardText_eq, nextKey_dev hfield (List.suffix_append _ _)]
  simp only [strchrColon_field hserial, takeField]

theorem forwardText_mc {before b64 : List UInt8} (hbefore : colon ∉ before) (hb64 : colon ∉ b64)
    (rest : List UInt8) (s : Forwarding) :
    forwardText curl clock (before ++ mcName ++ colon :: (b64 ++ colon :: rest)) s =
      forwardText curl clock rest (forwardChunk curl clock b64 s) := by
  have hfield : colon ∉ before ++ mcName := mt List.mem_append.mp (not_or.mpr ⟨hbefore, by decide⟩)
  rw [forwardText_eq, nextKey_mc hfield (List.suffix_append _ _)]
  simp only [strchrColon_field hb64, takeField]

end

end DectMesh.Telemetry
