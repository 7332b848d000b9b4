import DectMesh.Telemetry.Forwarder
import DectMesh.Telemetry.Stream

/-! From the packetizers of the devices to the posts of the forwarder: every chunk
that a read took is posted as it was, under the device that it came from. -/
namespace DectMesh.Telemetry

open DectMesh.Aether DectMesh.Relay

/-- Who writes a stream: a mesh node, or the relay under the name it was given. -/
inductive Device where
  | mesh (nodeEui : Addr)
  | relay (serial : Serial)
  deriving DecidableEq

def Device.serial : Device → Serial
  | .mesh nodeEui => meshSerial nodeEui
  | .relay serial => serial

def Device.read : Device → Nat → Nat → List Chunk → MfltRead
  | .mesh nodeEui => genMflt (some nodeEui)
  | .relay serial => mflt5340Read serial.text

/-- The line that names the device fits, with the end that `snprintf` puts. -/
def Device.HasRoom (device : Device) (bufSize : Nat) : Prop := (devLine device.serial.text).length < bufSize

instance (device : Device) (bufSize : Nat) : Decidable (device.HasRoom bufSize) := inferInstanceAs (Decidable (_ < _))

/-- A part of the text that the forwarder reads: a device's stream, or a line of
`gen_mflt_mesh` itself. -/
inductive Segment where
  | stream (device : Device) (bufSize offset : Nat) (pending : List Chunk)
  | meshdbg (active eligible cap : Int)
  | dbg (nodeEui : Addr) (n sr gr : Int)
  deriving DecidableEq

def Segment.text : Segment → List UInt8
  | .stream device bufSize offset pending => (device.read bufSize offset pending).text
  | .meshdbg active eligible cap => meshdbgLine active eligible cap
  | .dbg nodeEui n sr gr => dbgLine nodeEui n sr gr

def Segment.HasRoom : Segment → Prop
  | .stream device bufSize _ _ => device.HasRoom bufSize
  | .meshdbg .. | .dbg .. => True

instance : (segment : Segment) → Decidable segment.HasRoom
  | .stream device bufSize _ _ => inferInstanceAs (Decidable (device.HasRoom bufSize))
  | .meshdbg .. | .dbg .. => inferInstanceAs (Decidable True)

/-- The chunks that are no longer pending after the read. -/
def MfltRead.taken (r : MfltRead) (pending : List Chunk) : List Chunk :=
  pending.take (pending.length - r.pending.length)

structure MfltRead.Whole (r : MfltRead) (serial : List UInt8) (bufSize offset : Nat) (pending : List Chunk) :
    Prop where
  taken : r.taken pending ++ r.pending = pending
  text : r.text = (if offset = 0 ∧ pending ≠ [] then devLine serial else []) ++ (r.taken pending).flatMap mcLine
  total : r.total = r.text.length
  fits : r.total ≤ bufSize

def Segment.Whole : Segment → Prop
  | .stream device bufSize offset pending =>
      (device.read bufSize offset pending).Whole device.serial.text bufSize offset pending
  | .meshdbg .. | .dbg .. => True

def Segment.posts : Segment → List Post
  | .stream device bufSize offset pending =>
      ((device.read bufSize offset pending).taken pending).map fun chunk => ⟨device.serial.text, chunk.bytes⟩
  | .meshdbg .. | .dbg .. => []

/-! ## Reads -/

theorem Device.read_eq (device : Device) (bufSize offset : Nat) (pending : List Chunk) :
    device.read bufSize offset pending = mfltRead (some device.serial.text) bufSize offset pending := by
  cases device <;> rfl

theorem taken_append {taken left : List Chunk} {total : Nat} {text : List UInt8} :
    MfltRead.taken ⟨total, text, left⟩ (taken ++ left) = taken := by
  rw [MfltRead.taken, List.length_append, Nat.add_sub_cancel, List.take_left]

theorem Device.read_takes {device : Device} {bufSize : Nat} (h : device.HasRoom bufSize) (offset : Nat)
    (pending : List Chunk) :
    ((device.read bufSize offset pending = ⟨0, [], pending⟩) ∧ ¬ (offset = 0 ∧ pending ≠ [])) ∨
      ∃ taken left text, pending = taken ++ left ∧ text = devLine device.serial.text ++ taken.flatMap mcLine ∧
        device.read bufSize offset pending = ⟨text.length, text, left⟩ ∧ text.length ≤ bufSize ∧
        offset = 0 ∧ pending ≠ [] := by
  rw [Device.read_eq, mfltRead]
  split
  · rename_i hnothing
    exact .inl ⟨rfl, by tauto⟩
  · rename_i hpending
    rw [not_or, not_not] at hpending
    have hline : (devLine device.serial.text).take (bufSize - 1) = devLine device.serial.text :=
      List.take_of_length_le (Nat.le_sub_one_of_lt h)
    obtain ⟨taken, htaken, htext, htotal, hfits⟩ := mfltLoop_takes bufSize pending (Nat.le_of_lt h)
    dsimp only [Option.elim]
    rw [hline]
    generalize mfltLoop bufSize pending (devLine device.serial.text).length (devLine device.serial.text) = r at *
    obtain ⟨total, text, left⟩ := r
    dsimp only at htaken htext htotal hfits
    subst htotal
    exact .inr ⟨taken, left, text, htaken, htext, rfl, hfits, hpending⟩

theorem whole {segment : Segment} (h : segment.HasRoom) : segment.Whole := by
  cases segment with
  | stream device bufSize offset pending =>
    show MfltRead.Whole _ _ _ _ _
    rcases Device.read_takes h offset pending with
      ⟨hread, hnothing⟩ | ⟨taken, left, text, rfl, htext, hread, hfits, hsome⟩
    · rw [hread]
      exact ⟨by simp [MfltRead.taken], by simp [MfltRead.taken, hnothing], rfl, Nat.zero_le _⟩
    · rw [hread]
      refine ⟨by rw [taken_append], ?_, rfl, hfits⟩
      rw [taken_append, if_pos hsome]
      exact htext
  | meshdbg active eligible cap => trivial
  | dbg nodeEui n sr gr => trivial

/-! ## Texts -/

theorem Clean.zero_not_mem {text : List UInt8} (h : Clean text) : 0 ∉ text :=
  fun hmem => (h _ hmem).2 rfl

theorem devLine_noZero (serial : Serial) : 0 ∉ devLine serial.text := by
  simp [devLine, devKey, serial.clean.zero_not_mem]

theorem mcLine_noZero (chunk : Chunk) : 0 ∉ mcLine chunk := by
  simp [mcLine, mcKey, (b64enc_isClean chunk.bytes).zero_not_mem]

theorem Segment.text_noZero {segment : Segment} (h : segment.HasRoom) : 0 ∉ segment.text := by
  cases segment with
  | stream device bufSize offset pending =>
    show 0 ∉ (device.read bufSize offset pending).text
    rcases Device.read_takes h offset pending with ⟨hread, -⟩ | ⟨taken, left, text, -, htext, hread, -, -⟩
    · rw [hread]
      exact List.not_mem_nil
    · rw [hread, htext, List.mem_append, not_or]
      refine ⟨devLine_noZero device.serial, ?_⟩
      simp [mcLine_noZero]
  | meshdbg active eligible cap => exact (meshdbgLine_clean active eligible cap).zero_not_mem
  | dbg nodeEui n sr gr =>
    simp [Segment.text, dbgLine, (hexText_clean nodeEui.bytes).zero_not_mem, (decimalText_clean _).zero_not_mem]

theorem cString_append {text : List UInt8} (h : 0 ∉ text) (after : List UInt8) :
    cString (text ++ 0 :: after) = text := by
  rw [cString, List.takeWhile_append_of_pos (decide_ne_of_not_mem h)]
  simp

/-! ## Posts -/

section

variable (curl : Nat → Bool) (clock : Nat → Int)

theorem forwardChunk_posts (chunk : Chunk) {s : Forwarding} (h : s.serial ≠ []) :
    (forwardChunk curl clock (b64enc chunk.bytes) s).posts = s.posts ++ [⟨s.serial, chunk.bytes⟩] ∧
      (forwardChunk curl clock (b64enc chunk.bytes) s).serial = s.serial := by
  have hraw : b64dec (b64enc chunk.bytes) 512 = chunk.bytes := b64dec_b64enc (chunk.short.trans (by decide))
  have hposts : ¬ (s.serial = [] ∨ chunk.bytes = []) := not_or.mpr ⟨h, chunk.nonempty⟩
  rw [forwardChunk, hraw, if_neg hposts]
  split <;> exact ⟨rfl, rfl⟩

theorem forwardText_chunks (chunks : List Chunk) {s : Forwarding} (h : s.serial ≠ []) :
    ∃ s', (∀ rest, forwardText curl clock ([0x0a] ++ (chunks.flatMap mcLine ++ rest)) s =
        forwardText curl clock ([0x0a] ++ rest) s') ∧
      s'.posts = s.posts ++ chunks.map (fun chunk => ⟨s.serial, chunk.bytes⟩) := by
  induction chunks generalizing s with
  | nil => exact ⟨s, fun _ => rfl, by simp⟩
  | cons chunk chunks ih =>
    obtain ⟨hposts, hserial⟩ := forwardChunk_posts curl clock chunk h
    obtain ⟨s', hrest, hall⟩ := ih (hserial ▸ h)
    refine ⟨s', fun rest => ?_, ?_⟩
    · have hline : [0x0a] ++ ((chunk :: chunks).flatMap mcLine ++ rest) =
          [0x0a] ++ mcName ++ colon ::
            (b64enc chunk.bytes ++ colon :: ([0x0a] ++ (chunks.flatMap mcLine ++ rest))) := by
        simp [mcLine, mcKey, mcName]
      rw [hline, forwardText_mc curl clock (by decide) (b64enc_isClean chunk.bytes).not_mem, hrest]
    · rw [hall, hposts, hserial, List.map_cons, List.append_assoc, List.singleton_append]

theorem forwardText_stream (device : Device) (chunks : List Chunk) {before : List UInt8} (hbefore : colon ∉ before)
    (s : Forwarding) :
    ∃ s', (∀ rest, forwardText curl clock
          (before ++ (devLine device.serial.text ++ chunks.flatMap mcLine ++ rest)) s =
        forwardText curl clock ([0x0a] ++ rest) s') ∧
      s'.posts = s.posts ++ chunks.map (fun chunk => ⟨device.serial.text, chunk.bytes⟩) := by
  have hnamed : Forwarding.serial { s with serial := device.serial.text } ≠ [] := device.serial.nonempty
  obtain ⟨s', hrest, hposts⟩ := forwardText_chunks curl clock chunks hnamed
  refine ⟨s', fun rest => ?_, hposts⟩
  have hline : before ++ (devLine device.serial.text ++ chunks.flatMap mcLine ++ rest) =
      before ++ devName ++ colon :: (device.serial.text ++ colon :: ([0x0a] ++ (chunks.flatMap mcLine ++ rest))) := by
    simp [devLine, devKey, devName]
  rw [hline, forwardText_dev curl clock hbefore device.serial.clean.not_mem,
    List.take_of_length_le device.serial.short, hrest]

theorem hexText_last {bytes : List UInt8} (h : bytes ≠ []) :
    ∃ high d, d < 16 ∧ hexText bytes = high ++ [hexDigit d] := by
  obtain ⟨front, last, rfl⟩ := List.eq_nil_or_concat bytes |>.resolve_left h
  refine ⟨hexText front ++ [hexDigit (last.toNat / 16)], last.toNat % 16, Nat.mod_lt _ (by decide), ?_⟩
  simp [hexText]

theorem not_key_hexDigit {d : Nat} (h : d < 16) (before : List UInt8) :
    ¬ mcName <:+ before ++ [hexDigit d] ∧ ¬ devName <:+ before ++ [hexDigit d] := by
  have hdigit : hexDigit d ≠ 0x43 ∧ hexDigit d ≠ 0x56 := by
    revert d
    decide
  constructor
  · rintro ⟨front, heq⟩
    have hlast := congrArg List.getLast? heq
    simp [mcName] at hlast
    exact hdigit.1 hlast.symm
  · rintro ⟨front, heq⟩
    have hlast := congrArg List.getLast? heq
    simp [devName] at hlast
    exact hdigit.2 hlast.symm

/-- One segment, behind a text without a colon and before any other text. -/
theorem forwardText_segment {segment : Segment} (h : segment.HasRoom) {before : List UInt8}
    (hbefore : colon ∉ before) (s : Forwarding) :
    ∃ between s', colon ∉ between ∧
      (∀ rest, forwardText curl clock (before ++ (segment.text ++ rest)) s =
        forwardText curl clock (between ++ rest) s') ∧
      s'.posts = s.posts ++ segment.posts := by
  cases segment with
  | stream device bufSize offset pending =>
    rcases Device.read_takes h offset pending with ⟨hread, -⟩ | ⟨taken, left, text, hpending, htext, hread, -, -⟩
    · refine ⟨before, s, hbefore, fun rest => ?_, ?_⟩
      · rw [Segment.text, hread, List.nil_append]
      · simp [Segment.posts, hread, MfltRead.taken]
    · obtain ⟨s', hrest, hposts⟩ := forwardText_stream curl clock device taken hbefore s
      refine ⟨[0x0a], s', by decide, fun rest => ?_, ?_⟩
      · rw [Segment.text, hread, htext, hrest]
      · rw [hposts, Segment.posts, hread, hpending, taken_append]
  | meshdbg active eligible cap =>
    refine ⟨before ++ meshdbgLine active eligible cap, s, ?_, fun rest => ?_, (List.append_nil _).symm⟩
    · exact mt List.mem_append.mp (not_or.mpr ⟨hbefore, (meshdbgLine_clean active eligible cap).not_mem⟩)
    · rw [Segment.text, List.append_assoc]
  | dbg nodeEui n sr gr =>
    -- the line up to its colon is a field without a key, and the rest of it has no colon
    have hbytes : nodeEui.bytes ≠ [] := by
      apply List.ne_nil_of_length_pos
      rw [nodeEui.six]
      decide
    obtain ⟨high, d, hd, hhex⟩ := hexText_last hbytes
    have hfield : colon ∉ before ++ [0x44, 0x42, 0x47, 0x20] ++ hexText nodeEui.bytes := by
      have hname : colon ∉ [0x44, 0x42, 0x47, 0x20] ++ hexText nodeEui.bytes := by
        apply Clean.not_mem
        simp
      rw [List.append_assoc]
      exact mt List.mem_append.mp (not_or.mpr ⟨hbefore, hname⟩)
    have hkey := not_key_hexDigit hd (before ++ [0x44, 0x42, 0x47, 0x20] ++ high)
    rw [List.append_assoc, ← hhex] at hkey
    let between := [0x20, 0x6e, 0x3d] ++ decimalText n ++ [0x20, 0x73, 0x72, 0x3d] ++ decimalText sr ++
      [0x20, 0x67, 0x72, 0x3d] ++ decimalText gr ++ [0x0a]
    refine ⟨between, s, ?_, fun rest => ?_, (List.append_nil _).symm⟩
    · apply Clean.not_mem
      simp [between]
    · have hline : before ++ ((Segment.dbg nodeEui n sr gr).text ++ rest) =
          before ++ [0x44, 0x42, 0x47, 0x20] ++ hexText nodeEui.bytes ++ colon :: (between ++ rest) := by
        simp [Segment.text, dbgLine, between]
      rw [hline, forwardText_skip curl clock hfield hkey.1 hkey.2]

theorem forwardText_segments (segments : List Segment) (h : ∀ segment ∈ segments, segment.HasRoom)
    {before : List UInt8} (hbefore : colon ∉ before) (s : Forwarding) :
    (forwardText curl clock (before ++ segments.flatMap Segment.text) s).posts =
      s.posts ++ segments.flatMap Segment.posts := by
  induction segments generalizing before s with
  | nil =>
    rw [List.flatMap_nil, List.append_nil, forwardText_last curl clock hbefore, List.flatMap_nil, List.append_nil]
  | cons segment segments ih =>
    rw [List.forall_mem_cons] at h
    obtain ⟨between, s', hbetween, hrest, hposts⟩ := forwardText_segment curl clock h.1 hbefore s
    rw [List.flatMap_cons, hrest, ih h.2 hbetween, hposts, List.flatMap_cons, List.append_assoc]

theorem forwardStream_segments (devs : List Dev) (segments : List Segment) (after : List UInt8)
    (h : ∀ segment ∈ segments, segment.HasRoom) :
    (forwardStream curl clock (segments.flatMap Segment.text ++ 0 :: after) devs).posts =
      segments.flatMap Segment.posts := by
  have hzero : 0 ∉ segments.flatMap Segment.text := by
    intro hmem
    obtain ⟨segment, hsegment, hin⟩ := List.mem_flatMap.mp hmem
    exact Segment.text_noZero (h segment hsegment) hin
  rw [forwardStream, cString_append hzero]
  exact forwardText_segments curl clock segments h List.not_mem_nil _

/-- Each read takes the first of the chunks and writes them whole, and of any
streams one behind the other the forwarder posts their chunks as they were. -/
theorem telemetry_round_trip (devs : List Dev) (segments : List Segment) (after : List UInt8)
    (h : ∀ segment ∈ segments, segment.HasRoom) :
    (∀ segment ∈ segments, segment.Whole) ∧
      (forwardStream curl clock (segments.flatMap Segment.text ++ 0 :: after) devs).posts =
        segments.flatMap Segment.posts :=
  ⟨fun segment hsegment => whole (h segment hsegment), forwardStream_segments curl clock devs segments after h⟩

end

theorem telemetry_round_trip_two_devices :
    let node : Addr := ⟨[2, 0, 0, 0, 0, 9], rfl⟩
    let relay : Serial := ⟨[0x4d, 0x43], by decide, by decide, by decide⟩
    let chunk : Chunk := ⟨[0x30, 0xff], by decide, by decide⟩
    let segments : List Segment :=
      [.meshdbg 1 1 600, .stream (.mesh node) 600 0 [chunk], .dbg node (-28) (-99) 0,
        .stream (.relay relay) 300 0 [chunk]]
    (forwardStream (fun _ => true) (fun _ => 0) (segments.flatMap Segment.text ++ [0]) []).posts =
      [⟨dectSerial node, chunk.bytes⟩, ⟨relay.text, chunk.bytes⟩] := by
  intro node relay chunk segments
  have hposts := (telemetry_round_trip (fun _ => true) (fun _ => 0) [] segments [] (by decide +kernel)).2
  exact hposts.trans (by decide +kernel)

end DectMesh.Telemetry
