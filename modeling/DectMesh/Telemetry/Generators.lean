import DectMesh.Aether.Probe
import DectMesh.Dev.Renderers

/-! The telemetry files that ask the mesh, and the buffers of all telemetry
files. A print advances the total by the length of its whole line, and a drain by
what it says. -/
namespace DectMesh.Telemetry

open DectMesh.Lib DectMesh.Aether DectMesh.Dev

/-- The result of a read. `prints` and `drains` are history: each size that was
computed as `buf_size - total`, with the line printed or the drain made there. -/
structure Generated where
  total : Int
  prints : List (Int × List UInt8)
  drains : List (Int × Drained)

def Generated.start : Generated := ⟨0, [], []⟩

/-- `buf_size - total` -/
def Generated.room (bufSize : UInt32) (g : Generated) : Int := bufSize.toNat - g.total

/-- `(int)buf_size - total` -/
def Generated.left (bufSize : UInt32) (g : Generated) : Int := cInt bufSize.toNat - g.total

/-- `total += snprintf(buf + total, buf_size - total, ..)` -/
def Generated.print (bufSize : UInt32) (line : List UInt8) (g : Generated) : Generated :=
  { g with total := g.total + line.length, prints := g.prints ++ [(g.room bufSize, line)] }

def Generated.drain (bufSize : UInt32) (d : Drained) (g : Generated) : Generated :=
  { g with
    total := if 0 < d.total then g.total + d.total else g.total
    drains := g.drains ++ [(g.room bufSize, d)] }

/-- Active, and not the self entry with its null identity. -/
def eligible (nb : Neighbor) : Bool := nb.active && nb.nodeEui ≠ .zero

/-- `" ver=%d att=%d walk=%d open=%d read=%d\n"` -/
def probeResults (p : Probed) : List UInt8 :=
  [0x20, 0x76, 0x65, 0x72, 0x3d] ++ decimalText p.version ++ [0x20, 0x61, 0x74, 0x74, 0x3d] ++
    decimalText p.attach ++ [0x20, 0x77, 0x61, 0x6c, 0x6b, 0x3d] ++ decimalText p.walk ++
    [0x20, 0x6f, 0x70, 0x65, 0x6e, 0x3d] ++ decimalText p.opened ++ [0x20, 0x72, 0x65, 0x61, 0x64, 0x3d] ++
    decimalText p.read ++ [0x0a]

/-- `"PROBE %02x%02x%02x%02x%02x%02x route=%02x%02x%02x%02x%02x%02x(r=%d)"` and the results. -/
def probeLine (peerEui : Addr) (resolved : Int) (p : Probed) : List UInt8 :=
  [0x50, 0x52, 0x4f, 0x42, 0x45, 0x20] ++ hexText peerEui.bytes ++ [0x20, 0x72, 0x6f, 0x75, 0x74, 0x65, 0x3d] ++
    hexText (p.route.getD peerEui).bytes ++ [0x28, 0x72, 0x3d] ++ decimalText resolved ++ [0x29] ++ probeResults p

/-- `"PROBE %02x%02x%02x%02x%02x%02x: conv_alloc FAILED\n"` -/
def probeFailedLine (peerEui : Addr) : List UInt8 :=
  [0x50, 0x52, 0x4f, 0x42, 0x45, 0x20] ++ hexText peerEui.bytes ++
    [0x3a, 0x20, 0x63, 0x6f, 0x6e, 0x76, 0x5f, 0x61, 0x6c, 0x6c, 0x6f, 0x63, 0x20, 0x46, 0x41, 0x49, 0x4c, 0x45, 0x44,
      0x0a]

/-- `"PROBE: no eligible neighbors\n"` -/
def noEligibleLine : List UInt8 :=
  [0x50, 0x52, 0x4f, 0x42, 0x45, 0x3a, 0x20, 0x6e, 0x6f, 0x20, 0x65, 0x6c, 0x69, 0x67, 0x69, 0x62, 0x6c, 0x65, 0x20,
    0x6e, 0x65, 0x69, 0x67, 0x68, 0x62, 0x6f, 0x72, 0x73, 0x0a]

/-- What `aether_net_probe_peer` prints; `error` is what a failed look-up returns. -/
def probeText (peerEui : Addr) (error : Int32) : Option Probed → List UInt8
  | some p => probeLine peerEui (if p.route.isSome then 0 else error.toInt) p
  | none => probeFailedLine peerEui

def checkedCount (c : MeshCtx) : Nat := c.neighbors.countP (·.active)

def eligibleCount (c : MeshCtx) : Nat := c.neighbors.countP eligible

section

variable {σ : Type} (port : Port σ) (maxMsg : Nat)

section

variable (results : Nat → Int32 × Int32) (start : UInt32) (uptime : Nat → UInt32) (bufSize : UInt32)

/-- `uptime i` is the time at entry `i` and `results i` what the drain of this
entry left in `g_drain_sr` and `g_drain_gr`. -/
def meshLoop : List (Neighbor × Nat) → Nat → Generated → σ → Generated × σ
  | [], _, g, w => (g, w)
  | (nb, i) :: rest, drained, g, w =>
      if 3 ≤ drained then (g, w)
      else if eligible nb = false then meshLoop rest drained g w
      else if g.left bufSize < 128 ∨ 10000 < uptime i - start then (g, w)
      else
        match drainPeer port maxMsg nb.nodeEui (g.room bufSize).toNat w with
        | (d, w) =>
          let g := g.drain bufSize d
          if 0 < d.total then meshLoop rest (drained + 1) g w
          else if 64 < g.left bufSize then
            meshLoop rest drained
              (g.print bufSize (dbgLine nb.nodeEui d.total (results i).1.toInt (results i).2.toInt)) w
          else meshLoop rest drained g w

def meshHeader (c : MeshCtx) : Generated :=
  if 48 < bufSize then
    Generated.start.print bufSize (meshdbgLine (checkedCount c) (eligibleCount c) (cInt bufSize.toNat))
  else .start

def genMfltMesh (meshCtx : Option MeshCtx) (offset : Nat) (w : σ) : Generated × σ :=
  match meshCtx with
  | some c =>
      if offset ≠ 0 then (.start, w)
      else meshLoop port maxMsg results start uptime bufSize c.neighbors.zipIdx 0 (meshHeader bufSize c) w
  | none => (.start, w)

end

section

variable (error : Nat → Int32) (bufSize : UInt32)

/-- `error i` is what the look-up at entry `i` returns when it fails. -/
def probeLoop : List (Neighbor × Nat) → Nat → Generated → σ → Nat × Generated × σ
  | [], probed, g, w => (probed, g, w)
  | (nb, i) :: rest, probed, g, w =>
      if 3 ≤ probed then (probed, g, w)
      else if eligible nb = false then probeLoop rest probed g w
      else if g.left bufSize < 96 then (probed, g, w)
      else
        match probePeer port maxMsg nb.nodeEui w with
        | (result, w) => probeLoop rest (probed + 1) (g.print bufSize (probeText nb.nodeEui (error i) result)) w

def genMfltProbe (meshCtx : Option MeshCtx) (offset : Nat) (w : σ) : Generated × σ :=
  match meshCtx with
  | some c =>
      if offset ≠ 0 then (.start, w)
      else
        match probeLoop port maxMsg error bufSize c.neighbors.zipIdx 0 .start w with
        | (probed, g, w) =>
          if probed = 0 ∧ 32 < bufSize then (g.print bufSize noEligibleLine, w) else (g, w)
  | none => (.start, w)

end

end

/-- The result is at most the buffer's size, no size is negative, and every drain
stays within the size that it was given. -/
structure Generated.Respects (bufSize : UInt32) (g : Generated) : Prop where
  total : g.total ≤ bufSize.toNat
  prints : ∀ p ∈ g.prints, 0 ≤ p.1
  drains : ∀ p ∈ g.drains, 0 ≤ p.1 ∧ p.2.Safe p.1.toNat

def Generated.SmallCounts (g : Generated) : Prop := ∀ p ∈ g.drains, p.2.SmallCounts

def HeaderFits (bufSize : UInt32) (c : MeshCtx) : Prop :=
  48 < bufSize → 31 + decimalWidth (checkedCount c) + decimalWidth (eligibleCount c) +
    decimalWidth (cInt bufSize.toNat) ≤ bufSize.toNat

/-! ## How long the lines are -/

theorem length_dectLine (nodeEui : Addr) : (devLine (dectSerial nodeEui)).length = 23 := by
  simp only [devLine, devKey, dectSerial, List.length_append, length_hexText, nodeEui.six, List.length_cons,
    List.length_nil]

theorem length_meshdbgLine (active eligible cap : Int) : (meshdbgLine active eligible cap).length =
    31 + decimalWidth active + decimalWidth eligible + decimalWidth cap := by
  simp only [meshdbgLine, List.length_append, length_decimalText, List.length_cons, List.length_nil]
  omega

theorem length_dbgLine (nodeEui : Addr) (n sr gr : Int) : (dbgLine nodeEui n sr gr).length =
    29 + decimalWidth n + decimalWidth sr + decimalWidth gr := by
  simp only [dbgLine, List.length_append, length_decimalText, length_hexText, nodeEui.six, List.length_cons,
    List.length_nil]
  omega

theorem length_probeResults (p : Probed) : (probeResults p).length =
    29 + decimalWidth p.version + decimalWidth p.attach + decimalWidth p.walk + decimalWidth p.opened +
      decimalWidth p.read := by
  simp only [probeResults, List.length_append, length_decimalText, List.length_cons, List.length_nil]
  omega

theorem length_probeLine (peerEui : Addr) (resolved : Int) (p : Probed) : (probeLine peerEui resolved p).length =
    70 + decimalWidth resolved + decimalWidth p.version + decimalWidth p.attach + decimalWidth p.walk +
      decimalWidth p.opened + decimalWidth p.read := by
  simp only [probeLine, List.length_append, length_decimalText, length_hexText, length_probeResults, peerEui.six,
    (p.route.getD peerEui).six, List.length_cons, List.length_nil]
  omega

theorem length_probeFailedLine (peerEui : Addr) : (probeFailedLine peerEui).length = 38 := by
  simp only [probeFailedLine, List.length_append, length_hexText, peerEui.six, List.length_cons, List.length_nil]

/-! ## The files of the chunks -/

/-- The lines of the chunks never go past the buffer. -/
theorem mfltLoop_total_iff (bufSize : Nat) (pending : List Chunk) (total : Nat) (text : List UInt8) :
    (mfltLoop bufSize pending total text).total ≤ bufSize ↔ total ≤ bufSize := by
  induction pending generalizing total text with
  | nil => rfl
  | cons chunk pending ih =>
    unfold mfltLoop
    split
    · rfl
    · have hline := length_mcLine chunk
      have hint := cInt_le bufSize
      rw [ih]
      constructor <;> intro _ <;> omega

theorem mfltRead_total_iff (serial : Option (List UInt8)) (bufSize offset : Nat) (pending : List Chunk) :
    (mfltRead serial bufSize offset pending).total ≤ bufSize ↔
      (offset = 0 → pending ≠ [] → (serial.elim [] devLine).length ≤ bufSize) := by
  unfold mfltRead
  split
  · rename_i hnothing
    refine iff_of_true (Nat.zero_le bufSize) fun hoffset hpending => ?_
    exact absurd hnothing (not_or.mpr ⟨not_not.mpr hoffset, hpending⟩)
  · rename_i hread
    rw [not_or, not_not] at hread
    rw [mfltLoop_total_iff]
    exact ⟨fun h _ _ => h, fun h => h hread.1 hread.2⟩

theorem genMflt_total_iff (meshCtx : Option Addr) (bufSize offset : Nat) (pending : List Chunk) :
    (genMflt meshCtx bufSize offset pending).total ≤ bufSize ↔
      (offset = 0 → pending ≠ [] → meshCtx ≠ none → 23 ≤ bufSize) := by
  rw [genMflt, mfltRead_total_iff]
  cases meshCtx with
  | none => simp
  | some nodeEui => simp [length_dectLine]

theorem mflt5340Read_total_iff (relaySerial : List UInt8) (bufSize offset : Nat) (pending : List Chunk) :
    (mflt5340Read relaySerial bufSize offset pending).total ≤ bufSize ↔
      (offset = 0 → pending ≠ [] → relaySerial.length + 6 ≤ bufSize) := by
  have hline : (devLine relaySerial).length = relaySerial.length + 6 := by
    simp only [devLine, devKey, List.length_append, List.length_cons, List.length_nil]
    omega
  rw [mflt5340Read, mfltRead_total_iff, Option.elim_some, hline]

/-! ## Prints and drains -/

section

variable {bufSize : UInt32} {g : Generated}

theorem Generated.start_respects : Generated.start.Respects bufSize where
  total := Int.natCast_nonneg _
  prints _ := nofun
  drains _ := nofun

theorem Generated.Respects.print (h : g.Respects bufSize) {line : List UInt8} (hline : line.length ≤ g.room bufSize) :
    (g.print bufSize line).Respects bufSize where
  total := by
    rw [Generated.room] at hline
    show g.total + line.length ≤ bufSize.toNat
    omega
  prints p hp := by
    rcases List.mem_append.mp hp with hp | hp
    · exact h.prints p hp
    · rw [List.mem_singleton.mp hp]
      exact (Int.natCast_nonneg _).trans hline
  drains := h.drains

theorem Generated.Respects.drain (h : g.Respects bufSize) {d : Drained} (hroom : 0 ≤ g.room bufSize)
    (hd : d.Safe (g.room bufSize).toNat) : (g.drain bufSize d).Respects bufSize where
  total := by
    have htotal := hd.2
    have hsize := h.total
    rw [Generated.room] at htotal hroom
    show (if 0 < d.total then g.total + d.total else g.total) ≤ bufSize.toNat
    split <;> omega
  prints := h.prints
  drains p hp := by
    rcases List.mem_append.mp hp with hp | hp
    · exact h.drains p hp
    · rw [List.mem_singleton.mp hp]
      exact ⟨hroom, hd⟩

theorem Generated.SmallCounts.drain (h : g.SmallCounts) {d : Drained} (hd : d.SmallCounts) :
    (g.drain bufSize d).SmallCounts := by
  intro p hp
  rcases List.mem_append.mp hp with hp | hp
  · exact h p hp
  · rw [List.mem_singleton.mp hp]
    exact hd

/-- Where the code finds room, the size is that room, and its sign bit is clear. -/
theorem Generated.left_room {k : Int} (hk : 0 < k) (htotal : 0 ≤ g.total) (h : k ≤ g.left bufSize) :
    k ≤ g.room bufSize ∧ g.room bufSize < 2147483648 := by
  have hsize := bufSize.toNat_lt
  rw [Generated.left] at h
  rw [Generated.room]
  by_cases hsign : bufSize.toNat < 2147483648
  · rw [cInt_of_lt hsign] at h
    omega
  · have hneg := cInt_neg_of_le (Nat.not_lt.mp hsign) hsize
    omega

end

/-! ## What a drain and a probe come to -/

section

variable {σ : Type} {port : Port σ} {maxMsg : Nat}

/-- The result is an `int`, and the drain stays in its buffer exactly if no count
has its sign bit set. -/
theorem drainPeer_bounds (port : Port σ) (maxMsg : Nat) (eui : Addr) {cap : Nat} (w : σ) (hcap : cap < 2147483648) :
    ((drainPeer port maxMsg eui cap w).1.Safe cap ↔ (drainPeer port maxMsg eui cap w).1.SmallCounts) ∧
      -2147483648 ≤ (drainPeer port maxMsg eui cap w).1.total ∧
      (drainPeer port maxMsg eui cap w).1.total < 2147483648 := by
  unfold drainPeer
  split
  · refine ⟨iff_of_true ⟨fun _ h => (nomatch h), ?_⟩ fun _ h => (nomatch h), ?_, ?_⟩
    · show (-28 : Int) ≤ cap
      omega
    · show (-2147483648 : Int) ≤ -28
      decide
    · show (-28 : Int) < 2147483648
      decide
  · exact ⟨drainSession_safe_iff hcap, drainSession_int _ cap _⟩

theorem stepType_width (r : Option (List UInt8)) : decimalWidth (stepType r) ≤ 3 := by
  cases r with
  | none => exact decimalWidth_neg (by decide) (k := 2) (by decide)
  | some rbuf =>
    rw [stepType]
    split
    · have htype := (typeOf rbuf).toNat_lt
      exact decimalWidth_nat (by decide) (Int.natCast_nonneg _) (by omega)
    · exact decimalWidth_nat (by decide) (Int.natCast_nonneg _) (by omega)

theorem probeSteps_width {conv : Slot} {requests : List (List UInt8 × UInt8)} {w : σ} :
    ∀ t ∈ (probeSteps port maxMsg conv requests w).1, decimalWidth t ≤ 3 := by
  have hskipped : decimalWidth (-1) ≤ 3 := stepType_width none
  induction requests generalizing w with
  | nil => exact fun _ ht => nomatch ht
  | cons request rest ih =>
    unfold probeSteps
    split
    split
    · intro t ht
      rcases List.mem_cons.mp ht with rfl | ht
      · exact stepType_width _
      · exact ih t ht
    · intro t ht
      rcases List.mem_cons.mp ht with rfl | ht
      · exact stepType_width _
      · obtain ⟨-, -, rfl⟩ := List.mem_map.mp ht
        exact hskipped

theorem probeCount_width (r : Option (List UInt8)) (hr : ∀ rbuf ∈ r, rbuf.length < 65536) :
    decimalWidth (probeCount r) ≤ 11 := by
  cases r with
  | none => exact decimalWidth_int (by decide) (by decide)
  | some rbuf =>
    have hlen := hr rbuf rfl
    have htype := (typeOf rbuf).toNat_lt
    have hcount := cWrap_int (rreadCount rbuf)
    rw [probeCount]
    split
    · exact decimalWidth_int hcount.1 hcount.2
    · split <;> exact decimalWidth_int (by omega) (by omega)

structure Narrow (p : Probed) : Prop where
  version : decimalWidth p.version ≤ 3
  attach : decimalWidth p.attach ≤ 3
  walk : decimalWidth p.walk ≤ 3
  opened : decimalWidth p.opened ≤ 3
  read : decimalWidth p.read ≤ 11

theorem getD_width {types : List Int} (h : ∀ t ∈ types, decimalWidth t ≤ 3) (i : Nat) :
    decimalWidth (types.getD i (-1)) ≤ 3 := by
  rcases Nat.lt_or_ge i types.length with hi | hi
  · rw [List.getD_eq_getElem _ _ hi]
    exact h _ (List.getElem_mem hi)
  · rw [List.getD_eq_default _ _ hi]
    exact stepType_width none

theorem probeSession_narrow (conv : Slot) (route : Option Addr) (w : σ) :
    Narrow (probeSession port maxMsg conv route w).1 := by
  unfold probeSession
  have htypes := @probeSteps_width σ port maxMsg conv (openRequests maxMsg 1 mfltName 0) w
  split
  rename_i types through w' hsteps
  rw [hsteps] at htypes
  have hread : decimalWidth (-1) ≤ 11 := decimalWidth_int (by decide) (by decide)
  split
  · split
    rename_i r w'' hrpc
    refine ⟨getD_width htypes 0, getD_width htypes 1, getD_width htypes 2, getD_width htypes 3, ?_⟩
    refine probeCount_width r fun rbuf hrbuf => ?_
    rw [Option.mem_def.mp hrbuf] at hrpc
    exact m9Rpc_length hrpc
  · exact ⟨getD_width htypes 0, getD_width htypes 1, getD_width htypes 2, getD_width htypes 3, hread⟩

theorem probePeer_narrow {eui : Addr} {w : σ} {p : Probed} (h : (probePeer port maxMsg eui w).1 = some p) :
    Narrow p := by
  unfold probePeer at h
  split at h
  · cases h
  · cases Option.some.inj h
    exact probeSession_narrow _ _ _

/-- Whatever the peer does, the line of a probe has 96 characters at most if what
the look-up returned has three. -/
theorem length_probeText (port : Port σ) (maxMsg : Nat) (peerEui : Addr) {error : Int32} (w : σ)
    (herror : decimalWidth error.toInt ≤ 3) :
    (probeText peerEui error (probePeer port maxMsg peerEui w).1).length ≤ 96 := by
  cases hprobe : (probePeer port maxMsg peerEui w).1 with
  | none =>
    rw [probeText, length_probeFailedLine]
    decide
  | some p =>
    obtain ⟨hversion, hattach, hwalk, hopened, hread⟩ := probePeer_narrow hprobe
    have hcode : decimalWidth (if p.route.isSome then 0 else error.toInt) ≤ 3 := by
      split
      · exact decimalWidth_nat (by decide) (Int.le_refl 0) (by decide)
      · exact herror
    rw [probeText, length_probeLine]
    omega

end

/-! ## The reads -/

section

variable {σ : Type} {port : Port σ} {maxMsg : Nat} {bufSize : UInt32}

section

variable {results : Nat → Int32 × Int32} {start : UInt32} {uptime : Nat → UInt32}

theorem meshLoop_extends (entries : List (Neighbor × Nat)) (drained : Nat) (g : Generated) (w : σ) :
    g.drains <+: (meshLoop port maxMsg results start uptime bufSize entries drained g w).1.drains := by
  induction entries generalizing drained g w with
  | nil => exact List.prefix_rfl
  | cons entry rest ih =>
    unfold meshLoop
    split
    · exact List.prefix_rfl
    · split
      · exact ih _ _ _
      · split
        · exact List.prefix_rfl
        · split
          rename_i d w' _
          have hdrain (k : Nat) (g' : Generated) (h : g'.drains = (g.drain bufSize d).drains) :
              g.drains <+: (meshLoop port maxMsg results start uptime bufSize rest k g' w').1.drains :=
            (List.prefix_append _ _).trans (h ▸ ih k g' w')
          dsimp only
          split
          · exact hdrain _ _ rfl
          · split <;> exact hdrain _ _ rfl

theorem length_dbgLine_int (nodeEui : Addr) {n : Int} (sr gr : Int32)
    (hn : -2147483648 ≤ n ∧ n < 2147483648) : (dbgLine nodeEui n sr.toInt gr.toInt).length ≤ 62 := by
  have hwidth := decimalWidth_int hn.1 hn.2
  have hsr := decimalWidth_int sr.le_toInt sr.toInt_lt
  have hgr := decimalWidth_int gr.le_toInt gr.toInt_lt
  rw [length_dbgLine]
  omega

theorem meshLoop_spoiled (entries : List (Neighbor × Nat)) (drained : Nat) {g : Generated} (w : σ)
    {size : Int} {d : Drained} (hmem : (size, d) ∈ g.drains) (hpast : ¬ d.Safe size.toNat)
    (hlarge : ¬ d.SmallCounts) :
    (meshLoop port maxMsg results start uptime bufSize entries drained g w).1.Respects bufSize ↔
      (meshLoop port maxMsg results start uptime bufSize entries drained g w).1.SmallCounts := by
  have hstays := (@meshLoop_extends σ port maxMsg bufSize results start uptime entries drained g w).subset hmem
  exact iff_of_false (fun h => hpast (h.drains _ hstays).2) (fun h => hlarge (h _ hstays))

/-- A drain with a count that is too large stays in the history; all else keeps
to the buffer. -/
theorem meshLoop_respects_iff (entries : List (Neighbor × Nat)) (drained : Nat) {g : Generated} (w : σ)
    (hrespects : g.Respects bufSize) (hsmall : g.SmallCounts) (htotal : 0 ≤ g.total) :
    (meshLoop port maxMsg results start uptime bufSize entries drained g w).1.Respects bufSize ↔
      (meshLoop port maxMsg results start uptime bufSize entries drained g w).1.SmallCounts := by
  induction entries generalizing drained g w with
  | nil => exact iff_of_true hrespects hsmall
  | cons entry rest ih =>
    unfold meshLoop
    split
    · exact iff_of_true hrespects hsmall
    split
    · exact ih _ _ hrespects hsmall htotal
    split
    · exact iff_of_true hrespects hsmall
    rename_i hgo
    rw [not_or, Int.not_lt] at hgo
    obtain ⟨hroom, hclear⟩ := Generated.left_room (by decide) htotal hgo.1
    have hbounds := drainPeer_bounds port maxMsg entry.1.nodeEui w
      (show (g.room bufSize).toNat < 2147483648 by omega)
    split
    rename_i d w' hdrain
    rw [hdrain] at hbounds
    obtain ⟨hsafe, hint⟩ := hbounds
    dsimp only at hsafe hint ⊢
    by_cases hcounts : d.SmallCounts
    · have hdrained := hrespects.drain (Int.le_trans (by decide) hroom) (hsafe.mpr hcounts)
      have hmore := @Generated.SmallCounts.drain bufSize g hsmall d hcounts
      have hgrown : 0 ≤ (g.drain bufSize d).total := by
        show 0 ≤ if 0 < d.total then g.total + d.total else g.total
        split <;> omega
      split
      · exact ih _ _ hdrained hmore hgrown
      · split
        · rename_i hline
          obtain ⟨hfits, -⟩ := Generated.left_room (by decide) hgrown (Int.add_one_le_of_lt hline)
          have hlength := length_dbgLine_int entry.1.nodeEui (results entry.2).1 (results entry.2).2 hint
          refine ih _ _ (hdrained.print (by omega)) hmore ?_
          exact Int.add_nonneg hgrown (Int.natCast_nonneg _)
        · exact ih _ _ hdrained hmore hgrown
    · have hmem : (g.room bufSize, d) ∈ (g.drain bufSize d).drains :=
        List.mem_append_right _ (List.mem_singleton_self _)
      have hpast := mt hsafe.mp hcounts
      split
      · exact meshLoop_spoiled _ _ _ hmem hpast hcounts
      · split <;> exact meshLoop_spoiled _ _ _ hmem hpast hcounts

theorem meshLoop_full (entries : List (Neighbor × Nat)) (drained : Nat) {g : Generated} (w : σ)
    (h : g.left bufSize < 128) :
    meshLoop port maxMsg results start uptime bufSize entries drained g w = (g, w) := by
  induction entries generalizing drained with
  | nil => rfl
  | cons entry rest ih =>
    unfold meshLoop
    split
    · rfl
    · split
      · exact ih _
      · rw [if_pos (.inl h)]

theorem meshHeader_total (c : MeshCtx) : 0 ≤ (meshHeader bufSize c).total := by
  unfold meshHeader
  split
  · exact Int.add_nonneg (Int.le_refl 0) (Int.natCast_nonneg _)
  · exact Int.le_refl 0

theorem meshHeader_respects_iff (c : MeshCtx) : (meshHeader bufSize c).Respects bufSize ↔ HeaderFits bufSize c := by
  unfold meshHeader
  split
  · rename_i hsize
    have hlength := length_meshdbgLine (checkedCount c) (eligibleCount c) (cInt bufSize.toNat)
    constructor
    · intro h _
      have htotal : (0 : Int) + (meshdbgLine (checkedCount c) (eligibleCount c) (cInt bufSize.toNat)).length ≤
        bufSize.toNat := h.total
      omega
    · intro h
      have hfits := h hsize
      apply Generated.start_respects.print
      show _ ≤ (bufSize.toNat : Int) - 0
      omega
  · rename_i hsize
    exact iff_of_true Generated.start_respects fun h => absurd h hsize

theorem meshHeader_full {c : MeshCtx} (h : ¬ HeaderFits bufSize c) : (meshHeader bufSize c).left bufSize < 128 := by
  obtain ⟨hsize, hlong⟩ := Classical.not_imp.mp h
  have hlength := length_meshdbgLine (checkedCount c) (eligibleCount c) (cInt bufSize.toNat)
  have hint := cInt_le bufSize.toNat
  rw [meshHeader, if_pos hsize]
  show cInt bufSize.toNat -
    (0 + (meshdbgLine (checkedCount c) (eligibleCount c) (cInt bufSize.toNat)).length : Int) < 128
  omega

theorem meshHeader_small (c : MeshCtx) : (meshHeader bufSize c).SmallCounts := by
  unfold meshHeader
  split <;> exact fun _ => nofun

theorem genMfltMesh_respects_iff (meshCtx : Option MeshCtx) (offset : Nat) (w : σ) :
    (genMfltMesh port maxMsg results start uptime bufSize meshCtx offset w).1.Respects bufSize ↔
      (offset = 0 → ∀ c ∈ meshCtx, HeaderFits bufSize c) ∧
        (genMfltMesh port maxMsg results start uptime bufSize meshCtx offset w).1.SmallCounts := by
  unfold genMfltMesh
  cases meshCtx with
  | none => exact iff_of_true Generated.start_respects ⟨fun _ => nofun, fun _ => nofun⟩
  | some c =>
    dsimp only
    split
    · rename_i hoffset
      exact iff_of_true Generated.start_respects ⟨fun h => absurd h hoffset, fun _ => nofun⟩
    · rename_i hoffset
      by_cases hheader : HeaderFits bufSize c
      · rw [meshLoop_respects_iff _ _ w ((meshHeader_respects_iff c).mpr hheader) (meshHeader_small c)
          (meshHeader_total c)]
        refine ⟨fun h => ⟨fun _ _ hc => ?_, h⟩, fun h => h.2⟩
        cases hc
        exact hheader
      · have hover := mt (meshHeader_respects_iff c).mp hheader
        rw [meshLoop_full _ _ w (meshHeader_full hheader)]
        exact iff_of_false hover fun h => hheader (h.1 (not_not.mp hoffset) c rfl)

end

section

variable {error : Nat → Int32}

theorem probeLoop_none (entries : List (Neighbor × Nat)) (probed : Nat) (g : Generated) (w : σ) :
    probed ≤ (probeLoop port maxMsg error bufSize entries probed g w).1 ∧
      ((probeLoop port maxMsg error bufSize entries probed g w).1 = probed →
        (probeLoop port maxMsg error bufSize entries probed g w).2.1 = g) := by
  induction entries generalizing probed g w with
  | nil => exact ⟨Nat.le_refl _, fun _ => rfl⟩
  | cons entry rest ih =>
    unfold probeLoop
    split
    · exact ⟨Nat.le_refl _, fun _ => rfl⟩
    split
    · exact ih _ _ _
    split
    · exact ⟨Nat.le_refl _, fun _ => rfl⟩
    split
    rename_i result w' _
    have hmore := (ih (probed + 1) (g.print bufSize (probeText entry.1.nodeEui (error entry.2) result)) w').1
    exact ⟨Nat.le_of_succ_le hmore, fun h => absurd h (Nat.ne_of_gt hmore)⟩

theorem probeLoop_respects (herror : ∀ i, decimalWidth (error i).toInt ≤ 3) (entries : List (Neighbor × Nat))
    (probed : Nat) {g : Generated} (w : σ) (hrespects : g.Respects bufSize) (htotal : 0 ≤ g.total) :
    (probeLoop port maxMsg error bufSize entries probed g w).2.1.Respects bufSize := by
  induction entries generalizing probed g w with
  | nil => exact hrespects
  | cons entry rest ih =>
    unfold probeLoop
    split
    · exact hrespects
    split
    · exact ih _ _ hrespects htotal
    split
    · exact hrespects
    rename_i hgo
    obtain ⟨hroom, -⟩ := Generated.left_room (by decide) htotal (Int.not_lt.mp hgo)
    have hlength := length_probeText port maxMsg entry.1.nodeEui w (herror entry.2)
    split
    rename_i result w' hprobe
    rw [hprobe] at hlength
    refine ih _ _ (hrespects.print ?_) (Int.add_nonneg htotal (Int.natCast_nonneg _))
    dsimp only at hlength
    omega

theorem genMfltProbe_respects (herror : ∀ i, decimalWidth (error i).toInt ≤ 3) (meshCtx : Option MeshCtx)
    (offset : Nat) (w : σ) : (genMfltProbe port maxMsg error bufSize meshCtx offset w).1.Respects bufSize := by
  unfold genMfltProbe
  cases meshCtx with
  | none => exact Generated.start_respects
  | some c =>
    dsimp only
    split
    · exact Generated.start_respects
    have hloop := @probeLoop_respects σ port maxMsg bufSize error herror c.neighbors.zipIdx 0 .start w
      Generated.start_respects (Int.le_refl 0)
    have hnone := (@probeLoop_none σ port maxMsg bufSize error c.neighbors.zipIdx 0 .start w).2
    generalize probeLoop port maxMsg error bufSize c.neighbors.zipIdx 0 .start w = result at *
    obtain ⟨probed, g, w'⟩ := result
    dsimp only at hloop hnone ⊢
    split
    · rename_i hempty
      apply hloop.print
      rw [hnone hempty.1]
      show (29 : Int) ≤ bufSize.toNat - 0
      have hsize : (32 : UInt32).toNat < bufSize.toNat := hempty.2
      have hthirty : (32 : UInt32).toNat = 32 := rfl
      omega
    · exact hloop

theorem probeLoop_skips (idle : List (Neighbor × Nat)) (rest : List (Neighbor × Nat)) (g : Generated) (w : σ)
    (h : ∀ entry ∈ idle, eligible entry.1 = false) :
    probeLoop port maxMsg error bufSize (idle ++ rest) 0 g w = probeLoop port maxMsg error bufSize rest 0 g w := by
  induction idle with
  | nil => rfl
  | cons entry idle ih =>
    rw [List.cons_append, probeLoop, if_neg (by decide), if_pos (h entry List.mem_cons_self)]
    exact ih fun later hlater => h later (List.mem_cons_of_mem _ hlater)

end

end

/-! ## A look-up that returns more than three characters -/

def quietNeighbor : Neighbor := ⟨false, .zero, .zero, 0, 0, 0⟩

def farEui (low : UInt8) : Addr := ⟨[2, 0, 0, 0, 0, low], rfl⟩

def farNeighbor : Neighbor := ⟨true, .zero, farEui 1, -71, 18, 0⟩

def farAt (i : Nat) : MeshCtx := ⟨0, true, 0, List.replicate i quietNeighbor ++ [farNeighbor], []⟩

def openingPeer : World :=
  .hearing farNeighbor.nodeEui ((openReplies 512 ++ [frame 117 4 (leBytes 4 0x80000000)]).map some)

theorem openingPeer_probed : (probePeer (nodePort 512) 512 farNeighbor.nodeEui openingPeer).1 =
    some ⟨none, 101, 105, 111, 113, -2147483648⟩ := by
  decide +kernel

/-- The line of this peer does not fit the 96 bytes that the room check wants. -/
theorem probe_line_overruns {error : Nat → Int32} {i : Nat} (h : 3 < decimalWidth (error i).toInt) :
    ¬ (genMfltProbe (nodePort 512) 512 error 96 (some (farAt i)) 0 openingPeer).1.Respects 96 := by
  have hentries : (farAt i).neighbors.zipIdx = (List.replicate i quietNeighbor).zipIdx ++ [(farNeighbor, i)] := by
    rw [farAt, List.zipIdx_append, List.length_replicate, Nat.zero_add]
    rfl
  have hidle : ∀ entry ∈ (List.replicate i quietNeighbor).zipIdx, eligible entry.1 = false := by
    intro entry hentry
    rw [List.eq_of_mem_replicate (List.fst_mem_of_mem_zipIdx hentry)]
    decide
  have hlength := length_probeLine farNeighbor.nodeEui (error i).toInt ⟨none, 101, 105, 111, 113, -2147483648⟩
  have hloop : probeLoop (nodePort 512) 512 error 96 [(farNeighbor, i)] 0 .start openingPeer =
      (1, Generated.start.print 96 (probeText farNeighbor.nodeEui (error i)
        (probePeer (nodePort 512) 512 farNeighbor.nodeEui openingPeer).1),
        (probePeer (nodePort 512) 512 farNeighbor.nodeEui openingPeer).2) := by
    rw [probeLoop, if_neg (by decide), if_neg (by decide), if_neg (by decide)]
    rfl
  rw [openingPeer_probed] at hloop
  have hwidths : decimalWidth 101 = 3 ∧ decimalWidth 105 = 3 ∧ decimalWidth 111 = 3 ∧ decimalWidth 113 = 3 ∧
      decimalWidth (-2147483648) = 11 := by
    decide +kernel
  have hread : (genMfltProbe (nodePort 512) 512 error 96 (some (farAt i)) 0 openingPeer).1 =
      Generated.start.print 96 (probeText farNeighbor.nodeEui (error i)
        (some ⟨none, 101, 105, 111, 113, -2147483648⟩)) := by
    rw [genMfltProbe, hentries]
    dsimp only
    rw [if_neg (not_not_intro rfl), probeLoop_skips _ _ _ _ hidle, hloop]
    dsimp only
    rw [if_neg (not_and.mpr fun h => absurd h (by decide))]
  intro hrespects
  have htotal := hrespects.total
  rw [hread] at htotal
  have hline : (0 : Int) + (probeLine farNeighbor.nodeEui (error i).toInt
    ⟨none, 101, 105, 111, 113, -2147483648⟩).length ≤ 96 := htotal
  dsimp only at hlength
  omega

/-- `gen_mflt` and `mflt5340_read` keep to a buffer exactly if the line that names
the device is not longer; `gen_mflt_mesh` exactly if its header is not and no peer
reports a count with the sign bit set; and `gen_mflt_probe` keeps to every buffer
exactly if no failed look-up returns more than three characters. -/
theorem generators_respect_iff {σ : Type} (port : Port σ) (maxMsg : Nat) (nodeEui : Option Addr)
    (relaySerial : List UInt8) (pending : List Chunk) (results : Nat → Int32 × Int32) (start : UInt32)
    (uptime : Nat → UInt32) (error : Nat → Int32) (meshCtx : Option MeshCtx) (bufSize : UInt32) (offset : Nat)
    (w : σ) :
    ((genMflt nodeEui bufSize.toNat offset pending).total ≤ bufSize.toNat ↔
      (offset = 0 → pending ≠ [] → nodeEui ≠ none → 23 ≤ bufSize.toNat)) ∧
    ((mflt5340Read relaySerial bufSize.toNat offset pending).total ≤ bufSize.toNat ↔
      (offset = 0 → pending ≠ [] → relaySerial.length + 6 ≤ bufSize.toNat)) ∧
    ((genMfltMesh port maxMsg results start uptime bufSize meshCtx offset w).1.Respects bufSize ↔
      (offset = 0 → ∀ c ∈ meshCtx, HeaderFits bufSize c) ∧
        (genMfltMesh port maxMsg results start uptime bufSize meshCtx offset w).1.SmallCounts) ∧
    ((∀ {τ : Type} (port : Port τ) (maxMsg : Nat) (meshCtx : Option MeshCtx) (bufSize : UInt32) (offset : Nat)
      (w : τ), (genMfltProbe port maxMsg error bufSize meshCtx offset w).1.Respects bufSize) ↔
        ∀ i, decimalWidth (error i).toInt ≤ 3) := by
  refine ⟨genMflt_total_iff nodeEui bufSize.toNat offset pending,
    mflt5340Read_total_iff relaySerial bufSize.toNat offset pending, genMfltMesh_respects_iff meshCtx offset w,
    fun h i => ?_, fun h τ port maxMsg meshCtx bufSize offset w => ?_⟩
  · by_contra hlong
    exact probe_line_overruns (Nat.not_le.mp hlong) (h _ _ _ _ _ _)
  · exact genMfltProbe_respects h meshCtx offset w

/-- A read of 10 bytes with a chunk pending returns 23. -/
theorem header_past_buffer : ¬ ∀ (bufSize : UInt32) (pending : List Chunk),
    (genMflt (some .zero) bufSize.toNat 0 pending).total ≤ bufSize.toNat := by
  intro hclaim
  have hread := hclaim 10 [⟨[1], by decide, by decide⟩]
  revert hread
  decide +kernel

end DectMesh.Telemetry
