import DectMesh.Aether.MeshClient
import Mathlib.Logic.Relation

/-! The forwarder's calls on its serial port. The gateway answers requests in
order, into one stream of bytes; a call takes the next frame of the stream for
the reply to its request. -/
namespace DectMesh.Telemetry

open DectMesh.Lib
open DectMesh.Aether (frame str protoVersion)

/-! ## The port -/

def msize : Nat := 8192

structure GatewayReply where
  bytes : List UInt8
  long : 7 ≤ bytes.length
  fits : bytes.length ≤ msize
  sized : leNat (bytes.take 4) = bytes.length

/-- What comes in while a read waits: so many bytes before its deadline, or
before the port fails. -/
structure Arrival where
  bytes : Nat
  failed : Bool

structure GatewayTurn where
  written : Bool
  reply : GatewayReply
  hdr : Arrival
  body : Arrival

/-- History of a call whose request was written: the bytes of earlier replies
that had not been read, the reply, and the frame it returned with. Bytes carry
the number of the request they answer. -/
structure RpcCall where
  outstanding : List (Nat × UInt8)
  own : List (Nat × UInt8)
  taken : Option (List (Nat × UInt8))

/-- The bytes of replies that have not been read, whether they have come in or
are still to come. `turns` is what lies ahead. -/
structure SerialPort where
  pipe : List (Nat × UInt8)
  mbuf : List UInt8
  turns : List GatewayTurn
  calls : List RpcCall

/-- `open_serial` flushes the port. -/
def SerialPort.opened (mbuf : List UInt8) (turns : List GatewayTurn) : SerialPort := ⟨[], mbuf, turns, []⟩

def overlay (bytes mbuf : List UInt8) : List UInt8 := bytes ++ mbuf.drop bytes.length

/-- `readn_to`: a negative result unless all bytes came, the bytes that came,
and the stream behind them. -2 is `RC_TIMEOUT` and -1 `RC_ERR`. -/
def readnTo (n : Nat) (arrival : Arrival) (pipe : List (Nat × UInt8)) :
    Option Int × List (Nat × UInt8) × List (Nat × UInt8) :=
  let got := pipe.take (min n arrival.bytes)
  (if got.length = n then none else some (if arrival.failed then -1 else -2), got, pipe.drop got.length)

def plain (bytes : List (Nat × UInt8)) : List UInt8 := bytes.map Prod.snd

/-- `rpc_to` behind its write: the result, `mbuf`, the stream, and the frame if
the result is a type. -/
def receive (turn : GatewayTurn) (mbuf : List UInt8) (pipe : List (Nat × UInt8)) :
    Int × List UInt8 × List (Nat × UInt8) × Option (List (Nat × UInt8)) :=
  match readnTo 4 turn.hdr pipe with
  | (some rc, _, pipe) => (rc, mbuf, pipe, none)
  | (none, hdr, pipe) =>
      let sz := leNat (plain hdr)
      if sz < 7 ∨ msize < sz then (-1, mbuf, pipe, none)
      else
        match readnTo (sz - 4) turn.body pipe with
        | (some rc, got, pipe) => (rc, overlay (plain got) mbuf, pipe, none)
        | (none, body, pipe) => (((plain body).getD 0 0).toNat, overlay (plain body) mbuf, pipe, some (hdr ++ body))

def rpcTo (request : List UInt8) (s : SerialPort) : Int × SerialPort :=
  match s.turns with
  | [] => (-1, s)
  | turn :: turns =>
      let mbuf := overlay request s.mbuf
      if turn.written then
        let own := turn.reply.bytes.map fun b => (s.calls.length, b)
        match receive turn mbuf (s.pipe ++ own) with
        | (rc, mbuf, pipe, taken) => (rc, ⟨pipe, mbuf, turns, s.calls ++ [⟨s.pipe, own, taken⟩]⟩)
      else (-1, { s with mbuf := mbuf, turns := turns })

/-! ## The operations -/

/-- 0 if the reply has the type, a negative result as it is, else -3. -/
def expect (type : Int) (t : Int) : Int := if t < 0 then t else if t = type then 0 else -3

def doVersion (s : SerialPort) : Int × SerialPort :=
  match rpcTo (frame 100 0xffff (leBytes 4 msize ++ str protoVersion)) s with
  | (t, s) => (if t = 101 then 0 else -1, s)

def doAttach (fid : Nat) (s : SerialPort) : Int × SerialPort :=
  match rpcTo (frame 104 1 (leBytes 4 fid ++ leBytes 4 0xffffffff ++ str [0x74] ++ leBytes 2 0)) s with
  | (t, s) => (if t = 105 then 0 else -1, s)

def doWalk (fid newfid : Nat) (names : List (List UInt8)) (s : SerialPort) : Int × SerialPort :=
  match rpcTo (frame 110 1 (leBytes 4 fid ++ leBytes 4 newfid ++ leBytes 2 names.length ++ names.flatMap str)) s with
  | (t, s) => (expect 111 t, s)

def doOpen (fid : Nat) (mode : UInt8) (s : SerialPort) : Int × SerialPort :=
  match rpcTo (frame 112 1 (leBytes 4 fid ++ [mode])) s with
  | (t, s) => (expect 113 t, s)

def doRead (fid off cap : Nat) (s : SerialPort) : Int × SerialPort :=
  match rpcTo (frame 116 1 (leBytes 4 fid ++ leBytes 8 off ++ leBytes 4 cap)) s with
  | (t, s) =>
      if t < 0 then (t, s)
      else if t ≠ 117 then (-3, s)
      else (min (cInt (leNat ((s.mbuf.drop 3).take 4))) cap, s)

def doWriteFid (fid : Nat) (data : List UInt8) (s : SerialPort) : Int × SerialPort :=
  match rpcTo (frame 118 1 (leBytes 4 fid ++ leBytes 8 0 ++ leBytes 4 data.length ++ data)) s with
  | (t, s) =>
      if t < 0 then (t, s)
      else if t ≠ 119 then (-3, s)
      else (cInt (leNat ((s.mbuf.drop 3).take 4)), s)

def doClunk (fid : Nat) (s : SerialPort) : SerialPort := (rpcTo (frame 120 1 (leBytes 4 fid)) s).2

def fidFile : Nat := 5

/-- The reads of `read_file`: the total, or `none` when the port failed. -/
def readLoop (cap : Nat) : Nat → Nat → SerialPort → Option Nat × SerialPort
  | 0, total, s => (some total, s)
  | turns + 1, total, s =>
      if total < cap - 8 then
        match doRead fidFile 0 (cap - 1 - total) s with
        | (r, s) =>
            if r = -1 then (none, s)
            else if r ≤ 0 then (some total, s)
            else readLoop cap turns (total + r.toNat) s
      else (some total, s)

def readFile (names : List (List UInt8)) (cap : Nat) (s : SerialPort) : Int × SerialPort :=
  match doWalk 0 fidFile names s with
  | (w, s) =>
      if w < 0 then (w, s)
      else match doOpen fidFile 0 s with
        | (o, s) =>
            if o ≠ 0 then (0, doClunk fidFile s)
            else match readLoop cap 8 0 s with
              | (none, s) => (-1, doClunk fidFile s)
              | (some total, s) => (total, doClunk fidFile s)

def readDrain (names : List (List UInt8)) (cap : Nat) (s : SerialPort) : Int × SerialPort :=
  match doWalk 0 fidFile names s with
  | (w, s) =>
      if w < 0 then (w, s)
      else match doOpen fidFile 0 s with
        | (o, s) =>
            if o ≠ 0 then (0, doClunk fidFile s)
            else match doRead fidFile 0 (cap - 1) s with
              | (r, s) => (if r = -1 ∨ r = -2 then r else if r < 0 then 0 else r, doClunk fidFile s)

def devDir : List UInt8 := [0x64, 0x65, 0x76]

def mflt5340 : List UInt8 := [0x6d, 0x66, 0x6c, 0x74, 0x35, 0x33, 0x34, 0x30]

def mflt9151 : List UInt8 := [0x6d, 0x66, 0x6c, 0x74, 0x39, 0x31, 0x35, 0x31]

def mfltMesh : List UInt8 := [0x6d, 0x66, 0x6c, 0x74, 0x5f, 0x6d, 0x65, 0x73, 0x68]

/-- What `cycle` does on the port: -1 when it failed. -/
def cycle (s : SerialPort) : Int × SerialPort :=
  match readFile [devDir, mflt5340] 16384 s with
  | (r, s) =>
      if r = -1 then (-1, s)
      else match readFile [devDir, mflt9151] 16384 s with
        | (r, s) =>
            if r = -1 then (-1, s)
            else match readDrain [devDir, mfltMesh] 16384 s with
              | (r, s) => (if r = -1 then -1 else 0, s)

inductive ForwarderOp where
  | version
  | attach (fid : Nat)
  | walk (fid newfid : Nat) (names : List (List UInt8))
  | openFid (fid : Nat) (mode : UInt8)
  | read (fid off cap : Nat)
  | write (fid : Nat) (data : List UInt8)
  | clunk (fid : Nat)
  | readFile (names : List (List UInt8)) (cap : Nat)
  | readDrain (names : List (List UInt8)) (cap : Nat)
  | cycle

def SerialPort.perform (s : SerialPort) : ForwarderOp → SerialPort
  | .version => (doVersion s).2
  | .attach fid => (doAttach fid s).2
  | .walk fid newfid names => (doWalk fid newfid names s).2
  | .openFid fid mode => (doOpen fid mode s).2
  | .read fid off cap => (doRead fid off cap s).2
  | .write fid data => (doWriteFid fid data s).2
  | .clunk fid => doClunk fid s
  | .readFile names cap => (Telemetry.readFile names cap s).2
  | .readDrain names cap => (Telemetry.readDrain names cap s).2
  | .cycle => (Telemetry.cycle s).2

/-! ## Every operation is a sequence of calls -/

def Calls : SerialPort → SerialPort → Prop := Relation.ReflTransGen fun s s' => ∃ request, s' = (rpcTo request s).2

theorem calls_rpc (request : List UInt8) (s : SerialPort) : Calls s (rpcTo request s).2 := .single ⟨request, rfl⟩

theorem calls_walk (fid newfid : Nat) (names : List (List UInt8)) (s : SerialPort) :
    Calls s (doWalk fid newfid names s).2 := calls_rpc _ s

theorem calls_open (fid : Nat) (mode : UInt8) (s : SerialPort) : Calls s (doOpen fid mode s).2 := calls_rpc _ s

theorem calls_clunk (fid : Nat) (s : SerialPort) : Calls s (doClunk fid s) := calls_rpc _ s

theorem calls_read (fid off cap : Nat) (s : SerialPort) : Calls s (doRead fid off cap s).2 := by
  have hcall := calls_rpc (frame 116 1 (leBytes 4 fid ++ leBytes 8 off ++ leBytes 4 cap)) s
  unfold doRead
  dsimp only
  split
  · exact hcall
  · split <;> exact hcall

theorem calls_write (fid : Nat) (data : List UInt8) (s : SerialPort) : Calls s (doWriteFid fid data s).2 := by
  have hcall := calls_rpc (frame 118 1 (leBytes 4 fid ++ leBytes 8 0 ++ leBytes 4 data.length ++ data)) s
  unfold doWriteFid
  dsimp only
  split
  · exact hcall
  · split <;> exact hcall

theorem calls_readLoop (cap turns total : Nat) (s : SerialPort) : Calls s (readLoop cap turns total s).2 := by
  induction turns generalizing total s with
  | zero => exact .refl
  | succ turns ih =>
    have hread := calls_read fidFile 0 (cap - 1 - total) s
    unfold readLoop
    dsimp only
    split
    · split
      · exact hread
      · split
        · exact hread
        · exact hread.trans (ih _ _)
    · exact .refl

theorem calls_opened {names : List (List UInt8)} {s s' : SerialPort}
    (h : Calls (doOpen fidFile 0 (doWalk 0 fidFile names s).2).2 s') : Calls s (doClunk fidFile s') := by
  have hwalk := calls_walk 0 fidFile names s
  have hopen := calls_open fidFile 0 (doWalk 0 fidFile names s).2
  exact ((hwalk.trans hopen).trans h).trans (calls_clunk fidFile s')

theorem calls_readFile (names : List (List UInt8)) (cap : Nat) (s : SerialPort) : Calls s (readFile names cap s).2 := by
  have hloop := calls_readLoop cap 8 0 (doOpen fidFile 0 (doWalk 0 fidFile names s).2).2
  unfold readFile
  dsimp only
  split
  · exact calls_walk 0 fidFile names s
  · split
    · exact calls_opened .refl
    · split
      · rename_i hfailed
        rw [hfailed] at hloop
        exact calls_opened hloop
      · rename_i htotal
        rw [htotal] at hloop
        exact calls_opened hloop

theorem calls_readDrain (names : List (List UInt8)) (cap : Nat) (s : SerialPort) : Calls s (readDrain names cap s).2 := by
  unfold readDrain
  dsimp only
  split
  · exact calls_walk 0 fidFile names s
  · split
    · exact calls_opened .refl
    · exact calls_opened (calls_read fidFile 0 (cap - 1) _)

theorem calls_cycle (s : SerialPort) : Calls s (cycle s).2 := by
  have hfirst := calls_readFile [devDir, mflt5340] 16384 s
  have hsecond := hfirst.trans (calls_readFile [devDir, mflt9151] 16384 _)
  unfold cycle
  dsimp only
  split
  · exact hfirst
  · split
    · exact hsecond
    · exact hsecond.trans (calls_readDrain [devDir, mfltMesh] 16384 _)

theorem calls_perform (s : SerialPort) (op : ForwarderOp) : Calls s (s.perform op) := by
  cases op with
  | version | attach | walk | openFid | clunk => exact calls_rpc _ s
  | read fid off cap => exact calls_read fid off cap s
  | write fid data => exact calls_write fid data s
  | readFile names cap => exact calls_readFile names cap s
  | readDrain names cap => exact calls_readDrain names cap s
  | cycle => exact calls_cycle s

theorem calls_foldl (ops : List ForwarderOp) (s : SerialPort) : Calls s (ops.foldl SerialPort.perform s) := by
  induction ops generalizing s with
  | nil => exact .refl
  | cons op ops ih => exact (calls_perform s op).trans (ih (s.perform op))

/-! ## Whose reply a call takes -/

def RpcCall.OwnReply (call : RpcCall) : Prop := ∀ frame, call.taken = some frame → frame = call.own

/-- If the call returned with a frame, every earlier reply had been read. -/
def RpcCall.NothingLate (call : RpcCall) : Prop := call.taken ≠ none → call.outstanding = []

theorem readnTo_split {n : Nat} {arrival : Arrival} {pipe got rest : List (Nat × UInt8)} {fail : Option Int}
    (h : readnTo n arrival pipe = (fail, got, rest)) : got ++ rest = pipe ∧ (fail = none → got.length = n) := by
  unfold readnTo at h
  simp only [Prod.mk.injEq] at h
  obtain ⟨hfail, hgot, hrest⟩ := h
  rw [hgot] at hfail hrest
  constructor
  · rw [← hrest]
    conv_lhs => enter [1]; rw [← hgot]
    conv_lhs => enter [2]; rw [← hgot]
    rw [List.length_take]
    rcases Nat.le_total (min n arrival.bytes) pipe.length with hle | hle
    · rw [Nat.min_eq_left hle, List.take_append_drop]
    · rw [Nat.min_eq_right hle, List.take_of_length_le hle, List.drop_length, List.append_nil]
  · rintro rfl
    by_contra hshort
    rw [if_neg hshort] at hfail
    cases hfail

/-- A frame is what its first four bytes say, and the stream goes on behind it. -/
theorem receive_split {turn : GatewayTurn} {mbuf mbuf' : List UInt8} {pipe rest : List (Nat × UInt8)} {rc : Int}
    {taken : Option (List (Nat × UInt8))} (h : receive turn mbuf pipe = (rc, mbuf', rest, taken)) :
    (∃ gone, gone ++ rest = pipe) ∧ ∀ frame, taken = some frame →
      frame ++ rest = pipe ∧ 7 ≤ frame.length ∧ leNat (plain (frame.take 4)) = frame.length := by
  unfold receive at h
  split at h
  · rename_i hhdr
    cases h
    exact ⟨⟨_, (readnTo_split hhdr).1⟩, nofun⟩
  · rename_i hdr left hhdr
    obtain ⟨hpipe, hfour⟩ := readnTo_split hhdr
    dsimp only at h
    split at h
    · cases h
      exact ⟨⟨hdr, hpipe⟩, nofun⟩
    · rename_i hsize
      split at h
      · rename_i got left' hbody
        cases h
        refine ⟨⟨hdr ++ got, ?_⟩, nofun⟩
        rw [List.append_assoc, (readnTo_split hbody).1, hpipe]
      · rename_i body left' hbody
        cases h
        obtain ⟨hleft, hlength⟩ := readnTo_split hbody
        have hwhole : (hdr ++ body) ++ rest = pipe := by rw [List.append_assoc, hleft, hpipe]
        refine ⟨⟨_, hwhole⟩, fun frame hframe => ?_⟩
        cases hframe
        rw [List.take_left' (hfour rfl), List.length_append, hfour rfl, hlength rfl]
        exact ⟨hwhole, by omega, by omega⟩

/-- The stream begins with a reply that the call takes exactly if nothing stands
before it. -/
theorem frame_own_iff {n : Nat} {reply : GatewayReply} {late frame rest : List (Nat × UInt8)}
    (hlate : ∀ x ∈ late, x.1 < n) (hpipe : frame ++ rest = late ++ reply.bytes.map fun b => (n, b))
    (hlong : 7 ≤ frame.length) (hsize : leNat (plain (frame.take 4)) = frame.length) :
    (frame = reply.bytes.map fun b => (n, b)) ↔ late = [] := by
  cases late with
  | nil =>
    refine iff_of_true ?_ rfl
    rw [List.nil_append] at hpipe
    have htake : frame.take 4 = (reply.bytes.take 4).map fun b => (n, b) := by
      rw [List.map_take, ← hpipe, List.take_append_of_le_length (by omega)]
    have hplain : plain (frame.take 4) = reply.bytes.take 4 := by
      rw [htake, plain, List.map_map]
      exact List.map_id _
    rw [hplain, reply.sized] at hsize
    have hlength := congrArg List.length hpipe
    rw [List.length_append, List.length_map] at hlength
    rw [List.length_eq_zero_iff.mp (by omega : rest.length = 0), List.append_nil] at hpipe
    exact hpipe
  | cons x late =>
    refine iff_of_false (fun hown => ?_) (List.cons_ne_nil x late)
    cases frame with
    | nil => cases hlong
    | cons y frame =>
      rw [List.cons_append, List.cons_append, List.cons.injEq] at hpipe
      obtain ⟨b, -, hy⟩ := List.mem_map.mp (hown ▸ List.mem_cons_self : y ∈ reply.bytes.map fun b => (n, b))
      have hx := hlate x List.mem_cons_self
      rw [← hpipe.1, ← hy] at hx
      exact Nat.lt_irrefl n hx

/-- What is outstanding answers earlier requests, and every call so far took its
own reply exactly if nothing was outstanding. -/
structure PortKept (s : SerialPort) : Prop where
  earlier : ∀ x ∈ s.pipe, x.1 < s.calls.length
  exact : ∀ call ∈ s.calls, call.OwnReply ↔ call.NothingLate

theorem portKept_rpc {s : SerialPort} (h : PortKept s) (request : List UInt8) : PortKept (rpcTo request s).2 := by
  unfold rpcTo
  split
  · exact h
  · rename_i turn turns hturns
    dsimp only
    split
    · generalize hreceive : receive turn _ _ = received
      obtain ⟨rc, mbuf, pipe, taken⟩ := received
      obtain ⟨⟨gone, hgone⟩, htaken⟩ := receive_split hreceive
      refine ⟨fun x hx => ?_, fun call hcall => ?_⟩
      · rw [List.length_append, List.length_singleton]
        have hmem : x ∈ s.pipe ++ turn.reply.bytes.map fun b => (s.calls.length, b) :=
          hgone ▸ List.mem_append_right gone hx
        rcases List.mem_append.mp hmem with hold | hnew
        · exact Nat.lt_succ_of_lt (h.earlier x hold)
        · obtain ⟨b, -, rfl⟩ := List.mem_map.mp hnew
          exact Nat.lt_succ_self _
      · rcases List.mem_append.mp hcall with hold | hnew
        · exact h.exact call hold
        · cases List.mem_singleton.mp hnew
          cases taken with
          | none => exact iff_of_true nofun (fun hsome => absurd rfl hsome)
          | some frame =>
            obtain ⟨hpipe, hlong, hsize⟩ := htaken frame rfl
            have hiff := frame_own_iff h.earlier hpipe hlong hsize
            constructor
            · exact fun hown _ => hiff.mp (hown frame rfl)
            · rintro hlate other ⟨⟩
              exact hiff.mpr (hlate (by simp))
    · exact ⟨h.earlier, h.exact⟩

theorem portKept_calls {s s' : SerialPort} (h : PortKept s) (hcalls : Calls s s') : PortKept s' := by
  induction hcalls with
  | refl => exact h
  | tail _ hrpc ih =>
    obtain ⟨request, rfl⟩ := hrpc
    exact portKept_rpc ih request

/-- Every sequence of operations on an opened port, whatever comes in of the
replies before each deadline: each call that returns a type has the reply to its
own request, exactly if each such call was made when every earlier reply had
been read to its end. -/
theorem forwarder_own_reply_iff (mbuf : List UInt8) (turns : List GatewayTurn) (ops : List ForwarderOp) :
    (∀ call ∈ (ops.foldl SerialPort.perform (.opened mbuf turns)).calls, call.OwnReply) ↔
      ∀ call ∈ (ops.foldl SerialPort.perform (.opened mbuf turns)).calls, call.NothingLate := by
  have hopened : PortKept (.opened mbuf turns) := ⟨nofun, nofun⟩
  have hkept := portKept_calls hopened (calls_foldl ops _)
  exact forall₂_congr hkept.exact

instance (call : RpcCall) : Decidable call.OwnReply :=
  inferInstanceAs (Decidable (∀ frame ∈ call.taken, frame = call.own))

def GatewayReply.frame (type : UInt8) (body : List UInt8) (h : body.length ≤ 8185) : GatewayReply where
  bytes := Aether.frame type 1 body
  long := by rw [Aether.length_frame]; omega
  fits := by rw [Aether.length_frame, msize]; omega
  sized := by rw [Aether.size_frame, Aether.length_frame]; omega

def inTime (reply : GatewayReply) : GatewayTurn := ⟨true, reply, ⟨4, false⟩, ⟨msize, false⟩⟩

def tooLate (reply : GatewayReply) : GatewayTurn := ⟨true, reply, ⟨0, false⟩, ⟨0, false⟩⟩

/-- Rwalk and Ropen come in time, Rread after the timeout: the Tclunk that
follows takes it for its reply. -/
theorem forwarder_takes_late : ¬ ∀ call ∈ ([ForwarderOp.readFile [devDir, mflt9151] 16384].foldl SerialPort.perform
    (.opened [] [inTime (.frame 111 [0, 0] (by decide)), inTime (.frame 113 (leBytes 17 0) (by decide)),
      tooLate (.frame 117 (leBytes 4 0) (by decide)), inTime (.frame 121 [] (by decide))])).calls, call.OwnReply := by
  decide

end DectMesh.Telemetry
