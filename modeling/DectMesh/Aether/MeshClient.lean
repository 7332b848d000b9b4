import DectMesh.Aether.Conversation
import DectMesh.Lib.Wire

/-! The in-process 9P client that `drain`, `probe` and `push` run over one
conversation: `m9_rpc` and the requests it sends. The rest of the node and the
mesh is a `Port`: a state of any type that moves on inside every call. -/
namespace DectMesh.Aether

open DectMesh.Lib

/-- What the client calls. `sendReliable` is negative on failure, `msgqGet` is
`none` when its wait ends without a datagram. -/
structure Port (σ : Type) where
  convAlloc : σ → Option Slot × σ
  connect : Slot → Addr → σ → σ
  convFree : Slot → σ → σ
  peer : Slot → σ → Addr
  euiToAddr : Addr → σ → Option Addr × σ
  sendReliable : Addr → List UInt8 → σ → Int × σ
  msgqGet : Slot → Nat → σ → Option Dgram × σ

/-! ## Messages -/

def typeOf (msg : List UInt8) : UInt8 := msg.getD 4 0

/-- `ng16(msg + 5)` -/
def tagOf (msg : List UInt8) : Nat := leNat ((msg.drop 5).take 2)

/-- A T-message as it is built from offset 4 on, `m9_rpc` stamping the size. -/
def frame (type : UInt8) (tag : Nat) (body : List UInt8) : List UInt8 :=
  leBytes 4 (7 + body.length) ++ type :: leBytes 2 tag ++ body

def str (bytes : List UInt8) : List UInt8 := leBytes 2 bytes.length ++ bytes

def protoVersion : List UInt8 := [0x39, 0x50, 0x32, 0x30, 0x30, 0x30]

def devName : List UInt8 := [0x64, 0x65, 0x76]

def tVersion (maxMsg : Nat) : List UInt8 :=
  frame 100 0xffff (leBytes 4 maxMsg ++ str protoVersion)

def tAttach (tag : Nat) : List UInt8 :=
  frame 104 tag (leBytes 4 0 ++ leBytes 4 0xffffffff ++ str [0x74] ++ leBytes 2 0)

def tWalk (tag : Nat) (file : List UInt8) : List UInt8 :=
  frame 110 tag (leBytes 4 0 ++ leBytes 4 2 ++ leBytes 2 2 ++ str devName ++ str file)

def tOpen (tag : Nat) (mode : UInt8) : List UInt8 := frame 112 tag (leBytes 4 2 ++ [mode])

def tRead (tag count : Nat) : List UInt8 :=
  frame 116 tag (leBytes 4 2 ++ leBytes 8 0 ++ leBytes 4 count)

def tWrite (tag fid offset : Nat) (data : List UInt8) : List UInt8 :=
  frame 118 tag (leBytes 4 fid ++ leBytes 8 offset ++ leBytes 4 data.length ++ data)

def tClunk (tag fid : Nat) : List UInt8 := frame 120 tag (leBytes 4 fid)

/-- The four requests that open a device file, and the reply types they want. -/
def openRequests (maxMsg tag : Nat) (file : List UInt8) (mode : UInt8) : List (List UInt8 × UInt8) :=
  [(tVersion maxMsg, 101), (tAttach tag, 105), (tWalk (tag + 1) file, 111), (tOpen (tag + 2) mode, 113)]

def openReplies (maxMsg : Nat) : List (List UInt8) :=
  [frame 101 0xffff (leBytes 4 maxMsg ++ str protoVersion), frame 105 1 (leBytes 13 0x80),
    frame 111 2 (leBytes 2 2 ++ leBytes 13 0x80 ++ leBytes 13 0), frame 113 3 (leBytes 13 0 ++ leBytes 4 0)]

@[simp] theorem typeOf_frame (type : UInt8) (tag : Nat) (body : List UInt8) :
    typeOf (frame type tag body) = type := by
  simp [typeOf, frame, leBytes]

theorem openRequests_types {maxMsg tag : Nat} {file : List UInt8} {mode : UInt8} {request : List UInt8 × UInt8}
    (h : request ∈ openRequests maxMsg tag file mode) : typeOf request.1 ≠ 116 ∧ typeOf request.1 ≠ 118 := by
  simp only [openRequests, List.mem_cons, List.not_mem_nil, or_false] at h
  rcases h with rfl | rfl | rfl | rfl <;> simp [tVersion, tAttach, tWalk, tOpen]

@[simp] theorem length_frame (type : UInt8) (tag : Nat) (body : List UInt8) :
    (frame type tag body).length = 7 + body.length := by
  simp [frame]
  omega

theorem size_frame (type : UInt8) (tag : Nat) (body : List UInt8) :
    leNat ((frame type tag body).take 4) = (7 + body.length) % 4294967296 := by
  have hbytes : (frame type tag body).take 4 = leBytes 4 (7 + body.length) := by simp [frame, leBytes]
  rw [hbytes]
  exact leNat_leBytes 4 (7 + body.length)

theorem tagOf_frame (type : UInt8) (tag : Nat) (body : List UInt8) :
    tagOf (frame type tag body) = tag % 65536 := by
  have hbytes : ((frame type tag body).drop 5).take 2 = leBytes 2 tag := by simp [frame, leBytes]
  rw [tagOf, hbytes]
  exact leNat_leBytes 2 tag

theorem tagOf_lt (msg : List UInt8) : tagOf msg < 65536 := by
  have hlt := leNat_lt ((msg.drop 5).take 2)
  have hbytes : ((msg.drop 5).take 2).length ≤ 2 := List.length_take_le _ _
  exact hlt.trans_le (Nat.pow_le_pow_right (by decide) hbytes)

/-! ## `m9_rpc` -/

section

variable {σ : Type} (port : Port σ)

inductive ReadEnd where
  | reply (rbuf : List UInt8)
  | hangup
  | resend

def Dgram.matchesTag (d : Dgram) (want : Nat) : Bool := 7 ≤ d.data.length && tagOf d.data = want

/-- The reads of one attempt. A datagram with another tag is dropped. -/
def m9Reads (conv : Slot) (want cap : Nat) : Nat → σ → ReadEnd × σ
  | 0, w => (.resend, w)
  | reads + 1, w =>
      match port.msgqGet conv 1500 w with
      | (none, w) => (.resend, w)
      | (some d, w) =>
          if d.data.length = 0 then (.hangup, w)
          else if d.matchesTag want then (.reply (d.data.take cap), w)
          else m9Reads conv want cap reads w

/-- The attempts: a failed send is repeated, and so is one whose reads end
without a reply. Without a `route` the bound peer is the destination. -/
def m9Attempts (conv : Slot) (route : Option Addr) (msg : List UInt8) (cap : Nat) :
    Nat → σ → Option (List UInt8) × σ
  | 0, w => (none, w)
  | attempts + 1, w =>
      match port.sendReliable (route.getD (port.peer conv w)) msg w with
      | (sr, w) =>
          if sr < 0 then m9Attempts conv route msg cap attempts w
          else match m9Reads port conv (tagOf msg) cap 2 w with
            | (.reply rbuf, w) => (some rbuf, w)
            | (.hangup, w) => (none, w)
            | (.resend, w) => m9Attempts conv route msg cap attempts w

/-- The reply bytes, or `none` for a negative result. -/
def m9Rpc (conv : Slot) (msg : List UInt8) (cap : Nat) (w : σ) : Option (List UInt8) × σ :=
  let (route, w) := port.euiToAddr (port.peer conv w) w
  m9Attempts port conv route msg cap 2 w

variable {port}

theorem m9Reads_reply {conv : Slot} {want cap reads : Nat} {w w' : σ} {rbuf : List UInt8}
    (h : m9Reads port conv want cap reads w = (.reply rbuf, w')) :
    ∃ d : Dgram, d.matchesTag want = true ∧ rbuf = d.data.take cap := by
  induction reads generalizing w with
  | zero => cases h
  | succ reads ih =>
    unfold m9Reads at h
    split at h
    · cases h
    · rename_i d next hget
      split at h
      · cases h
      · split at h
        · rename_i htag
          cases h
          exact ⟨d, htag, rfl⟩
        · exact ih h

theorem m9Attempts_some {conv : Slot} {route : Option Addr} {msg rbuf : List UInt8} {cap attempts : Nat}
    {w w' : σ} (h : m9Attempts port conv route msg cap attempts w = (some rbuf, w')) :
    ∃ d : Dgram, d.matchesTag (tagOf msg) = true ∧ rbuf = d.data.take cap := by
  induction attempts generalizing w with
  | zero => cases h
  | succ attempts ih =>
    unfold m9Attempts at h
    dsimp only at h
    split at h
    · exact ih h
    · split at h
      · rename_i reply next hreads
        cases h
        exact m9Reads_reply hreads
      · cases h
      · exact ih h

theorem m9Rpc_some {conv : Slot} {msg rbuf : List UInt8} {cap : Nat} {w w' : σ}
    (h : m9Rpc port conv msg cap w = (some rbuf, w')) :
    ∃ d : Dgram, d.matchesTag (tagOf msg) = true ∧ rbuf = d.data.take cap :=
  m9Attempts_some h

theorem m9Rpc_length {conv : Slot} {msg rbuf : List UInt8} {cap : Nat} {w w' : σ}
    (h : m9Rpc port conv msg cap w = (some rbuf, w')) : rbuf.length < 65536 := by
  obtain ⟨d, -, rfl⟩ := m9Rpc_some h
  rw [List.length_take]
  exact (Nat.min_le_right _ _).trans_lt d.short

variable (port)

def replied (type : UInt8) (r : Option (List UInt8)) : Bool :=
  match r with
  | some rbuf => 5 ≤ rbuf.length && typeOf rbuf = type
  | none => false

/-- Requests, each with the reply type it wants, up to the first that does not
get it. The result is 0 or the negative number of that request. -/
def m9Steps (maxMsg : Nat) (conv : Slot) : List (List UInt8 × UInt8) → Nat → σ → Int × σ
  | [], _, w => (0, w)
  | (msg, type) :: rest, number, w =>
      match m9Rpc port conv msg maxMsg w with
      | (r, w) => if replied type r then m9Steps maxMsg conv rest (number + 1) w else (-number, w)

/-- Version, attach, walk to `dev/<file>` and open it as fid 2. The result is
the step code and the next tag: every request but the first uses one up. -/
def m9OpenDevfile (maxMsg : Nat) (conv : Slot) (tag : Nat) (file : List UInt8) (mode : UInt8) (w : σ) :
    Int × Nat × σ :=
  match m9Steps port maxMsg conv (openRequests maxMsg tag file mode) 1 w with
  | (step, w) => (step, if step = 0 then tag + 3 else tag + ((-step).toNat - 1), w)

end

/-! ## What passes through the port -/

inductive PortEvent where
  | sent (dst : Addr) (msg : List UInt8) (result : Int)
  | took (conv : Slot) (d : Dgram)

def Port.logged {σ : Type} (port : Port σ) : Port (σ × List PortEvent) where
  convAlloc := fun (w, log) => let (n, w) := port.convAlloc w; (n, w, log)
  connect := fun n eui (w, log) => (port.connect n eui w, log)
  convFree := fun n (w, log) => (port.convFree n w, log)
  peer := fun n (w, _) => port.peer n w
  euiToAddr := fun eui (w, log) => let (a, w) := port.euiToAddr eui w; (a, w, log)
  sendReliable := fun dst msg (w, log) =>
    let (sr, w) := port.sendReliable dst msg w
    (sr, w, log ++ [.sent dst msg sr])
  msgqGet := fun n wait (w, log) =>
    match port.msgqGet n wait w with
    | (some d, w) => (some d, w, log ++ [.took n d])
    | (none, w) => (none, w, log)

section

variable {σ : Type} {port : Port σ} {w next : σ}

@[simp] theorem Port.logged_peer (conv : Slot) (w : σ) (log : List PortEvent) :
    port.logged.peer conv (w, log) = port.peer conv w := rfl

theorem Port.logged_euiToAddr {eui : Addr} {route : Option Addr} (h : port.euiToAddr eui w = (route, next))
    (log : List PortEvent) : port.logged.euiToAddr eui (w, log) = (route, next, log) := by
  simp [Port.logged, h]

theorem Port.logged_sendReliable {dst : Addr} {msg : List UInt8} {sr : Int}
    (h : port.sendReliable dst msg w = (sr, next)) (log : List PortEvent) :
    port.logged.sendReliable dst msg (w, log) = (sr, next, log ++ [.sent dst msg sr]) := by
  simp [Port.logged, h]

theorem Port.logged_msgqGet {conv : Slot} {wait : Nat} {got : Option Dgram}
    (h : port.msgqGet conv wait w = (got, next)) (log : List PortEvent) :
    port.logged.msgqGet conv wait (w, log) = (got, next, log ++ got.toList.map (.took conv)) := by
  cases got <;> simp [Port.logged, h]

end

end DectMesh.Aether
