import DectMesh.Lib.Mailbox
import Mathlib.Data.List.FinRange
import Mathlib.Logic.Function.Basic

/-! The conversation slots of `/net/aether`: their allocation and teardown, the
fan-out of received datagrams and the ctl commands. -/
namespace DectMesh.Aether

open DectMesh.Lib

abbrev maxConns : Nat := 4

def rxqDepth : Nat := 16

abbrev Slot := Fin maxConns

def Slot.first : Slot := 0

/-- Six bytes: a durable `node_eui` or a HONR route. -/
structure Addr where
  bytes : List UInt8
  six : bytes.length = 6
  deriving DecidableEq

def Addr.zero : Addr := ⟨List.replicate 6 0, rfl⟩

def Addr.bcast : Addr := ⟨List.replicate 6 0xff, rfl⟩

/-- `struct aether_dgram`, its length field 16 bits wide. An empty payload is
the hangup sentinel. `id` is history: the reception that queued the datagram,
0 for a sentinel. -/
structure Dgram where
  src : Addr
  data : List UInt8
  short : data.length < 65536
  id : Nat
  deriving DecidableEq

def Dgram.eof : Dgram := ⟨.zero, [], by decide, 0⟩

inductive ConvState where
  | unconnected
  | connected
  | announced
  | bcast
  deriving DecidableEq

/-- `struct aether_conv`, without the node subtree. `ρ` names parked reads. -/
structure Conv (ρ : Type) where
  inUse : Bool
  state : ConvState
  peer : Addr
  rxq : Mailbox Dgram ρ

abbrev Convs (ρ : Type) := Slot → Conv ρ

variable {ρ : Type}

def Conv.unused : Conv ρ := ⟨false, .unconnected, .zero, .empty⟩

/-- What `conv_alloc` makes of a slot. Reads parked on the old queue are
forgotten with it. -/
def Conv.fresh : Conv ρ := ⟨true, .unconnected, .zero, .empty⟩

def freeSlot (convs : Convs ρ) : Option Slot :=
  (List.finRange maxConns).find? fun n => !(convs n).inUse

theorem freeSlot_notInUse {convs : Convs ρ} {n : Slot} (h : freeSlot convs = some n) :
    (convs n).inUse = false := by
  have := List.find?_some h
  simpa using this

def convAlloc (convs : Convs ρ) : Option (Slot × Convs ρ) :=
  (freeSlot convs).map fun n => (n, Function.update convs n .fresh)

def purgeAndSentinel (rxq : Mailbox Dgram ρ) : Mailbox Dgram ρ :=
  (rxq.purge.2.put rxqDepth .eof).2

def convFree (n : Slot) (convs : Convs ρ) : Convs ρ :=
  if (convs n).inUse then
    Function.update convs n
      { convs n with inUse := false, state := .unconnected, rxq := purgeAndSentinel (convs n).rxq }
  else convs

structure Bindings where
  euiToAddr : Addr → Option Addr
  addrToEui : Addr → Option Addr

def identOf (mesh : Bindings) (src : Addr) (broadcast : Bool) : Addr :=
  if broadcast then src else (mesh.addrToEui src).getD src

def Conv.takes (mesh : Bindings) (c : Conv ρ) (src ident : Addr) (broadcast : Bool) : Bool :=
  c.inUse &&
    if broadcast then c.state = .bcast
    else match c.state with
      | .announced => true
      | .connected => mesh.euiToAddr c.peer = some src || c.peer = ident || c.peer = src
      | _ => false

structure Frame where
  src : Addr
  payload : List UInt8
  broadcast : Bool
  id : Nat

/-- The datagram queued for a frame: at most `maxMsg` bytes, the length cast to
16 bits. -/
def Frame.dgram (maxMsg : Nat) (mesh : Bindings) (f : Frame) : Dgram where
  src := identOf mesh f.src f.broadcast
  data := f.payload.take (min f.payload.length maxMsg % 65536)
  short := by
    have hcast := Nat.mod_lt (min f.payload.length maxMsg) (show 0 < 65536 by decide)
    rw [List.length_take]
    exact (Nat.min_le_left _ _).trans_lt hcast
  id := f.id

/-- One frame into every conversation that takes it. A full queue drops it. -/
def aetherRecvCb (maxMsg : Nat) (mesh : Bindings) (f : Frame) (convs : Convs ρ) : Convs ρ := fun n =>
  if (convs n).takes mesh f.src (identOf mesh f.src f.broadcast) f.broadcast then
    { convs n with rxq := ((convs n).rxq.put rxqDepth (f.dgram maxMsg mesh)).2 }
  else convs n

/-! ## ctl commands and data writes -/

inductive CtlCmd where
  | connect (addr : Addr)
  | announce
  | hangup
  | unknown
  deriving DecidableEq

/-- `none` is `-EINVAL`. -/
def ctlExec (c : Conv ρ) : CtlCmd → Option (Conv ρ)
  | .connect addr =>
      if c.state ≠ .unconnected then none
      else if addr = .bcast then some { c with state := .bcast }
      else some { c with peer := addr, state := .connected }
  | .announce => if c.state ≠ .unconnected then none else some { c with state := .announced }
  | .hangup => some { c with state := .unconnected, peer := .zero, rxq := purgeAndSentinel c.rxq }
  | .unknown => none

theorem ctlExec_cases {c c' : Conv ρ} {cmd : CtlCmd} (h : ctlExec c cmd = some c') :
    c'.inUse = c.inUse ∧
      (cmd ≠ .hangup ∧ c.state = .unconnected ∧ c'.state ≠ .unconnected ∧ c'.rxq = c.rxq ∨
        cmd = .hangup ∧ c'.state = .unconnected ∧ c'.rxq = purgeAndSentinel c.rxq) := by
  cases cmd with
  | connect addr =>
    simp only [ctlExec] at h
    split at h
    · cases h
    · rename_i hstate
      have hunconnected := not_not.mp hstate
      split at h <;> cases h <;>
        exact ⟨rfl, .inl ⟨nofun, hunconnected, nofun, rfl⟩⟩
  | announce =>
    simp only [ctlExec] at h
    split at h
    · cases h
    · rename_i hstate
      cases h
      exact ⟨rfl, .inl ⟨nofun, not_not.mp hstate, nofun, rfl⟩⟩
  | hangup =>
    cases h
    exact ⟨rfl, .inr ⟨rfl, rfl, rfl⟩⟩
  | unknown => cases h

inductive Outgoing where
  | broadcast (payload : List UInt8)
  | reliable (dst : Addr) (payload : List UInt8)
  deriving DecidableEq

def splitAddr (buf : List UInt8) : Option (Addr × List UInt8) :=
  if h : 6 ≤ buf.length then some (⟨buf.take 6, by simpa using h⟩, buf.drop 6) else none

def sizedSend (maxMsg : Nat) (dst : Addr) (payload : List UInt8) : Except Int Outgoing :=
  if maxMsg < payload.length then .error (-122) else .ok (.reliable dst payload)

/-- `anet_write` on a data file up to the send: -122 is `-EMSGSIZE`, -128
`-ENOTCONN` and -22 `-EINVAL`. -/
def anetWriteData (maxMsg : Nat) (mesh : Bindings) (c : Conv ρ) (buf : List UInt8) : Except Int Outgoing :=
  match c.state with
  | .bcast => if maxMsg < buf.length then .error (-122) else .ok (.broadcast buf)
  | .connected => sizedSend maxMsg ((mesh.euiToAddr c.peer).getD c.peer) buf
  | .announced =>
      match splitAddr buf with
      | none => .error (-22)
      | some (addr, payload) => sizedSend maxMsg ((mesh.euiToAddr addr).getD addr) payload
  | .unconnected => .error (-128)

end DectMesh.Aether
