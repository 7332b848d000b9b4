import DectMesh.Lib.Run
import DectMesh.Relay.Firmware
import DectMesh.Relay.Link
import Mathlib.Logic.Function.Basic

/-! The threads of the relay that use the link to the 9151: the link monitor
with its auto-confirm check, the host's proxied operations, and the image
stream to `dev/fw9151`. Between two steps of one thread come steps of the
others; what an RPC comes to is part of the label. -/
namespace DectMesh.Relay

open DectMesh.Lib

inductive Reply where
  | none
  | handshake (h : Handshake)
  | failed
  | fid (fid : Nat)
  | done (count : Nat)
  | data (bytes : List UInt8)
  deriving DecidableEq

inductive OpenPc where
  | ensure (attempt : Nat)
  | walk (attempt root : Nat)
  | opens (fid : Nat)
  deriving DecidableEq

inductive OpenNext where
  | go (pc : OpenPc)
  | opened (fid : Nat)
  | failed

inductive Confirm where
  | notSent
  | failed
  | written
  deriving DecidableEq

inductive CheckPc where
  | statusOpen (pc : OpenPc)
  | statusRead (fid : Nat)
  | compare (text : List UInt8)
  | confirmOpen (text : List UInt8) (pc : OpenPc)
  | confirmWrite (text : List UInt8) (fid : Nat)
  | disarm (text : List UInt8) (confirm : Confirm)
  deriving DecidableEq

inductive MonitorPc where
  | top
  | probe
  | testAuto
  | testArmed
  | check (pc : CheckPc)
  | sleep
  deriving DecidableEq

/-- Where the `fw9151_write` call that holds `mesh_wr` stands. -/
inductive WriterPc where
  | opens (buf : List UInt8) (pc : OpenPc)
  | chunks (buf : List UInt8) (done : Nat)
  deriving DecidableEq

/-- The proxied operations of one open each: `fw9151_read` and
`aether_state_read`, `aether_state_write`, `dev/confirm9151`, `dev/reboot9151`. -/
inductive HostOp where
  | read
  | write
  | confirm
  | reboot
  deriving DecidableEq

def HostOp.expectReset : HostOp → Bool
  | .reboot => true
  | _ => false

inductive HostPc where
  | opens (op : HostOp) (pc : OpenPc)
  | io (op : HostOp) (fid : Nat)
  deriving DecidableEq

structure Gate where
  autoconfirm : Bool
  armed : Bool
  staged : Version
  stagedValid : Bool
  deriving DecidableEq

structure Stream where
  writing : Bool
  wfid : Nat
  woff : Nat
  deriving DecidableEq

/-- History: the number of the latest attachment, the attachments that the
monitor's iteration found, those made while the gate was armed and auto-confirm
on, and those the check has been run on; the bytes of the open stream that the
9151 took, the header version of the latest stream begun since the last
finalised one, and the header version of that one. -/
structure Past where
  attachment : Nat
  found : List Nat
  owed : List Nat
  checked : List Nat
  image : List UInt8
  begun : Option Version
  finalised : Option Version
  deriving DecidableEq

structure RelayState where
  link : Link
  gate : Gate
  stream : Stream
  monitor : MonitorPc
  writer : Option WriterPc
  hosts : Nat → Option HostPc
  past : Past

def RelayState.init : RelayState where
  link := ⟨false, false, 0⟩
  gate := ⟨true, false, ⟨0, 0, 0⟩, false⟩
  stream := ⟨false, 0, 0⟩
  monitor := .top
  writer := none
  hosts := fun _ => none
  past := ⟨0, [], [], [], [], none, none⟩

inductive Event where
  | monitor (reply : Reply)
  | begin (host : Nat) (op : HostOp)
  | host (host : Nat) (reply : Reply)
  | remoteRoot (h : Handshake)
  | remoteDown
  | disconnected
  | auto (buf : List UInt8)
  | write (buf : List UInt8)
  | writer (reply : Reply)
  | clunk
  deriving DecidableEq

/-! ## The link -/

def Past.attach (past : Past) (owing : Bool) : Past :=
  { past with
    attachment := past.attachment + 1
    owed := if owing then (past.attachment + 1) :: past.owed else past.owed }

def RelayState.ensure (s : RelayState) (h : Handshake) : Option Nat × RelayState :=
  ((meshEnsureAttached h s.link).1,
    { s with
      link := (meshEnsureAttached h s.link).2
      past :=
        if s.link.attached = false ∧ h.succeeds s.link = true then
          s.past.attach (s.gate.autoconfirm && s.gate.armed)
        else s.past })

def RelayState.drop (s : RelayState) : RelayState := { s with link := s.link.drop }

/-- `fw9151_open_remote`: a failed walk drops the session and is repeated once
behind a re-attach. -/
def RelayState.openStep (s : RelayState) : OpenPc → Reply → Option (OpenNext × RelayState)
  | .ensure attempt, .handshake h =>
      match s.ensure h with
      | (some root, s) => some (.go (.walk attempt root), s)
      | (none, s) => some (.failed, s)
  | .walk _ _, .fid fid => some (.go (.opens fid), s)
  | .walk attempt _, .failed =>
      some (if attempt + 1 < 2 then .go (.ensure (attempt + 1)) else .failed, s.drop)
  | .opens fid, .done _ => some (.opened fid, s)
  | .opens _, .failed => some (.failed, s)
  | _, _ => none

/-! ## The monitor -/

def RelayState.goto (s : RelayState) (pc : MonitorPc) : RelayState := { s with monitor := pc }

def RelayState.checkHere (s : RelayState) : RelayState :=
  { s with past := { s.past with checked := s.past.attachment :: s.past.checked } }

def RelayState.statusNext (s : RelayState) : OpenNext → RelayState
  | .go (.walk attempt root) => s.checkHere.goto (.check (.statusOpen (.walk attempt root)))
  | .go pc => s.goto (.check (.statusOpen pc))
  | .opened fid => s.goto (.check (.statusRead fid))
  | .failed => s.goto .sleep

def RelayState.confirmNext (s : RelayState) (text : List UInt8) : OpenNext → RelayState
  | .go pc => s.goto (.check (.confirmOpen text pc))
  | .opened fid => s.goto (.check (.confirmWrite text fid))
  | .failed => s.goto (.check (.disarm text .failed))

/-- What the check does about the status text. A running image that is confirmed
but not the staged one leaves the gate armed. -/
def Gate.decide (gate : Gate) (text : List UInt8) : MonitorPc :=
  if runningConfirmed text = false then
    if runningVersion text = gate.staged then .check (.confirmOpen text (.ensure 0))
    else .check (.disarm text .notSent)
  else if runningVersion text = gate.staged then .check (.disarm text .notSent)
  else .sleep

def RelayState.disarm (s : RelayState) : RelayState := { s with gate := { s.gate with armed := false } }

/-- `fw9151_auto_confirm_check` -/
def checkStep (s : RelayState) : CheckPc → Reply → Option RelayState
  | .statusOpen pc, reply => (s.openStep pc reply).map fun (next, s) => s.statusNext next
  | .statusRead _, .data bytes =>
      -- at most `sizeof(buf) - 1` bytes come back
      if bytes.length < 160 then some (s.goto (.check (.compare (cString bytes)))) else none
  | .statusRead _, .failed => some (s.goto .sleep)
  | .compare text, .none => some (s.goto (s.gate.decide text))
  | .confirmOpen text pc, reply => (s.openStep pc reply).map fun (next, s) => s.confirmNext text next
  | .confirmWrite text _, .done _ => some (s.goto (.check (.disarm text .written)))
  | .confirmWrite text _, .failed => some (s.goto (.check (.disarm text .failed)))
  | .disarm _ _, .none => some (s.disarm.goto .sleep)
  | _, _ => none

/-- `mesh_link_monitor_fn` -/
def monitorStep (s : RelayState) (reply : Reply) : Option RelayState :=
  match s.monitor, reply with
  | .top, .none =>
      if s.link.attached then
        some ({ s with past := { s.past with found := [s.past.attachment] } }.goto .sleep)
      else some ({ s with past := { s.past with found := [] } }.goto .probe)
  | .probe, .handshake h =>
      match s.ensure h with
      | (some _, s) =>
          some ({ s with past := { s.past with found := [s.past.attachment] } }.goto .testAuto)
      | (none, s) => some (s.goto .sleep)
  | .testAuto, .none => some (s.goto (if s.gate.autoconfirm then .testArmed else .sleep))
  | .testArmed, .none =>
      if s.gate.armed then
        some ({ s with past := { s.past with checked := s.past.found ++ s.past.checked } }.goto
          (.check (.statusOpen (.ensure 0))))
      else some (s.goto .sleep)
  | .check pc, reply => checkStep s pc reply
  | .sleep, .none => some (s.goto .top)
  | _, _ => none

/-! ## The host's operations -/

def RelayState.setHost (s : RelayState) (host : Nat) (pc : Option HostPc) : RelayState :=
  { s with hosts := Function.update s.hosts host pc }

def HostOp.next (op : HostOp) : OpenNext → Option HostPc
  | .go pc => some (.opens op pc)
  | .opened fid => some (.io op fid)
  | .failed => none

def hostStep (s : RelayState) (host : Nat) (reply : Reply) : Option RelayState :=
  match s.hosts host with
  | some (.opens op pc) => (s.openStep pc reply).map fun (next, s) => s.setHost host (op.next next)
  | some (.io op _) =>
      match reply with
      | .failed | .done _ | .data _ => some ((if op.expectReset then s.drop else s).setHost host none)
      | _ => none
  | none => none

/-- `fw9151auto_write` -/
def Gate.toggle (gate : Gate) (buf : List UInt8) : Gate :=
  match buf with
  | 0x30 :: _ => { gate with autoconfirm := false }
  | 0x31 :: _ => { gate with autoconfirm := true }
  | _ => gate

/-! ## The image stream -/

def RelayState.stage (s : RelayState) (fid : Nat) (buf : List UInt8) : RelayState :=
  match headerVersion buf with
  | some version =>
      { s with
        stream := ⟨true, fid, 0⟩
        gate := { s.gate with staged := version, stagedValid := true }
        past := { s.past with image := [], begun := some version } }
  | none =>
      { s with
        stream := ⟨true, fid, 0⟩
        gate := { s.gate with stagedValid := false }
        past := { s.past with image := [] } }

def RelayState.writeDone (s : RelayState) (done : Nat) : RelayState :=
  { s with stream := { s.stream with woff := s.stream.woff + done }, writer := none }

def RelayState.writeLoop (s : RelayState) (buf : List UInt8) (done : Nat) : RelayState :=
  if done < buf.length then { s with writer := some (.chunks buf done) } else s.writeDone done

def RelayState.accept (s : RelayState) (bytes : List UInt8) : RelayState :=
  { s with past := { s.past with image := s.past.image ++ bytes } }

def writeStart (s : RelayState) (buf : List UInt8) : Option RelayState :=
  if s.writer = none then
    some (if s.stream.writing then s.writeLoop buf 0
      else { s with writer := some (.opens buf (.ensure 0)) })
  else none

def RelayState.writeNext (s : RelayState) (buf : List UInt8) : OpenNext → RelayState
  | .go pc => { s with writer := some (.opens buf pc) }
  | .opened fid => (s.stage fid buf).writeLoop buf 0
  | .failed => { s with writer := none }

/-- `fw9151_write` -/
def writerStep (chunk : Nat) (s : RelayState) (reply : Reply) : Option RelayState :=
  match s.writer, reply with
  | some (.opens buf pc), reply => (s.openStep pc reply).map fun (next, s) => s.writeNext buf next
  | some (.chunks buf done), .done n =>
      let s := s.accept ((buf.drop done).take n)
      some (if n < min (buf.length - done) chunk then s.writeDone (done + n) else s.writeLoop buf (done + n))
  | some (.chunks _ _), .failed =>
      some { s with stream := { s.stream with writing := false }, writer := none }
  | _, _ => none

def RelayState.finalise (s : RelayState) : RelayState :=
  { s with
    stream := { s.stream with writing := false }
    gate := { s.gate with armed := s.gate.stagedValid }
    past := { s.past with begun := none, finalised := headerVersion s.past.image } }

/-- `fw9151_clunk`, whatever the remote clunk comes to. -/
def clunkStep (s : RelayState) : Option RelayState :=
  if s.writer = none then some (if s.stream.writing then s.finalise else s) else none

def step (chunk : Nat) (s : RelayState) : Event → Option RelayState
  | .monitor reply => monitorStep s reply
  | .begin host op =>
      if s.hosts host = none then some (s.setHost host (some (.opens op (.ensure 0)))) else none
  | .host host reply => hostStep s host reply
  | .remoteRoot h => some (s.ensure h).2
  | .remoteDown => some s.drop
  | .disconnected => some { s with link := s.link.reset }
  | .auto buf => some { s with gate := s.gate.toggle buf }
  | .write buf => writeStart s buf
  | .writer reply => writerStep chunk s reply
  | .clunk => clunkStep s

/-! ## A stream, a reboot and a check -/

def sampleImage : List UInt8 :=
  [0x3d, 0xb8, 0xf3, 0x96] ++ List.replicate 16 0 ++ [1, 2, 3, 0] ++ List.replicate 4 0

/-- `"current 1.2.3+0 confirmed no"` -/
def sampleStatus : List UInt8 :=
  currentKey ++ [0x31, 0x2e, 0x32, 0x2e, 0x33, 0x2b, 0x30, 0x20] ++ confirmedKey ++ no

def stageEvents : List Event :=
  [.write sampleImage, .writer (.handshake ⟨none, true, some 1⟩), .writer (.fid 5), .writer (.done 0),
    .writer (.done 28), .clunk]

def rebootEvents : List Event :=
  [.begin 0 .reboot, .host 0 (.handshake ⟨none, false, none⟩), .host 0 (.fid 6), .host 0 (.done 0),
    .host 0 .failed]

def relinkEvents : List Event :=
  [.monitor .none, .monitor (.handshake ⟨some 2, false, none⟩), .monitor .none, .monitor .none]

def checkEvents : List Event :=
  [.monitor (.handshake ⟨none, false, none⟩), .monitor (.fid 7), .monitor (.done 0),
    .monitor (.data sampleStatus), .monitor .none, .monitor (.handshake ⟨none, false, none⟩),
    .monitor (.fid 8), .monitor (.done 0)]

end DectMesh.Relay
