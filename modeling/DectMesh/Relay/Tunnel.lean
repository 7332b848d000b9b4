import DectMesh.Lib.Run
import DectMesh.Relay.Firmware
import DectMesh.Relay.LinkLog

/-! `/net/mesh`: a nested 9P session tunneled through a conversation on the 9151.
`mesh9p_sess` guards the selected peer and the nested session and is held over a
whole `mesh9p_remote_root`; the transport's own lock guards the conversation and
is taken in sections. -/
namespace DectMesh.Relay

structure Peer where
  text : List UInt8
  fits : text.length ≤ 23
  deriving DecidableEq

def Peer.unset : Peer := ⟨[], Nat.zero_le 23⟩

/-- `"00:00:00:00:"` -/
def longForm : List UInt8 := [0x30, 0x30, 0x3a, 0x30, 0x30, 0x3a, 0x30, 0x30, 0x3a, 0x30, 0x30, 0x3a]

def isTrailing (c : UInt8) : Bool := c = 0x0a || c = 0x0d || c = 0x20

def trimmed (buf : List UInt8) : List UInt8 := ((buf.take 23).reverse.dropWhile isTrailing).reverse

/-- The target address of a write to `dev/mesh_peer`, `HH:LL` made long. -/
def meshPeer (buf : List UInt8) : Peer where
  text := (if 0 < (trimmed buf).length ∧ (trimmed buf).length ≤ 5 then longForm ++ cString (trimmed buf)
    else cString (trimmed buf)).take 23
  fits := List.length_take_le 23 _

/-- A carrier fid. `session` is history: the session of `mesh_client` it was
opened in. -/
structure Fid where
  number : Nat
  session : Nat
  deriving DecidableEq

/-- `struct aether_conv_transport` without the buffers of its pump. -/
structure Transport where
  ctlFid : Option Fid
  dataFid : Option Fid
  conv : Option Nat
  connected : Bool
  peer : Peer

def Transport.disconnect (t : Transport) : Transport :=
  { t with ctlFid := none, dataFid := none, conv := none, connected := false }

/-- Where the `mesh9p_remote_root` that holds `mesh9p_sess` stands: before
`mesh_ensure_attached`, in `aether_conv_transport_connect`, before the nested
Tversion and the nested Tattach. -/
inductive Dial where
  | idle
  | link
  | check (root : Nat)
  | drop (root : Nat)
  | clone (root : Nat)
  | data (root : Nat) (ctl : Fid)
  | connect (ctl data : Fid) (conv : Nat)
  | publish (ctl data : Fid) (conv : Nat)
  | version
  | attach
  deriving DecidableEq

/-- `leaving` counts the threads that have left the section of `mesh9p_remote_down`
or `fw_write_mesh_peer` and not yet disconnected; `pump` is the fid the pump took
for its cycle. `session` is history: the resets and Tversions of `mesh_client`. -/
structure Tunnel where
  link : Link
  session : Nat
  peer : Peer
  attached : Bool
  rootFid : Nat
  transport : Transport
  dial : Dial
  leaving : Nat
  pump : Option Fid

def Tunnel.init : Tunnel where
  link := RelayState.init.link
  session := 0
  peer := .unset
  attached := false
  rootFid := 0
  transport := ⟨none, none, none, false, .unset⟩
  dial := .idle
  leaving := 0
  pump := none

/-- The outer link by any thread (`ensure`, `linkDown`, and the two statements of
`mesh_host_disconnected`), the steps of a dial with what each RPC comes to, the
two sections of a write to `dev/mesh_peer` and of `mesh9p_remote_down`, and the
pump. -/
inductive TunnelEvent where
  | ensure (h : Handshake)
  | linkDown
  | reset
  | unlink
  | rootCall
  | dialLink (h : Handshake)
  | dialCheck
  | dialDrop
  | dialClone (fid : Option Nat)
  | dialData (opened : Option (Nat × Nat))
  | dialConnect (ok : Bool)
  | dialPublish
  | dialVersion (ok : Bool)
  | dialAttach (root : Option Nat)
  | peerWrite (buf : List UInt8)
  | downCall
  | disconnect
  | pumpTake
  | pumpWrite
  | pumpEnd
  deriving DecidableEq

def Tunnel.ensure (s : Tunnel) (h : Handshake) : Tunnel :=
  { s with
    link := (meshEnsureAttached h s.link).2
    session := if h.Versions s.link then s.session + 1 else s.session }

/-- `mesh9p_remote_root`, its connect included. -/
def dialStep (s : Tunnel) : TunnelEvent → Option Tunnel
  | .rootCall =>
      if s.dial = .idle then some (if s.peer.text = [] ∨ s.attached then s else { s with dial := .link }) else none
  | .dialLink h =>
      if s.dial = .link then
        some { s.ensure h with dial := match (meshEnsureAttached h s.link).1 with
          | some root => .check root
          | none => .idle }
      else none
  | .dialCheck =>
      match s.dial with
      | .check root =>
          some { s with dial := if s.transport.connected ∧ s.transport.peer = s.peer then .version else .drop root }
      | _ => none
  | .dialDrop =>
      match s.dial with
      | .drop root => some { s with transport := s.transport.disconnect, dial := .clone root }
      | _ => none
  | .dialClone fid =>
      match s.dial with
      | .clone root =>
          some { s with dial := match fid with
            | some number => .data root ⟨number, s.session⟩
            | none => .idle }
      | _ => none
  | .dialData opened =>
      match s.dial with
      | .data _ ctl =>
          some { s with dial := match opened with
            | some (conv, number) => .connect ctl ⟨number, s.session⟩ conv
            | none => .idle }
      | _ => none
  | .dialConnect ok =>
      match s.dial with
      | .connect ctl data conv => some { s with dial := if ok then .publish ctl data conv else .idle }
      | _ => none
  | .dialPublish =>
      match s.dial with
      | .publish ctl data conv =>
          some { s with transport := ⟨some ctl, some data, some conv, true, s.peer⟩, dial := .version }
      | _ => none
  | .dialVersion ok => if s.dial = .version then some { s with dial := if ok then .attach else .idle } else none
  | .dialAttach root =>
      if s.dial = .attach then
        some (match root with
          | some root => { s with attached := true, rootFid := root, dial := .idle }
          | none => { s with dial := .idle })
      else none
  | _ => none

/-- `fw_write_mesh_peer` and `mesh9p_remote_down`. -/
def leaveStep (s : Tunnel) : TunnelEvent → Option Tunnel
  | .peerWrite buf =>
      if s.dial = .idle then
        some { s with peer := meshPeer buf, attached := false, leaving := s.leaving + 1 }
      else none
  | .downCall => if s.dial = .idle then some { s with attached := false, leaving := s.leaving + 1 } else none
  | .disconnect =>
      if s.leaving = 0 then none
      else some { s with transport := s.transport.disconnect, leaving := s.leaving - 1 }
  | _ => none

def carrierStep (s : Tunnel) : TunnelEvent → Option Tunnel
  | .ensure h => some (s.ensure h)
  | .linkDown => some { s with link := s.link.drop }
  | .reset => some { s with session := s.session + 1 }
  | .unlink => some { s with link := s.link.reset }
  | _ => none

/-- `pump_fn`: a cycle takes the data fid of a connected transport once. -/
def pumpStep (s : Tunnel) : TunnelEvent → Option Tunnel
  | .pumpTake =>
      if s.pump = none then some { s with pump := if s.transport.connected then s.transport.dataFid else none }
      else none
  | .pumpWrite => if s.pump = none then none else some s
  | .pumpEnd => if s.pump = none then none else some { s with pump := none }
  | _ => none

def tunnelStep (s : Tunnel) (event : TunnelEvent) : Option Tunnel :=
  match event with
  | .ensure _ | .linkDown | .reset | .unlink => carrierStep s event
  | .peerWrite _ | .downCall | .disconnect => leaveStep s event
  | .pumpTake | .pumpWrite | .pumpEnd => pumpStep s event
  | _ => dialStep s event

inductive DialMove (s : Tunnel) : TunnelEvent → Tunnel → Prop where
  | unneeded (hdial : s.dial = .idle) (hcall : s.peer.text = [] ∨ s.attached = true) : DialMove s .rootCall s
  | call (hdial : s.dial = .idle) (hcall : ¬(s.peer.text = [] ∨ s.attached = true)) :
      DialMove s .rootCall { s with dial := .link }
  | link (h : Handshake) (root : Nat) (hdial : s.dial = .link) (hroot : (meshEnsureAttached h s.link).1 = some root) :
      DialMove s (.dialLink h) { s.ensure h with dial := .check root }
  | noLink (h : Handshake) (hdial : s.dial = .link) (hroot : (meshEnsureAttached h s.link).1 = none) :
      DialMove s (.dialLink h) { s.ensure h with dial := .idle }
  | keep (root : Nat) (hdial : s.dial = .check root)
      (hsame : s.transport.connected = true ∧ s.transport.peer = s.peer) :
      DialMove s .dialCheck { s with dial := .version }
  | redial (root : Nat) (hdial : s.dial = .check root)
      (hother : ¬(s.transport.connected = true ∧ s.transport.peer = s.peer)) :
      DialMove s .dialCheck { s with dial := .drop root }
  | drop (root : Nat) (hdial : s.dial = .drop root) :
      DialMove s .dialDrop { s with transport := s.transport.disconnect, dial := .clone root }
  | clone (root number : Nat) (hdial : s.dial = .clone root) :
      DialMove s (.dialClone (some number)) { s with dial := .data root ⟨number, s.session⟩ }
  | noClone (root : Nat) (hdial : s.dial = .clone root) : DialMove s (.dialClone none) { s with dial := .idle }
  | data (root : Nat) (ctl : Fid) (conv number : Nat) (hdial : s.dial = .data root ctl) :
      DialMove s (.dialData (some (conv, number))) { s with dial := .connect ctl ⟨number, s.session⟩ conv }
  | noData (root : Nat) (ctl : Fid) (hdial : s.dial = .data root ctl) :
      DialMove s (.dialData none) { s with dial := .idle }
  | connect (ctl data : Fid) (conv : Nat) (hdial : s.dial = .connect ctl data conv) :
      DialMove s (.dialConnect true) { s with dial := .publish ctl data conv }
  | noConnect (ctl data : Fid) (conv : Nat) (hdial : s.dial = .connect ctl data conv) :
      DialMove s (.dialConnect false) { s with dial := .idle }
  | publish (ctl data : Fid) (conv : Nat) (hdial : s.dial = .publish ctl data conv) :
      DialMove s .dialPublish
        { s with transport := ⟨some ctl, some data, some conv, true, s.peer⟩, dial := .version }
  | version (hdial : s.dial = .version) : DialMove s (.dialVersion true) { s with dial := .attach }
  | noVersion (hdial : s.dial = .version) : DialMove s (.dialVersion false) { s with dial := .idle }
  | attach (root : Nat) (hdial : s.dial = .attach) :
      DialMove s (.dialAttach (some root)) { s with attached := true, rootFid := root, dial := .idle }
  | noAttach (hdial : s.dial = .attach) : DialMove s (.dialAttach none) { s with dial := .idle }

theorem dialStep_move {s s' : Tunnel} {event : TunnelEvent} (hstep : dialStep s event = some s') :
    DialMove s event s' := by
  cases event with
  | rootCall =>
    obtain ⟨hdial, hs'⟩ := Option.ite_none_right_eq_some.mp hstep
    cases hs'
    split
    · rename_i hcall
      exact .unneeded hdial hcall
    · rename_i hcall
      exact .call hdial hcall
  | dialLink h =>
    obtain ⟨hdial, hs'⟩ := Option.ite_none_right_eq_some.mp hstep
    cases hs'
    split
    · rename_i root hroot
      exact .link h root hdial hroot
    · rename_i hroot
      exact .noLink h hdial hroot
  | dialCheck =>
    simp only [dialStep] at hstep
    split at hstep <;> cases hstep
    rename_i root hdial
    split
    · rename_i hsame
      exact .keep root hdial hsame
    · rename_i hother
      exact .redial root hdial hother
  | dialDrop =>
    simp only [dialStep] at hstep
    split at hstep <;> cases hstep
    rename_i root hdial
    exact .drop root hdial
  | dialClone fid =>
    simp only [dialStep] at hstep
    split at hstep <;> cases hstep
    rename_i root hdial
    cases fid with
    | some number => exact .clone root number hdial
    | none => exact .noClone root hdial
  | dialData opened =>
    simp only [dialStep] at hstep
    split at hstep <;> cases hstep
    rename_i root ctl hdial
    cases opened with
    | some opened => exact .data root ctl opened.1 opened.2 hdial
    | none => exact .noData root ctl hdial
  | dialConnect ok =>
    simp only [dialStep] at hstep
    split at hstep <;> cases hstep
    rename_i ctl data conv hdial
    cases ok with
    | true => exact .connect ctl data conv hdial
    | false => exact .noConnect ctl data conv hdial
  | dialPublish =>
    simp only [dialStep] at hstep
    split at hstep <;> cases hstep
    rename_i ctl data conv hdial
    exact .publish ctl data conv hdial
  | dialVersion ok =>
    obtain ⟨hdial, hs'⟩ := Option.ite_none_right_eq_some.mp hstep
    cases hs'
    cases ok with
    | true => exact .version hdial
    | false => exact .noVersion hdial
  | dialAttach root =>
    obtain ⟨hdial, hs'⟩ := Option.ite_none_right_eq_some.mp hstep
    cases hs'
    cases root with
    | some root => exact .attach root hdial
    | none => exact .noAttach hdial
  | ensure | linkDown | reset | unlink | peerWrite | downCall | disconnect | pumpTake | pumpWrite | pumpEnd =>
    cases hstep

def dialing : List TunnelEvent :=
  [.peerWrite [0x33, 0x30, 0x3a, 0x30, 0x30], .disconnect, .rootCall, .dialLink ⟨none, true, some 1⟩, .dialCheck,
    .dialDrop, .dialClone (some 2), .dialData (some (0, 3)), .dialConnect true, .dialPublish, .dialVersion true,
    .dialAttach (some 4)]

end DectMesh.Relay
