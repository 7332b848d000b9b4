import DectMesh.Lib.LossyChannel
import DectMesh.Lib.Run
import Mathlib.Logic.Function.Basic

/-! The console of the 9151 and the host's CDC ACM port, bridged by one
interrupt handler on either end. A handler can be preempted anywhere, so each
of its accesses to what the other end shares is a step of its own. -/
namespace DectMesh.Relay.ConsoleBridge

open DectMesh.Lib

def ringSize : Nat := 1024

/-- What a claim asks for, and `sizeof(drop)`. -/
def claimSize : Nat := 64

inductive BridgeEp where
  | cons
  | cdc
  deriving DecidableEq

def BridgeEp.peer : BridgeEp → BridgeEp
  | .cons => .cdc
  | .cdc => .cons

/-- `peer_needs_dtr`, as `console_bridge_init` sets it. -/
def BridgeEp.peerNeedsDtr : BridgeEp → Bool
  | .cons => true
  | .cdc => false

/-- Where `bridge_isr` stands. `shut` has found DTR low; `claimed` and `taken`
have their claims on the two rings, `read` and `filled` have used them. -/
inductive Isr where
  | head
  | shut
  | admitted
  | claimed (space : Nat)
  | read (bytes : List UInt8)
  | stored
  | tx
  | taken (avail : Nat)
  | filled (wrote : Nat)
  deriving DecidableEq

/-- `rxRing` is the ring that an end fills and its peer drains. `received` and
`sent` are history: the bytes read from an end's FIFO, with whether they went
into the ring, and the bytes written to it. -/
structure Bridge where
  isr : BridgeEp → Isr
  rxRing : BridgeEp → List UInt8
  txIrq : BridgeEp → Bool
  dtr : Bool
  received : BridgeEp → List (UInt8 × Bool)
  sent : BridgeEp → List UInt8

def Bridge.init (dtr : Bool) : Bridge where
  isr := fun _ => .head
  rxRing := fun _ => []
  txIrq := fun _ => false
  dtr := dtr
  received := fun _ => []
  sent := fun _ => []

/-- The statements of `bridge_isr`. What the driver and the ring come up with
is the run's choice: whether a FIFO is ready, how far a claim reaches, how many
bytes come out of a FIFO or fit in. A negative count is an empty read. -/
inductive IsrStep where
  | rxReady
  | rxIdle
  | claim (space : Nat)
  | discard (bytes : List UInt8)
  | read (bytes : List UInt8)
  | store
  | enable
  | txIdle
  | take (avail : Nat)
  | disable
  | fill (wrote : Nat)
  | finish

inductive BridgeEvent where
  | dtr (level : Bool)
  | isr (ep : BridgeEp) (event : IsrStep)

namespace Bridge

def goto (s : Bridge) (ep : BridgeEp) (isr : Isr) : Bridge :=
  { s with isr := Function.update s.isr ep isr }

def noteRead (s : Bridge) (ep : BridgeEp) (bytes : List UInt8) (kept : Bool) : Bridge :=
  { s with received := Function.update s.received ep (s.received ep ++ bytes.map fun byte => (byte, kept)) }

/-- A claim reaches at most to the end of the ring's memory, and is empty only
if there is nothing to claim. -/
def rxStep (s : Bridge) (ep : BridgeEp) : IsrStep → Option Bridge
  | .rxReady =>
      if s.isr ep = .head then some (s.goto ep (if ep.peerNeedsDtr && !s.dtr then .shut else .admitted)) else none
  | .rxIdle => if s.isr ep = .head then some (s.goto ep .tx) else none
  | .claim space =>
      if s.isr ep = .admitted ∧ space ≤ claimSize ∧ (s.rxRing ep).length + space ≤ ringSize ∧
          (space = 0 → (s.rxRing ep).length = ringSize) then
        some (s.goto ep (.claimed space))
      else none
  | .discard bytes =>
      if claimSize < bytes.length then none
      else
        match s.isr ep with
        | .shut => some ((s.noteRead ep bytes false).goto ep .head)
        | .claimed 0 => some ((s.noteRead ep bytes false).goto ep .tx)
        | _ => none
  | .read bytes =>
      match s.isr ep with
      | .claimed space =>
          if 0 < space ∧ bytes.length ≤ space then some ((s.noteRead ep bytes true).goto ep (.read bytes))
          else none
      | _ => none
  | .store =>
      match s.isr ep with
      | .read bytes =>
          some ({ s with rxRing := Function.update s.rxRing ep (s.rxRing ep ++ bytes) }.goto ep
            (if bytes = [] then .tx else .stored))
      | _ => none
  | .enable =>
      if s.isr ep = .stored then some ({ s with txIrq := Function.update s.txIrq ep.peer true }.goto ep .tx)
      else none
  | _ => none

def txStep (s : Bridge) (ep : BridgeEp) : IsrStep → Option Bridge
  | .txIdle => if s.isr ep = .tx then some (s.goto ep .head) else none
  | .take avail =>
      if s.isr ep = .tx ∧ avail ≤ claimSize ∧ avail ≤ (s.rxRing ep.peer).length ∧
          (avail = 0 → s.rxRing ep.peer = []) then
        some (s.goto ep (.taken avail))
      else none
  | .disable =>
      if s.isr ep = .taken 0 then some ({ s with txIrq := Function.update s.txIrq ep false }.goto ep .head)
      else none
  | .fill wrote =>
      match s.isr ep with
      | .taken avail =>
          if 0 < avail ∧ wrote ≤ avail then
            some ({ s with sent := Function.update s.sent ep (s.sent ep ++ (s.rxRing ep.peer).take wrote) }.goto ep
              (.filled wrote))
          else none
      | _ => none
  | .finish =>
      match s.isr ep with
      | .filled wrote =>
          some ({ s with rxRing := Function.update s.rxRing ep.peer ((s.rxRing ep.peer).drop wrote) }.goto ep .head)
      | _ => none
  | _ => none

def step (s : Bridge) : BridgeEvent → Option Bridge
  | .dtr level => some { s with dtr := level }
  | .isr ep event =>
      match event with
      | .rxReady | .rxIdle | .claim _ | .discard _ | .read _ | .store | .enable => s.rxStep ep event
      | .txIdle | .take _ | .disable | .fill _ | .finish => s.txStep ep event

end Bridge

inductive IsrMove (s : Bridge) (ep : BridgeEp) : IsrStep → Bridge → Prop where
  | shut (hat : s.isr ep = .head) (hneeds : ep.peerNeedsDtr = true) (hdtr : s.dtr = false) :
      IsrMove s ep .rxReady (s.goto ep .shut)
  | letIn (hat : s.isr ep = .head) (hdtr : ep.peerNeedsDtr = true → s.dtr = true) :
      IsrMove s ep .rxReady (s.goto ep .admitted)
  | rxIdle (hat : s.isr ep = .head) : IsrMove s ep .rxIdle (s.goto ep .tx)
  | claim {space : Nat} (hat : s.isr ep = .admitted) (hroom : (s.rxRing ep).length + space ≤ ringSize)
      (hfull : space = 0 → (s.rxRing ep).length = ringSize) :
      IsrMove s ep (.claim space) (s.goto ep (.claimed space))
  | dropShut {bytes : List UInt8} (hat : s.isr ep = .shut) :
      IsrMove s ep (.discard bytes) ((s.noteRead ep bytes false).goto ep .head)
  | dropFull {bytes : List UInt8} (hat : s.isr ep = .claimed 0) :
      IsrMove s ep (.discard bytes) ((s.noteRead ep bytes false).goto ep .tx)
  | read {space : Nat} {bytes : List UInt8} (hat : s.isr ep = .claimed space) (hfit : bytes.length ≤ space) :
      IsrMove s ep (.read bytes) ((s.noteRead ep bytes true).goto ep (.read bytes))
  | store {bytes : List UInt8} (hat : s.isr ep = .read bytes) :
      IsrMove s ep .store ({ s with rxRing := Function.update s.rxRing ep (s.rxRing ep ++ bytes) }.goto ep
        (if bytes = [] then .tx else .stored))
  | enable (hat : s.isr ep = .stored) :
      IsrMove s ep .enable ({ s with txIrq := Function.update s.txIrq ep.peer true }.goto ep .tx)
  | txIdle (hat : s.isr ep = .tx) : IsrMove s ep .txIdle (s.goto ep .head)
  | take {avail : Nat} (hat : s.isr ep = .tx) (hthere : avail ≤ (s.rxRing ep.peer).length)
      (hempty : avail = 0 → s.rxRing ep.peer = []) : IsrMove s ep (.take avail) (s.goto ep (.taken avail))
  | disable (hat : s.isr ep = .taken 0) :
      IsrMove s ep .disable ({ s with txIrq := Function.update s.txIrq ep false }.goto ep .head)
  | fill {avail wrote : Nat} (hat : s.isr ep = .taken avail) (hfit : wrote ≤ avail) :
      IsrMove s ep (.fill wrote)
        ({ s with sent := Function.update s.sent ep (s.sent ep ++ (s.rxRing ep.peer).take wrote) }.goto ep
          (.filled wrote))
  | finish {wrote : Nat} (hat : s.isr ep = .filled wrote) :
      IsrMove s ep .finish
        ({ s with rxRing := Function.update s.rxRing ep.peer ((s.rxRing ep.peer).drop wrote) }.goto ep .head)

variable {s s' : Bridge} {ep : BridgeEp} {event : IsrStep}

theorem rxStep_move (h : s.rxStep ep event = some s') : IsrMove s ep event s' := by
  cases event with
  | rxReady =>
    obtain ⟨hat, hs'⟩ := Option.ite_none_right_eq_some.mp h
    cases hs'
    split
    · rename_i hgate
      simp only [Bool.and_eq_true, Bool.not_eq_true'] at hgate
      exact .shut hat hgate.1 hgate.2
    · rename_i hgate
      simp only [Bool.and_eq_true, Bool.not_eq_true', not_and, Bool.not_eq_false] at hgate
      exact .letIn hat hgate
  | rxIdle =>
    obtain ⟨hat, hs'⟩ := Option.ite_none_right_eq_some.mp h
    cases hs'
    exact .rxIdle hat
  | claim space =>
    obtain ⟨⟨hat, -, hroom, hfull⟩, hs'⟩ := Option.ite_none_right_eq_some.mp h
    cases hs'
    exact .claim hat hroom hfull
  | discard bytes =>
    obtain ⟨-, h⟩ := Option.ite_none_left_eq_some.mp h
    split at h
    · rename_i hat
      cases h
      exact .dropShut hat
    · rename_i hat
      cases h
      exact .dropFull hat
    · cases h
  | read bytes =>
    rw [Bridge.rxStep] at h
    split at h
    · rename_i space hat
      obtain ⟨⟨-, hfit⟩, hs'⟩ := Option.ite_none_right_eq_some.mp h
      cases hs'
      exact .read hat hfit
    · cases h
  | store =>
    rw [Bridge.rxStep] at h
    split at h
    · rename_i bytes hat
      cases h
      exact .store hat
    · cases h
  | enable =>
    obtain ⟨hat, hs'⟩ := Option.ite_none_right_eq_some.mp h
    cases hs'
    exact .enable hat
  | txIdle | take _ | disable | fill _ | finish => cases h

theorem txStep_move (h : s.txStep ep event = some s') : IsrMove s ep event s' := by
  cases event with
  | txIdle =>
    obtain ⟨hat, hs'⟩ := Option.ite_none_right_eq_some.mp h
    cases hs'
    exact .txIdle hat
  | take avail =>
    obtain ⟨⟨hat, -, hthere, hempty⟩, hs'⟩ := Option.ite_none_right_eq_some.mp h
    cases hs'
    exact .take hat hthere hempty
  | disable =>
    obtain ⟨hat, hs'⟩ := Option.ite_none_right_eq_some.mp h
    cases hs'
    exact .disable hat
  | fill wrote =>
    rw [Bridge.txStep] at h
    split at h
    · rename_i avail hat
      obtain ⟨⟨-, hfit⟩, hs'⟩ := Option.ite_none_right_eq_some.mp h
      cases hs'
      exact .fill hat hfit
    · cases h
  | finish =>
    rw [Bridge.txStep] at h
    split at h
    · rename_i wrote hat
      cases h
      exact .finish hat
    · cases h
  | rxReady | rxIdle | claim _ | discard _ | read _ | store | enable => cases h

theorem step_move (h : s.step (.isr ep event) = some s') : IsrMove s ep event s' := by
  cases event with
  | rxReady | rxIdle | claim _ | discard _ | read _ | store | enable => exact rxStep_move h
  | txIdle | take _ | disable | fill _ | finish => exact txStep_move h

/-! ## A channel from either end to the other -/

def Isr.hand : Isr → List UInt8
  | .read bytes => bytes
  | _ => []

def Isr.held : Isr → Nat
  | .filled wrote => wrote
  | _ => 0

def Isr.reserved : Isr → Nat
  | .claimed space => space
  | .read bytes => bytes.length
  | _ => 0

def Isr.due : Isr → Nat
  | .taken avail => avail
  | .filled wrote => wrote
  | _ => 0

theorem Isr.held_le_due (isr : Isr) : isr.held ≤ isr.due := by
  cases isr <;> first | exact Nat.zero_le _ | exact Nat.le_refl _

structure Direction where
  received : List (UInt8 × Bool)
  ring : List UInt8
  sent : List UInt8
  producer : Isr
  consumer : Isr

def Bridge.direction (s : Bridge) (ep : BridgeEp) : Direction where
  received := s.received ep
  ring := s.rxRing ep
  sent := s.sent ep.peer
  producer := s.isr ep
  consumer := s.isr ep.peer

namespace Direction

/-- On their way are the bytes of the ring, but for those that are written
already, and the bytes that are read and not yet in it. -/
def channel (l : Direction) : Channel UInt8 where
  offered := l.received
  queued := l.ring.drop l.consumer.held ++ l.producer.hand
  delivered := l.sent

structure Inv (l : Direction) : Prop where
  faithful : l.channel.Faithful
  room : l.ring.length + l.producer.reserved ≤ ringSize
  due : l.consumer.due ≤ l.ring.length

variable {l : Direction}

theorem Inv.producer (h : l.Inv) {i : Isr} (hhand : i.hand = l.producer.hand)
    (hroom : l.ring.length + i.reserved ≤ ringSize) : Inv { l with producer := i } := by
  refine ⟨?_, hroom, h.due⟩
  have hfaithful := h.faithful
  simp only [channel, ← hhand] at hfaithful
  exact hfaithful

theorem Inv.consumer (h : l.Inv) {i : Isr} (hheld : i.held = l.consumer.held)
    (hdue : i.due ≤ l.ring.length) : Inv { l with consumer := i } := by
  refine ⟨?_, h.room, hdue⟩
  have hfaithful := h.faithful
  simp only [channel, ← hheld] at hfaithful
  exact hfaithful

theorem Inv.lost (h : l.Inv) (bytes : List UInt8) :
    Inv { l with received := l.received ++ bytes.map fun byte => (byte, false) } :=
  ⟨h.faithful.lose bytes, h.room, h.due⟩

theorem Inv.read (h : l.Inv) {space : Nat} (hat : l.producer = .claimed space) {bytes : List UInt8}
    (hfit : bytes.length ≤ space) :
    Inv { l with received := l.received ++ bytes.map fun byte => (byte, true), producer := .read bytes } := by
  obtain ⟨hfaithful, hroom, hdue⟩ := h
  rw [hat] at hroom
  refine ⟨?_, Nat.le_trans (Nat.add_le_add_left hfit _) hroom, hdue⟩
  have hread := hfaithful.accept bytes
  simp only [channel, Channel.accept, hat, Isr.hand, List.append_nil] at hread
  exact hread

theorem Inv.store (h : l.Inv) {bytes : List UInt8} (hat : l.producer = .read bytes) {i : Isr}
    (hhand : i.hand = []) (hreserved : i.reserved = 0) :
    Inv { l with ring := l.ring ++ bytes, producer := i } := by
  obtain ⟨hfaithful, hroom, hdue⟩ := h
  rw [hat] at hroom
  refine ⟨?_, ?_, ?_⟩
  · have hheld : l.consumer.held ≤ l.ring.length := Nat.le_trans l.consumer.held_le_due hdue
    simp only [channel, hat, Isr.hand] at hfaithful
    simp only [channel, hhand, List.append_nil, List.drop_append_of_le_length hheld]
    exact hfaithful
  · show (l.ring ++ bytes).length + i.reserved ≤ ringSize
    rw [hreserved, List.length_append]
    exact hroom
  · show l.consumer.due ≤ (l.ring ++ bytes).length
    rw [List.length_append]
    exact Nat.le_add_right_of_le hdue

theorem Inv.fill (h : l.Inv) {avail : Nat} (hat : l.consumer = .taken avail) {wrote : Nat} (hfit : wrote ≤ avail) :
    Inv { l with sent := l.sent ++ l.ring.take wrote, consumer := .filled wrote } := by
  obtain ⟨hfaithful, hroom, hdue⟩ := h
  rw [hat] at hdue
  have hlen : wrote ≤ l.ring.length := Nat.le_trans hfit hdue
  refine ⟨?_, hroom, hlen⟩
  have hsent := hfaithful.deliver wrote
  simp only [channel, Channel.deliver, hat, Isr.held, List.drop_zero, List.take_append_of_le_length hlen,
    List.drop_append_of_le_length hlen] at hsent
  exact hsent

theorem Inv.finish (h : l.Inv) {wrote : Nat} (hat : l.consumer = .filled wrote) :
    Inv { l with ring := l.ring.drop wrote, consumer := .head } := by
  obtain ⟨hfaithful, hroom, hdue⟩ := h
  refine ⟨?_, ?_, Nat.zero_le _⟩
  · simp only [channel, hat, Isr.held] at hfaithful
    simp only [channel, Isr.held, List.drop_zero]
    exact hfaithful
  · show (l.ring.drop wrote).length + l.producer.reserved ≤ ringSize
    rw [List.length_drop]
    omega

theorem Inv.underway (h : l.Inv) : l.channel.queued.length ≤ ringSize := by
  have hroom := h.room
  have hhand : l.producer.hand.length ≤ l.producer.reserved := by
    cases l.producer <;> first | exact Nat.zero_le _ | exact Nat.le_refl _
  simp only [channel, List.length_append, List.length_drop]
  omega

end Direction

/-! ## Every statement keeps both directions -/

def BridgeInv (s : Bridge) : Prop := ∀ ep, (s.direction ep).Inv

theorem bridgeInv_init (dtr : Bool) : BridgeInv (.init dtr) := fun _ => ⟨rfl, Nat.zero_le _, Nat.zero_le _⟩

@[simp] theorem peer_peer (ep : BridgeEp) : ep.peer.peer = ep := by cases ep <;> rfl

@[simp] theorem peer_ne (ep : BridgeEp) : ep.peer ≠ ep := by cases ep <;> decide

@[simp] theorem ne_peer (ep : BridgeEp) : ep ≠ ep.peer := (peer_ne ep).symm

theorem eq_or_peer (ep other : BridgeEp) : other = ep ∨ other = ep.peer := by
  cases ep <;> cases other <;> decide

/-- Both directions, seen from one end: it produces for the one and consumes
from the other. -/
theorem bridgeInv_of (ep : BridgeEp) {own other : Direction} (hown : s.direction ep = own)
    (hother : s.direction ep.peer = other) (hproduces : own.Inv) (hconsumes : other.Inv) : BridgeInv s := by
  intro other
  rcases eq_or_peer ep other with rfl | rfl
  · rw [hown]
    exact hproduces
  · rw [hother]
    exact hconsumes

theorem BridgeInv.goto (h : BridgeInv s) {isr : Isr} (hhand : isr.hand = (s.isr ep).hand)
    (hheld : isr.held = (s.isr ep).held) (hroom : (s.rxRing ep).length + isr.reserved ≤ ringSize)
    (hdue : isr.due ≤ (s.rxRing ep.peer).length) : BridgeInv (s.goto ep isr) := by
  have hconsumer : (s.direction ep.peer).consumer = s.isr ep := congrArg s.isr (peer_peer ep)
  refine bridgeInv_of ep ?_ ?_ ((h ep).producer (i := isr) hhand hroom)
    ((h ep.peer).consumer (i := isr) (hconsumer ▸ hheld) hdue)
  · simp [Bridge.direction, Bridge.goto]
  · simp [Bridge.direction, Bridge.goto]

theorem BridgeInv.lost (h : BridgeInv s) (ep : BridgeEp) (bytes : List UInt8) :
    BridgeInv (s.noteRead ep bytes false) := by
  refine bridgeInv_of ep ?_ ?_ ((h ep).lost bytes) (h ep.peer)
  · simp [Bridge.direction, Bridge.noteRead]
  · simp [Bridge.direction, Bridge.noteRead]

theorem BridgeInv.read (h : BridgeInv s) {space : Nat} (hat : s.isr ep = .claimed space) {bytes : List UInt8}
    (hfit : bytes.length ≤ space) : BridgeInv ((s.noteRead ep bytes true).goto ep (.read bytes)) := by
  have hconsumer : (s.direction ep.peer).consumer = s.isr ep := congrArg s.isr (peer_peer ep)
  have hheld : (Isr.read bytes).held = (s.direction ep.peer).consumer.held := by
    rw [hconsumer, hat]
    rfl
  refine bridgeInv_of ep ?_ ?_ ((h ep).read hat hfit) ((h ep.peer).consumer hheld (Nat.zero_le _))
  · simp [Bridge.direction, Bridge.noteRead, Bridge.goto]
  · simp [Bridge.direction, Bridge.noteRead, Bridge.goto]

theorem BridgeInv.store (h : BridgeInv s) {bytes : List UInt8} (hat : s.isr ep = .read bytes) {isr : Isr}
    (hisr : isr = .tx ∨ isr = .stored) :
    BridgeInv ({ s with rxRing := Function.update s.rxRing ep (s.rxRing ep ++ bytes) }.goto ep isr) := by
  have hconsumer : (s.direction ep.peer).consumer = s.isr ep := congrArg s.isr (peer_peer ep)
  have hheld : isr.held = (s.direction ep.peer).consumer.held := by
    rw [hconsumer, hat]
    rcases hisr with rfl | rfl <;> rfl
  have hdue : isr.due = 0 := by rcases hisr with rfl | rfl <;> rfl
  refine bridgeInv_of ep ?_ ?_ ((h ep).store (i := isr) hat ?_ ?_)
    ((h ep.peer).consumer hheld (hdue ▸ Nat.zero_le _))
  · simp [Bridge.direction, Bridge.goto]
  · simp [Bridge.direction, Bridge.goto]
  · rcases hisr with rfl | rfl <;> rfl
  · rcases hisr with rfl | rfl <;> rfl

theorem BridgeInv.fill (h : BridgeInv s) {avail : Nat} (hat : s.isr ep = .taken avail) {wrote : Nat}
    (hfit : wrote ≤ avail) :
    BridgeInv ({ s with sent := Function.update s.sent ep (s.sent ep ++ (s.rxRing ep.peer).take wrote) }.goto ep
      (.filled wrote)) := by
  have hconsumer : (s.direction ep.peer).consumer = .taken avail := (congrArg s.isr (peer_peer ep)).trans hat
  have hroom := (h ep).room
  refine bridgeInv_of ep ?_ ?_ ((h ep).producer (i := .filled wrote) ?_ ?_) ((h ep.peer).fill hconsumer hfit)
  · simp [Bridge.direction, Bridge.goto]
  · simp [Bridge.direction, Bridge.goto]
  · exact (congrArg Isr.hand hat).symm
  · exact Nat.le_trans (Nat.le_add_right _ _) hroom

theorem BridgeInv.finish (h : BridgeInv s) {wrote : Nat} (hat : s.isr ep = .filled wrote) :
    BridgeInv
      ({ s with rxRing := Function.update s.rxRing ep.peer ((s.rxRing ep.peer).drop wrote) }.goto ep .head) := by
  have hconsumer : (s.direction ep.peer).consumer = .filled wrote := (congrArg s.isr (peer_peer ep)).trans hat
  have hroom := (h ep).room
  refine bridgeInv_of ep ?_ ?_ ((h ep).producer (i := .head) ?_ ?_) ((h ep.peer).finish hconsumer)
  · simp [Bridge.direction, Bridge.goto]
  · simp [Bridge.direction, Bridge.goto]
  · exact (congrArg Isr.hand hat).symm
  · exact Nat.le_trans (Nat.le_add_right _ _) hroom

theorem BridgeInv.aside (h : BridgeInv s) (txIrq : BridgeEp → Bool) (dtr : Bool) :
    BridgeInv { s with txIrq := txIrq, dtr := dtr } := h

theorem IsrMove.keeps (hmove : IsrMove s ep event s') (h : BridgeInv s) : BridgeInv s' := by
  have hroom : (s.rxRing ep).length ≤ ringSize := Nat.le_trans (Nat.le_add_right _ _) (h ep).room
  cases hmove with
  | shut hat | letIn hat | rxIdle hat =>
    exact h.goto (congrArg Isr.hand hat).symm (congrArg Isr.held hat).symm hroom (Nat.zero_le _)
  | claim hat hclaim => exact h.goto (congrArg Isr.hand hat).symm (congrArg Isr.held hat).symm hclaim (Nat.zero_le _)
  | dropShut hat | dropFull hat =>
    exact (h.lost ep _).goto (congrArg Isr.hand hat).symm (congrArg Isr.held hat).symm hroom (Nat.zero_le _)
  | read hat hfit => exact h.read hat hfit
  | store hat =>
    refine h.store hat ?_
    split
    · exact .inl rfl
    · exact .inr rfl
  | enable hat | disable hat =>
    exact (h.aside _ s.dtr).goto (congrArg Isr.hand hat).symm (congrArg Isr.held hat).symm hroom (Nat.zero_le _)
  | txIdle hat => exact h.goto (congrArg Isr.hand hat).symm (congrArg Isr.held hat).symm hroom (Nat.zero_le _)
  | take hat hthere => exact h.goto (congrArg Isr.hand hat).symm (congrArg Isr.held hat).symm hroom hthere
  | fill hat hfit => exact h.fill hat hfit
  | finish hat => exact h.finish hat

theorem step_inv {label : BridgeEvent} (h : BridgeInv s) (hstep : s.step label = some s') : BridgeInv s' := by
  cases label with
  | dtr level =>
    cases hstep
    exact h.aside s.txIrq level
  | isr ep event => exact (step_move hstep).keeps h

theorem run_inv {dtr : Bool} {labels : List BridgeEvent} (hrun : run Bridge.step (.init dtr) labels = some s) :
    BridgeInv s :=
  @run_invariant _ _ Bridge.step (fun _ _ => True) BridgeInv (fun _ _ _ h _ hstep => step_inv h hstep) _ _ _
    (bridgeInv_init dtr) (along_of_mem fun _ _ _ => trivial) hrun

/-! ## When nothing is lost -/

def Passes (ep : BridgeEp) (s : Bridge) : BridgeEvent → Prop
  | .isr other .rxReady => other = ep → ep.peerNeedsDtr = true → s.dtr = true
  | .isr other (.claim _) => other = ep → (s.rxRing ep).length < ringSize
  | _ => True

structure KeepsAll (ep : BridgeEp) (s : Bridge) : Prop where
  host : s.isr ep ≠ .shut
  room : s.isr ep ≠ .claimed 0
  kept : ∀ offer ∈ s.received ep, offer.2 = true

/-- A handler leaves the place and the history of the other alone. -/
theorem IsrMove.frame (hmove : IsrMove s ep event s') :
    s'.isr ep.peer = s.isr ep.peer ∧ s'.received ep.peer = s.received ep.peer := by
  cases hmove <;> simp [Bridge.goto, Bridge.noteRead]

theorem keepsAll_goto {i : Isr} (hkept : ∀ offer ∈ s.received ep, offer.2 = true) (hhost : i ≠ .shut)
    (hroom : i ≠ .claimed 0) : KeepsAll ep (s.goto ep i) := by
  have hat : (s.goto ep i).isr ep = i := Function.update_self ..
  exact ⟨ne_of_eq_of_ne hat hhost, ne_of_eq_of_ne hat hroom, hkept⟩

theorem IsrMove.keepsAll (hmove : IsrMove s ep event s') (hgood : Passes ep s (.isr ep event))
    (h : KeepsAll ep s) : KeepsAll ep s' := by
  obtain ⟨hhost, hroom, hkept⟩ := h
  cases hmove with
  | shut hat hneeds hdtr =>
    rw [hgood rfl hneeds] at hdtr
    cases hdtr
  | dropShut hat => exact absurd hat hhost
  | dropFull hat => exact absurd hat hroom
  | claim hat hclaim hfull =>
    have hspace := hgood rfl
    refine keepsAll_goto hkept (by simp) fun hzero => ?_
    cases hzero
    exact Nat.lt_irrefl _ (hfull rfl ▸ hspace)
  | read hat hfit =>
    refine keepsAll_goto (fun offer hoffer => ?_) (by simp) (by simp)
    simp only [Bridge.noteRead, Function.update_self, List.mem_append, List.mem_map] at hoffer
    rcases hoffer with hold | ⟨byte, -, rfl⟩
    · exact hkept offer hold
    · rfl
  | store hat => split <;> exact keepsAll_goto hkept (by simp) (by simp)
  | enable hat | disable hat | fill hat | finish hat => exact keepsAll_goto hkept (by simp) (by simp)
  | _ => exact keepsAll_goto hkept (by simp) (by simp)

theorem step_keepsAll {label : BridgeEvent} (h : KeepsAll ep s) (hgood : Passes ep s label)
    (hstep : s.step label = some s') : KeepsAll ep s' := by
  cases label with
  | dtr level =>
    cases hstep
    exact ⟨h.host, h.room, h.kept⟩
  | isr other event =>
    have hmove := step_move hstep
    rcases eq_or_peer other ep with rfl | rfl
    · exact hmove.keepsAll hgood h
    · obtain ⟨hisr, hreceived⟩ := hmove.frame
      exact ⟨hisr ▸ h.host, hisr ▸ h.room, hreceived ▸ h.kept⟩

def Bridge.underway (s : Bridge) (ep : BridgeEp) : List UInt8 := (s.direction ep).channel.queued

/-- In every interleaving of the two handlers and of DTR, what an end writes is
what its peer's handler kept of the bytes it read, in order and once; nothing
is made up, and at most a ring of bytes is under way. As long as the handler
finds the host attached and room in the ring, it keeps every byte. -/
theorem console_bridge_in_order {dtr : Bool} {labels : List BridgeEvent}
    (hrun : run Bridge.step (.init dtr) labels = some s) (ep : BridgeEp) :
    s.sent ep.peer ++ s.underway ep = accepted (s.received ep) ∧
      (s.underway ep).length ≤ ringSize ∧
      (Along Bridge.step (Passes ep) (.init dtr) labels →
        s.sent ep.peer ++ s.underway ep = (s.received ep).map Prod.fst) := by
  have hinv := run_inv hrun ep
  refine ⟨hinv.faithful, hinv.underway, fun hgood => ?_⟩
  have hkeeps : KeepsAll ep s := run_invariant (KeepsAll ep) (fun _ _ _ h hgood hstep => step_keepsAll h hgood hstep)
    ⟨by simp [Bridge.init], by simp [Bridge.init], by simp [Bridge.init]⟩ hgood hrun
  exact hinv.faithful.trans (accepted_all hkeeps.kept)

def twoKeys : List BridgeEvent :=
  [.isr .cons .rxReady, .isr .cons (.claim 64), .isr .cons (.read [0x68]), .isr .cons .store, .isr .cdc .rxIdle,
    .isr .cdc (.take 1), .isr .cons .enable, .isr .cdc (.fill 1), .isr .cons .txIdle, .isr .cons .rxReady,
    .isr .cons (.claim 64), .isr .cons (.read [0x69]), .isr .cdc .finish, .isr .cons .store]

theorem console_bridge_two_keys :
    ∃ s, run Bridge.step (.init true) twoKeys = some s ∧
      s.sent .cdc ++ s.underway .cons = accepted (s.received .cons) := by
  obtain ⟨s, hrun⟩ : ∃ s, run Bridge.step (.init true) twoKeys = some s :=
    Option.isSome_iff_exists.mp (by decide +kernel)
  exact ⟨s, hrun, (console_bridge_in_order hrun .cons).1⟩

/-! ## Bytes that nobody fetches -/

/-- Bytes in the ring of an end are fetched: its peer's transmit interrupt is on,
or the handler that put them there is about to switch it on. -/
def Fetched (s : Bridge) (ep : BridgeEp) : Prop :=
  s.rxRing ep ≠ [] → s.txIrq ep.peer = true ∨ s.isr ep = .stored

theorem fetched_init (dtr : Bool) (ep : BridgeEp) : Fetched (.init dtr) ep := fun h => absurd rfl h

/-- The transmit interrupt is switched off over an empty ring only, or while
the other handler is about to switch it on. -/
def DisablesIdle (s : Bridge) : BridgeEvent → Prop
  | .isr ep .disable => s.rxRing ep.peer = [] ∨ s.isr ep.peer = .stored
  | _ => True

def Unpreempted (s : Bridge) : BridgeEvent → Prop
  | .isr ep _ => s.isr ep.peer = .head
  | .dtr _ => True

theorem fetched_goto {i : Isr} (h : Fetched s ep) (hat : s.isr ep ≠ .stored) : Fetched (s.goto ep i) ep :=
  fun hwaits => .inl ((h hwaits).resolve_right hat)

theorem IsrMove.fetched_own (hmove : IsrMove s ep event s') (h : Fetched s ep) : Fetched s' ep := by
  cases hmove with
  | dropShut hat | dropFull hat =>
    refine @fetched_goto (s.noteRead ep _ false) _ _ h ?_
    exact ne_of_eq_of_ne hat Isr.noConfusion
  | read hat =>
    refine @fetched_goto (s.noteRead ep _ true) _ _ h ?_
    exact ne_of_eq_of_ne hat Isr.noConfusion
  | store hat =>
    rename_i bytes
    intro hwaits
    by_cases hbytes : bytes = []
    · subst hbytes
      simp only [Bridge.goto, Function.update_self, List.append_nil] at hwaits ⊢
      exact .inl ((h hwaits).resolve_right (ne_of_eq_of_ne hat Isr.noConfusion))
    · right
      simp [Bridge.goto, hbytes]
  | enable hat =>
    intro _
    left
    simp [Bridge.goto]
  | disable hat =>
    intro hwaits
    left
    simp only [Bridge.goto, Function.update_of_ne (peer_ne ep)]
    exact (h hwaits).resolve_right (ne_of_eq_of_ne hat Isr.noConfusion)
  | fill hat =>
    intro hwaits
    exact .inl ((h hwaits).resolve_right (ne_of_eq_of_ne hat Isr.noConfusion))
  | finish hat =>
    intro hwaits
    simp only [Bridge.goto, Function.update_of_ne (ne_peer ep)] at hwaits
    exact .inl ((h hwaits).resolve_right (ne_of_eq_of_ne hat Isr.noConfusion))
  | _ hat => exact fetched_goto h (ne_of_eq_of_ne hat Isr.noConfusion)

theorem IsrMove.fetched_other (hmove : IsrMove s ep event s') (hgood : DisablesIdle s (.isr ep event))
    (h : Fetched s ep.peer) : Fetched s' ep.peer := by
  have hisr : ∀ i, (s.goto ep i).isr ep.peer = s.isr ep.peer := fun _ => Function.update_of_ne (peer_ne ep) ..
  cases hmove with
  | store hat =>
    intro hwaits
    simp only [Bridge.goto, Function.update_of_ne (peer_ne ep), peer_peer] at hwaits ⊢
    simpa only [peer_peer] using h hwaits
  | enable hat =>
    intro hwaits
    have hbefore := h hwaits
    rw [peer_peer] at hbefore
    simp only [Bridge.goto, Function.update_of_ne (peer_ne ep), Function.update_of_ne (ne_peer ep), peer_peer]
    exact hbefore
  | disable hat =>
    intro hwaits
    right
    exact (hisr .head).trans (hgood.resolve_left hwaits)
  | finish hat =>
    rename_i wrote
    intro hwaits
    simp only [Bridge.goto, Function.update_self, ne_eq, List.drop_eq_nil_iff, Nat.not_le] at hwaits
    have hbefore := h fun hnil => by simp [hnil] at hwaits
    simp only [Bridge.goto, Function.update_of_ne (peer_ne ep)]
    exact hbefore
  | _ hat =>
    intro hwaits
    have hbefore := h hwaits
    simp only [Bridge.goto, Bridge.noteRead, Function.update_of_ne (peer_ne ep)]
    exact hbefore

/-- A handler that switches the interrupt off over bytes leaves them there. -/
theorem stranded_disable (hbad : ¬ DisablesIdle s (.isr ep .disable))
    (hstep : s.step (.isr ep .disable) = some s') : ¬ Fetched s' ep.peer := by
  obtain ⟨hring, hat⟩ := not_or.mp hbad
  obtain ⟨-, hs'⟩ := Option.ite_none_right_eq_some.mp hstep
  cases hs'
  intro hfetched
  have hafter := hfetched hring
  simp only [Bridge.goto, peer_peer, Function.update_self, Function.update_of_ne (peer_ne ep)] at hafter
  exact hat (hafter.resolve_left Bool.false_ne_true)

theorem step_fetched {label : BridgeEvent} (h : ∀ ep, Fetched s ep) (hgood : DisablesIdle s label)
    (hstep : s.step label = some s') (ep : BridgeEp) : Fetched s' ep := by
  cases label with
  | dtr level =>
    cases hstep
    exact h ep
  | isr other event =>
    have hmove := step_move hstep
    rcases eq_or_peer other ep with rfl | rfl
    · exact hmove.fetched_own (h ep)
    · exact hmove.fetched_other hgood (h other.peer)

def TakesIdle (s : Bridge) : Prop := ∀ ep, s.isr ep = .taken 0 → s.rxRing ep.peer = []

theorem IsrMove.takes (hmove : IsrMove s ep event s') (hat : s'.isr ep = .taken 0) : s'.rxRing ep.peer = [] := by
  cases hmove with
  | take _ _ hempty =>
    simp only [Bridge.goto, Function.update_self, Isr.taken.injEq] at hat
    exact hempty hat
  | store => split at hat <;> simp [Bridge.goto] at hat
  | _ => simp [Bridge.goto] at hat

theorem step_takesIdle {label : BridgeEvent} (h : TakesIdle s) (hgood : Unpreempted s label)
    (hstep : s.step label = some s') : TakesIdle s' := by
  cases label with
  | dtr level =>
    cases hstep
    exact h
  | isr other event =>
    have hmove := step_move hstep
    intro ep hat
    rcases eq_or_peer other ep with rfl | rfl
    · exact hmove.takes hat
    · rw [hmove.frame.1, show s.isr other.peer = .head from hgood] at hat
      cases hat

theorem TakesIdle.disables {label : BridgeEvent} (h : TakesIdle s) (hlabel : (s.step label).isSome) :
    DisablesIdle s label := by
  unfold DisablesIdle
  split
  · obtain ⟨s', hstep⟩ := Option.isSome_iff_exists.mp hlabel
    exact .inl (h _ (Option.ite_none_right_eq_some.mp hstep).1)
  · trivial

/-- Bytes are never left in a ring with nobody to fetch them, in any run in
which the transmit interrupts are switched off over empty rings; a run that
switches one off over bytes leaves them there. Where the two handlers do not
preempt each other, no run does. -/
theorem console_bridge_stranded_iff {dtr : Bool} {labels : List BridgeEvent}
    (hrun : run Bridge.step (.init dtr) labels = some s) :
    ((∀ t, Visits Bridge.step (.init dtr) labels t → ∀ ep, Fetched t ep) ↔
        Along Bridge.step DisablesIdle (.init dtr) labels) ∧
      (Along Bridge.step Unpreempted (.init dtr) labels →
        ∀ t, Visits Bridge.step (.init dtr) labels t → ∀ ep, Fetched t ep) := by
  have hiff : (∀ t, Visits Bridge.step (.init dtr) labels t → ∀ ep, Fetched t ep) ↔
      Along Bridge.step DisablesIdle (.init dtr) labels := by
    refine visits_iff_along (fun _ h => h) (fun _ _ _ h hgood hstep => step_fetched h hgood hstep) ?_
      (fetched_init dtr) hrun
    intro t label t' _ hbad hstep hall
    unfold DisablesIdle at hbad
    split at hbad
    · rename_i ep
      exact stranded_disable hbad hstep (hall ep.peer)
    · exact hbad trivial
  refine ⟨hiff, fun hunpreempted => hiff.mpr ?_⟩
  refine @along_of_invariant _ _ _ (fun s label => Unpreempted s label ∧ (s.step label).isSome) TakesIdle _
    (fun _ _ _ h hgood hstep => step_takesIdle h hgood.1 hstep) (fun _ _ h hgood => h.disables hgood.2)
    _ _ (fun ep hat => ?_) (along_and hunpreempted (along_enabled hrun))
  cases hat

theorem console_bridge_two_keys_fetched :
    ∃ s, run Bridge.step (.init true) twoKeys = some s ∧
      ((∀ t, Visits Bridge.step (.init true) twoKeys t → ∀ ep, Fetched t ep) ↔
        Along Bridge.step DisablesIdle (.init true) twoKeys) := by
  obtain ⟨s, hrun⟩ : ∃ s, run Bridge.step (.init true) twoKeys = some s :=
    Option.isSome_iff_exists.mp (by decide +kernel)
  exact ⟨s, hrun, (console_bridge_stranded_iff hrun).1⟩

end DectMesh.Relay.ConsoleBridge
