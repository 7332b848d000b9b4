import DectMesh.Aether.Traffic
import DectMesh.Lib.Sampling

/-! The datagram counters of a node: what receptions and data writes add to them,
and what they say of the datagrams. -/
namespace DectMesh.Aether

open DectMesh.Lib

/-- `ctr`; `rx_drop` is with the slots. -/
structure Ctr where
  tx : UInt32
  txBytes : UInt32
  txErr : UInt32
  rx : UInt32
  rxBytes : UInt32
  deriving DecidableEq

/-- The sends of a broadcast while the channel is busy, at most `left` of them: the
result, -16 being `-EBUSY`, and how many. -/
def bcastTries (sent : Nat → Int) : Nat → Nat → Int × Nat
  | 0, b => (-16, b)
  | left + 1, b => if sent b = -16 then bcastTries sent left (b + 1) else (sent b, b + 1)

def bcastBusyRetries : Nat := 6

def Outgoing.payload : Outgoing → List UInt8
  | .broadcast payload | .reliable _ payload => payload

def Outgoing.transmit (sent : Nat → Int) : Outgoing → Int
  | .broadcast _ => (bcastTries sent bcastBusyRetries 0).1
  | .reliable _ _ => sent 0

def anetWrite (maxMsg : Nat) (mesh : Bindings) (c : Conv Reading) (buf : List UInt8) (sent : Nat → Int) (ctr : Ctr) :
    Int × Ctr :=
  match anetWriteData maxMsg mesh c buf with
  | .error e => (e, ctr)
  | .ok out =>
      let ret := out.transmit sent
      if ret < 0 then (ret, { ctr with txErr := ctr.txErr + 1 })
      else (buf.length, { ctr with tx := ctr.tx + 1, txBytes := ctr.txBytes + UInt32.ofNat out.payload.length })

/-- What `aether_recv_cb` counts before it looks for conversations. -/
def Ctr.receive (maxMsg : Nat) (ctr : Ctr) : TrafficEvent → Ctr
  | .recv _ ring _ payload broadcast =>
      if received maxMsg ring payload broadcast then
        { ctr with rx := ctr.rx + 1, rxBytes := ctr.rxBytes + UInt32.ofNat (min payload.length maxMsg) }
      else ctr
  | _ => ctr

structure CountedNode where
  traffic : Traffic
  ctr : Ctr

def CountedNode.init : CountedNode := ⟨.init, ⟨0, 0, 0, 0, 0⟩⟩

def CountedNode.stats (s : CountedNode) : UInt32 × UInt32 × UInt32 :=
  (s.ctr.tx, s.ctr.rx, UInt32.ofNat s.traffic.rxDrop)

inductive DatagramEvent where
  | traffic (event : TrafficEvent)
  | write (mesh : Bindings) (n : Slot) (buf : List UInt8) (sent : Nat → Int)

def CountedNode.step (maxMsg : Nat) (s : CountedNode) : DatagramEvent → Option CountedNode
  | .traffic event => (s.traffic.step maxMsg event).map fun traffic => ⟨traffic, s.ctr.receive maxMsg event⟩
  | .write mesh n buf sent => some { s with ctr := (anetWrite maxMsg mesh (s.traffic.convs n) buf sent s.ctr).2 }

/-! ## What there was to count -/

/-- A datagram that comes in for two conversations is taken twice, and queued where
there is room. -/
structure DatagramTotals where
  received : Nat
  taken : Nat
  queued : Nat
  written : Nat

def DatagramTotals.zero : DatagramTotals := ⟨0, 0, 0, 0⟩

def Action.arrives : Action → Bool
  | .arrive _ => true
  | _ => false

def Traffic.taken (maxMsg : Nat) (s : Traffic) (event : TrafficEvent) : Nat :=
  (List.finRange maxConns).countP fun n => (s.action maxMsg event n).arrives

def Traffic.queued (maxMsg : Nat) (s : Traffic) (event : TrafficEvent) : Nat :=
  (List.finRange maxConns).countP fun n => !((s.convs n).joins (s.action maxMsg event n)).isEmpty

def TrafficEvent.comesIn (maxMsg : Nat) : TrafficEvent → Bool
  | .recv _ ring _ payload broadcast => received maxMsg ring payload broadcast
  | _ => false

def DatagramTotals.note (maxMsg : Nat) (s : CountedNode) (event : DatagramEvent) (t : DatagramTotals) :
    DatagramTotals :=
  match event with
  | .traffic e =>
      { t with
        received := t.received + (e.comesIn maxMsg).toNat
        taken := t.taken + s.traffic.taken maxMsg e
        queued := t.queued + s.traffic.queued maxMsg e }
  | .write mesh n buf sent =>
      if 0 ≤ (anetWrite maxMsg mesh (s.traffic.convs n) buf sent s.ctr).1 then { t with written := t.written + 1 }
      else t

/-- The counters have what there was to count, modulo their range: `rx_drop` what
was taken and not queued. -/
structure CountedNode.Counts (s : CountedNode) (t : DatagramTotals) : Prop where
  rx : s.ctr.rx = UInt32.ofNat t.received
  tx : s.ctr.tx = UInt32.ofNat t.written
  kept : t.queued ≤ t.taken
  drop : s.traffic.rxDrop = (t.taken - t.queued) % 4294967296

theorem counts_init : CountedNode.init.Counts .zero := ⟨rfl, rfl, Nat.le_refl _, rfl⟩

theorem taken_eq (maxMsg : Nat) (s : Traffic) (mesh : Bindings) (ring : Nat) (src : Addr) (payload : List UInt8)
    (broadcast : Bool) (h : received maxMsg ring payload broadcast = true) :
    s.taken maxMsg (.recv mesh ring src payload broadcast) =
      s.queued maxMsg (.recv mesh ring src payload broadcast) +
        drops mesh (s.frame src payload broadcast) s.convs := by
  unfold Traffic.taken Traffic.queued drops
  induction List.finRange maxConns with
  | nil => rfl
  | cons n slots ih =>
    simp only [List.countP_cons]
    rw [ih]
    simp only [Traffic.action, h, Bool.true_and]
    cases htaken : (s.frame src payload broadcast).takenBy mesh (s.convs n) with
    | false =>
      simp only [Bool.false_eq_true, if_false, Action.arrives, Conv.joins, List.isEmpty_nil, Bool.not_true,
        Bool.false_and]
      omega
    | true =>
      simp only [if_true, Action.arrives, Conv.joins, Bool.true_and]
      cases (s.convs n).full <;> simp <;> omega

theorem taken_none {maxMsg : Nat} {s : Traffic} {event : TrafficEvent} (h : event.comesIn maxMsg = false) :
    s.taken maxMsg event = 0 ∧ s.queued maxMsg event = 0 := by
  have hrest : ∀ n, (s.action maxMsg event n).arrives = false := by
    intro n
    cases event with
    | recv mesh ring src payload broadcast =>
      simp only [TrafficEvent.comesIn] at h
      simp only [Traffic.action, h, Bool.false_and, Bool.false_eq_true, if_false]
      rfl
    | read m count | ctl m cmd | clunk m | sessionClose m | sessionGet m | clone | sessionOpen eui =>
      simp only [Traffic.action]
      split <;> rfl
  have hjoins : ∀ n, (s.convs n).joins (s.action maxMsg event n) = [] := by
    intro n
    have hn := hrest n
    cases haction : s.action maxMsg event n with
    | arrive d =>
      rw [haction] at hn
      cases hn
    | _ => rfl
  constructor
  · exact List.countP_eq_zero.mpr fun n _ => by simp [hrest n]
  · exact List.countP_eq_zero.mpr fun n _ => by simp [hjoins n]

theorem Traffic.apply_rxDrop_other {maxMsg : Nat} (s : Traffic) {event : TrafficEvent}
    (h : event.comesIn maxMsg = false) : (s.apply maxMsg event).rxDrop = s.rxDrop := by
  cases event with
  | recv mesh ring src payload broadcast =>
    simp only [TrafficEvent.comesIn] at h
    simp only [Traffic.apply, h, Bool.false_eq_true, if_false]
  | clone | sessionOpen eui =>
    simp only [Traffic.apply]
    cases convAlloc s.convs <;> rfl
  | ctl m cmd =>
    simp only [Traffic.apply]
    cases ctlExec (s.convs m) cmd <;> rfl
  | clunk m | sessionClose m | read m count | sessionGet m => rfl

theorem Traffic.apply_rxDrop (maxMsg : Nat) (s : Traffic) (event : TrafficEvent) :
    ∃ dropped, s.taken maxMsg event = s.queued maxMsg event + dropped ∧
      ((s.apply maxMsg event).rxDrop = (s.rxDrop + dropped) % 4294967296 ∨
        dropped = 0 ∧ (s.apply maxMsg event).rxDrop = s.rxDrop) := by
  cases hcomes : event.comesIn maxMsg with
  | false =>
    obtain ⟨htaken, hqueued⟩ := taken_none (s := s) hcomes
    exact ⟨0, by rw [htaken, hqueued], .inr ⟨rfl, s.apply_rxDrop_other hcomes⟩⟩
  | true =>
    cases event with
    | recv mesh ring src payload broadcast =>
      simp only [TrafficEvent.comesIn] at hcomes
      refine ⟨_, taken_eq maxMsg s mesh ring src payload broadcast hcomes, .inl ?_⟩
      simp only [Traffic.apply, hcomes, if_true]
    | _ => cases hcomes

theorem Ctr.receive_rx {maxMsg : Nat} {ctr : Ctr} {received : Nat} (h : ctr.rx = UInt32.ofNat received)
    (event : TrafficEvent) :
    (ctr.receive maxMsg event).rx = UInt32.ofNat (received + (event.comesIn maxMsg).toNat) ∧
      (ctr.receive maxMsg event).tx = ctr.tx := by
  cases event with
  | recv mesh ring src payload broadcast =>
    simp only [Ctr.receive, TrafficEvent.comesIn]
    split
    · rename_i hreceived
      rw [hreceived, Bool.toNat_true, ← counter_add, h]
      exact ⟨rfl, rfl⟩
    · rename_i hreceived
      rw [Bool.not_eq_true] at hreceived
      rw [hreceived]
      exact ⟨h, rfl⟩
  | _ => exact ⟨h, rfl⟩

theorem sizedSend_error {maxMsg : Nat} {dst : Addr} {payload : List UInt8} {e : Int}
    (h : sizedSend maxMsg dst payload = .error e) : e < 0 := by
  unfold sizedSend at h
  split at h
  · cases h
    decide
  · cases h

theorem anetWriteData_error {maxMsg : Nat} {mesh : Bindings} {c : Conv Reading} {buf : List UInt8} {e : Int}
    (h : anetWriteData maxMsg mesh c buf = .error e) : e < 0 := by
  unfold anetWriteData at h
  split at h
  · split at h
    · cases h
      decide
    · cases h
  · exact sizedSend_error h
  · split at h
    · cases h
      decide
    · exact sizedSend_error h
  · cases h
    decide

theorem anetWrite_cases (maxMsg : Nat) (mesh : Bindings) (c : Conv Reading) (buf : List UInt8) (sent : Nat → Int)
    (ctr : Ctr) :
    (anetWrite maxMsg mesh c buf sent ctr).2.rx = ctr.rx ∧
      ((anetWrite maxMsg mesh c buf sent ctr).1 < 0 ∧ (anetWrite maxMsg mesh c buf sent ctr).2.tx = ctr.tx ∨
        0 ≤ (anetWrite maxMsg mesh c buf sent ctr).1 ∧ (anetWrite maxMsg mesh c buf sent ctr).2.tx = ctr.tx + 1) := by
  unfold anetWrite
  split
  · rename_i e he
    exact ⟨rfl, .inl ⟨anetWriteData_error he, rfl⟩⟩
  · rename_i out hout
    by_cases hret : out.transmit sent < 0
    · rw [if_pos hret]
      exact ⟨rfl, .inl ⟨hret, rfl⟩⟩
    · rw [if_neg hret]
      exact ⟨rfl, .inr ⟨Int.natCast_nonneg _, rfl⟩⟩

theorem counts_step {maxMsg : Nat} {s s' : CountedNode} {t : DatagramTotals} {event : DatagramEvent} (h : s.Counts t)
    (hstep : s.step maxMsg event = some s') : s'.Counts (t.note maxMsg s event) := by
  cases event with
  | traffic e =>
    cases hstep
    obtain ⟨dropped, htaken, hdrop⟩ := s.traffic.apply_rxDrop maxMsg e
    obtain ⟨hrx, htx⟩ := Ctr.receive_rx h.rx e
    have hkept := h.kept
    have hbefore := h.drop
    refine ⟨hrx, htx.trans h.tx, ?_, ?_⟩
    · simp only [DatagramTotals.note]
      omega
    · simp only [DatagramTotals.note]
      rcases hdrop with hsome | ⟨hnone, hsame⟩
      · rw [hsome]
        omega
      · rw [hsame]
        omega
  | write mesh n buf sent =>
    cases hstep
    obtain ⟨hrx, ⟨hret, htx⟩ | ⟨hret, htx⟩⟩ :=
      anetWrite_cases maxMsg mesh (s.traffic.convs n) buf sent s.ctr
    · rw [DatagramTotals.note, if_neg (Int.not_le.mpr hret)]
      exact ⟨hrx.trans h.rx, htx.trans h.tx, h.kept, h.drop⟩
    · rw [DatagramTotals.note, if_pos hret]
      refine ⟨hrx.trans h.rx, ?_, h.kept, h.drop⟩
      rw [← counter_add, ← h.tx]
      exact htx

end DectMesh.Aether
