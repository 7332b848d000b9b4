import DectMesh.Aether.Traffic

/-! What a conversation is for: a mailbox that keeps what its binding asks for.
Each slot of the node is one, whatever traffic and control do around it. -/
namespace DectMesh.Aether

open DectMesh.Lib

/-! ## The mailbox -/

inductive Binding where
  | unbound
  | peer (eui : Addr)
  | anyone
  | party
  deriving DecidableEq

namespace Binding

/-- Unicasts of the bound peer, by its durable id or by the address it sends
from; every unicast; every broadcast. -/
def wants (mesh : Bindings) (src : Addr) (broadcast : Bool) : Binding → Bool
  | .unbound => false
  | .peer eui => !broadcast && (mesh.addrToEui src = some eui || src = eui)
  | .anyone => !broadcast
  | .party => broadcast

/-- The binding after a ctl command, if the command is accepted: only an
unbound conversation is bound. -/
def after : Binding → CtlCmd → Option Binding
  | .unbound, .connect addr => if addr = .bcast then some .party else some (.peer addr)
  | .unbound, .announce => some .anyone
  | _, .hangup => some .unbound
  | _, _ => none

end Binding

structure Delivery where
  id : Nat
  src : Addr
  bytes : List UInt8
  deriving DecidableEq

def Dgram.delivery (d : Dgram) : Delivery := ⟨d.id, d.src, d.data⟩

/-- The reception as its mailbox keeps it: under the sender's durable id where
the mesh knows it, and cut at the largest message. -/
def Frame.delivery (maxMsg : Nat) (mesh : Bindings) (f : Frame) : Delivery :=
  ⟨f.id, if f.broadcast then f.src else (mesh.addrToEui f.src).getD f.src, f.payload.take maxMsg⟩

/-- A mailbox: its binding, the receptions since then that it asked for and had
room for, and what was returned from it. -/
structure Ledger where
  binding : Binding
  matched : List Delivery
  returned : List Delivery

def Ledger.bound (binding : Binding) : Ledger := ⟨binding, [], []⟩

structure Ledgers where
  slot : Slot → Ledger
  dropped : Nat

def Ledgers.init : Ledgers := ⟨fun _ => .bound .unbound, 0⟩

variable {maxMsg : Nat}

def Ledgers.asks (h : Ledgers) (s : Traffic) (mesh : Bindings) (src : Addr) (broadcast : Bool) (n : Slot) : Bool :=
  (s.convs n).inUse && (h.slot n).binding.wants mesh src broadcast

def Ledgers.noteSlot (maxMsg : Nat) (s : Traffic) (event : TrafficEvent) (h : Ledgers) (n : Slot) : Ledger :=
  let ledger := h.slot n
  let returned := ledger.returned ++ ((s.convs n).returned (s.action maxMsg event n)).map Dgram.delivery
  match event with
  | .recv mesh ring src payload broadcast =>
      if received maxMsg ring payload broadcast && h.asks s mesh src broadcast n && !(s.convs n).full then
        { ledger with
          matched := ledger.matched ++ [(s.frame src payload broadcast).delivery maxMsg mesh]
          returned := returned }
      else { ledger with returned := returned }
  | .clone => if freeSlot s.convs = some n then .bound .unbound else ledger
  | .sessionOpen eui => if freeSlot s.convs = some n then .bound (.peer eui) else ledger
  | .ctl m cmd => if m = n then (ledger.binding.after cmd).elim ledger Ledger.bound else ledger
  | .clunk m | .sessionClose m => if m = n then .bound .unbound else ledger
  | .read _ _ | .sessionGet _ => { ledger with returned := returned }

def Ledgers.noteDropped (maxMsg : Nat) (s : Traffic) (event : TrafficEvent) (h : Ledgers) : Nat :=
  match event with
  | .recv mesh ring src payload broadcast =>
      if received maxMsg ring payload broadcast then
        h.dropped + (List.finRange maxConns).countP fun n => h.asks s mesh src broadcast n && (s.convs n).full
      else h.dropped
  | _ => h.dropped

def Ledgers.note (maxMsg : Nat) (s : Traffic) (event : TrafficEvent) (h : Ledgers) : Ledgers :=
  ⟨h.noteSlot maxMsg s event, h.noteDropped maxMsg s event⟩

/-! ## The slot under it -/

def Bindings.Inverse (mesh : Bindings) : Prop :=
  ∀ eui addr, mesh.euiToAddr eui = some addr ↔ mesh.addrToEui addr = some eui

def Conv.binding (c : Conv Reading) : Binding :=
  match c.state with
  | .unconnected => .unbound
  | .connected => .peer c.peer
  | .announced => .anyone
  | .bcast => .party

theorem Conv.takes_eq {mesh : Bindings} (hinverse : mesh.Inverse) (c : Conv Reading) (src : Addr)
    (broadcast : Bool) :
    c.takes mesh src (identOf mesh src broadcast) broadcast = (c.inUse && c.binding.wants mesh src broadcast) := by
  unfold Conv.takes Conv.binding
  cases broadcast with
  | true => cases c.state <;> rfl
  | false =>
    cases hstate : c.state with
    | connected =>
      have hroute := hinverse c.peer src
      simp only [identOf, Binding.wants, Bool.false_eq_true, if_false, Bool.not_false, Bool.true_and]
      congr 1
      rw [Bool.eq_iff_iff]
      simp only [Bool.or_eq_true, decide_eq_true_eq, hroute]
      cases hident : mesh.addrToEui src with
      | none => simp [eq_comm]
      | some eui => simp [eq_comm]
    | _ => rfl

theorem ctlExec_binding (c : Conv Reading) (cmd : CtlCmd) :
    (ctlExec c cmd).map Conv.binding = c.binding.after cmd := by
  unfold Conv.binding
  cases cmd with
  | connect addr =>
    cases hstate : c.state with
    | unconnected =>
      simp only [ctlExec, hstate, ne_eq, not_true_eq_false, if_false, Binding.after]
      split <;> rfl
    | _ => simp [ctlExec, hstate, Binding.after]
  | announce => cases hstate : c.state <;> simp [ctlExec, hstate, Binding.after]
  | hangup => cases hstate : c.state <;> rfl
  | unknown => cases hstate : c.state <;> rfl

/-- A command that is accepted leaves a queue without datagrams, if an unbound
conversation has none. -/
theorem ctlExec_queued {c c' : Conv Reading} {cmd : CtlCmd} (hexec : ctlExec c cmd = some c')
    (hunbound : c.binding = .unbound → c.queued = []) : c'.queued = [] := by
  obtain ⟨-, ⟨-, hstate, -, hrxq⟩ | ⟨-, -, hrxq⟩⟩ := ctlExec_cases hexec
  · have hqueued := hunbound (by rw [Conv.binding, hstate])
    rwa [Conv.queued, ← hrxq] at hqueued
  · rw [Conv.queued, hrxq]
    rfl

theorem Frame.dgram_delivery (hmax : maxMsg < 65536) (mesh : Bindings) (f : Frame) :
    (f.dgram maxMsg mesh).delivery = f.delivery maxMsg mesh := by
  have hlength : min f.payload.length maxMsg % 65536 = min f.payload.length maxMsg :=
    Nat.mod_eq_of_lt (by omega)
  simp only [Frame.dgram, Dgram.delivery, Frame.delivery, hlength, identOf, List.take_eq_take_iff,
    Delivery.mk.injEq, true_and]
  omega

/-! ## The invariant -/

/-- The slot is the mailbox: what was returned, then what is queued, is what
matched, in the order of arrival. -/
structure Mirrors (c : Conv Reading) (h : Ledger) : Prop where
  binding : h.binding = c.binding
  exact : h.returned ++ c.queued.map Dgram.delivery = h.matched
  inOrder : h.matched.Pairwise fun a b => a.id < b.id

structure Kept (now : Nat) (c : Conv Reading) (h : Ledger) : Prop extends Mirrors c h where
  calm : c.rxq.Calm
  unbound : h.binding = .unbound → h.matched = []
  past : ∀ d ∈ h.matched, d.id < now

theorem Kept.later {now : Nat} {c : Conv Reading} {h : Ledger} (k : Kept now c h) : Kept (now + 1) c h :=
  { k with past := fun d hd => Nat.lt_succ_of_lt (k.past d hd) }

theorem kept_bound {now : Nat} {c : Conv Reading} (hcalm : c.rxq.Calm) (hqueued : c.queued = []) :
    Kept now c (.bound c.binding) where
  binding := rfl
  exact := by rw [hqueued]; rfl
  inOrder := .nil
  calm := hcalm
  unbound := fun _ => rfl
  past := fun _ hd => nomatch hd

theorem Kept.queued_nil {now : Nat} {c : Conv Reading} {h : Ledger} (k : Kept now c h)
    (hunbound : c.binding = .unbound) : c.queued = [] := by
  have hexact := k.exact
  rw [k.unbound (k.binding.trans hunbound), List.append_eq_nil_iff, List.map_eq_nil_iff] at hexact
  exact hexact.2

theorem Kept.flow {now : Nat} {c : Conv Reading} {h : Ledger} (k : Kept now c h) {action : Action}
    (haction : (∃ d, action = .arrive d) ∨ (∃ r, action = .read r) ∨ action = .get)
    (hroom : ∀ ending ∈ c.endings action, ending.2.fits = true) :
    (h.returned ++ (c.returned action).map Dgram.delivery) ++ (c.act action).queued.map Dgram.delivery =
      h.matched ++ ((c.joins action).filter fun d => d.data ≠ []).map Dgram.delivery := by
  rw [Conv.returned_eq hroom, List.append_assoc, ← List.map_append, Conv.queued, ← List.filter_append,
    Conv.act_flow k.calm haction, List.filter_append, List.map_append, ← List.append_assoc]
  exact congrArg (· ++ _) k.exact

theorem Conv.act_binding (c : Conv Reading) {action : Action}
    (haction : (∃ d, action = .arrive d) ∨ (∃ r, action = .read r) ∨ action = .get) :
    (c.act action).binding = c.binding := by
  rcases haction with ⟨d, rfl⟩ | ⟨r, rfl⟩ | rfl <;> rfl

theorem Kept.taken {now : Nat} {c : Conv Reading} {h : Ledger} (k : Kept now c h) {action : Action}
    (haction : (∃ r, action = .read r) ∨ action = .get)
    (hroom : ∀ ending ∈ c.endings action, ending.2.fits = true) :
    Kept (now + 1) (c.act action) { h with returned := h.returned ++ (c.returned action).map Dgram.delivery } := by
  have hflow := k.flow (.inr haction) hroom
  have hjoins : c.joins action = [] := by rcases haction with ⟨r, rfl⟩ | rfl <;> rfl
  rw [hjoins] at hflow
  refine { k.later with binding := ?_, exact := ?_, calm := ?_ }
  · rw [Conv.act_binding c (.inr haction)]
    exact k.binding
  · rw [hflow]
    exact List.append_nil _
  · exact Conv.act_calm k.calm action

theorem Kept.arrived {now : Nat} {c : Conv Reading} {h : Ledger} (k : Kept now c h) {d : Dgram}
    (hdata : d.data ≠ []) (hid : d.id = now) (hbound : c.binding ≠ .unbound)
    (hroom : ∀ ending ∈ c.endings (.arrive d), ending.2.fits = true) :
    Kept (now + 1) (c.act (.arrive d))
      { h with
        matched := h.matched ++ if c.full then [] else [d.delivery]
        returned := h.returned ++ (c.returned (.arrive d)).map Dgram.delivery } := by
  have hflow := k.flow (.inl ⟨d, rfl⟩) hroom
  have hjoins : ((c.joins (.arrive d)).filter fun d => d.data ≠ []).map Dgram.delivery =
      if c.full then [] else [d.delivery] := by
    simp only [Conv.joins]
    split
    · rfl
    · rw [List.filter_cons_of_pos (by simpa using hdata)]
      rfl
  rw [hjoins] at hflow
  have hpast : ∀ e ∈ (if c.full then [] else [d.delivery]), e.id = now := by
    intro e he
    split at he
    · cases he
    · rw [List.mem_singleton.mp he]
      exact hid
  refine ⟨⟨?_, hflow, ?_⟩, Conv.act_calm k.calm _, ?_, ?_⟩
  · exact k.binding
  · rw [List.pairwise_append]
    refine ⟨k.inOrder, ?_, fun a ha b hb => ?_⟩
    · split
      · exact .nil
      · exact List.pairwise_singleton _ _
    · rw [hpast b hb]
      exact k.past a ha
  · intro hunbound
    exact absurd (k.binding.symm.trans hunbound) hbound
  · intro e he
    rcases List.mem_append.mp he with hold | hnew
    · exact Nat.lt_succ_of_lt (k.past e hold)
    · rw [hpast e hnew]
      exact Nat.lt_succ_self now

/-! ## Along a run -/

/-- Receptions carry a payload and inverse lookups, and no read is too small
for the datagram it gets. -/
def Suited (maxMsg : Nat) (s : Traffic) (event : TrafficEvent) : Prop :=
  (match event with
    | .recv mesh _ _ payload _ => payload ≠ [] ∧ mesh.Inverse
    | _ => True) ∧
  ∀ n, ∀ ending ∈ s.endings maxMsg event n, ending.2.fits = true

structure AllKept (s : Traffic) (h : Ledgers) : Prop where
  slot : ∀ n, (s.convs n).inUse = true → Kept s.now (s.convs n) (h.slot n)
  dropped : s.rxDrop = h.dropped % 4294967296

theorem AllKept.asks_eq {s : Traffic} {h : Ledgers} (k : AllKept s h) {mesh : Bindings} (hinverse : mesh.Inverse)
    (src : Addr) (payload : List UInt8) (broadcast : Bool) (n : Slot) :
    (s.frame src payload broadcast).takenBy mesh (s.convs n) = h.asks s mesh src broadcast n := by
  simp only [Frame.takenBy, Traffic.frame, Conv.takes_eq hinverse, Ledgers.asks]
  cases hused : (s.convs n).inUse with
  | false => rfl
  | true => rw [(k.slot n hused).binding]

theorem kept_recv {s : Traffic} {h : Ledgers} (hpos : 0 < maxMsg) (hmax : maxMsg < 65536) (k : AllKept s h)
    {mesh : Bindings} {ring : Nat} {src : Addr} {payload : List UInt8} {broadcast : Bool}
    (hsuited : Suited maxMsg s (.recv mesh ring src payload broadcast)) {n : Slot}
    (hused : (s.convs n).inUse = true) :
    Kept (s.now + 1) ((s.convs n).act (s.action maxMsg (.recv mesh ring src payload broadcast) n))
      (h.noteSlot maxMsg s (.recv mesh ring src payload broadcast) n) := by
  obtain ⟨⟨hpayload, hinverse⟩, hroom⟩ := hsuited
  have hasks := k.asks_eq hinverse src payload broadcast n
  have hkept := k.slot n hused
  by_cases hgets : (received maxMsg ring payload broadcast && h.asks s mesh src broadcast n) = true
  · have haction : s.action maxMsg (.recv mesh ring src payload broadcast) n =
        .arrive ((s.frame src payload broadcast).dgram maxMsg mesh) := by
      simp only [Traffic.action, hasks, hgets, if_true]
    have hdata : ((s.frame src payload broadcast).dgram maxMsg mesh).data ≠ [] := by
      have hlength := List.length_pos_iff.mpr hpayload
      apply List.ne_nil_of_length_pos
      simp only [Frame.dgram, Traffic.frame, List.length_take]
      omega
    have hbound : (s.convs n).binding ≠ .unbound := by
      intro hunbound
      rw [Bool.and_eq_true, Ledgers.asks, hkept.binding, hunbound] at hgets
      simp [Binding.wants] at hgets
    have harrived := hkept.arrived hdata rfl hbound (haction ▸ hroom n)
    rw [Frame.dgram_delivery hmax] at harrived
    rw [haction]
    simp only [Ledgers.noteSlot, hgets, haction, Bool.true_and]
    cases hfull : (s.convs n).full with
    | false =>
      rw [hfull] at harrived
      exact harrived
    | true =>
      simp only [hfull, if_true, List.append_nil] at harrived
      exact harrived
  · have haction : s.action maxMsg (.recv mesh ring src payload broadcast) n = .rest := by
      simp only [Traffic.action, hasks, if_neg hgets]
    rw [haction]
    simp only [Ledgers.noteSlot, haction, Bool.not_eq_true _ ▸ hgets, Bool.false_and, Bool.false_eq_true, if_false,
      Conv.returned, Conv.endings, List.filterMap_nil, List.map_nil, List.append_nil]
    exact hkept.later

theorem kept_ctl {s : Traffic} {h : Ledgers} (k : AllKept s h) (m : Slot) (cmd : CtlCmd) {n : Slot}
    (hused : (((s.convs n).act (s.action maxMsg (.ctl m cmd) n)).inUse = true)) :
    Kept (s.now + 1) ((s.convs n).act (s.action maxMsg (.ctl m cmd) n)) (h.noteSlot maxMsg s (.ctl m cmd) n) := by
  by_cases hmn : m = n
  · simp only [Traffic.action, Ledgers.noteSlot, if_pos hmn, Conv.act] at hused ⊢
    have hafter := ctlExec_binding (s.convs n) cmd
    cases hexec : ctlExec (s.convs n) cmd with
    | none =>
      rw [hexec, Option.getD_none] at hused
      have hkept := k.slot n hused
      rw [hexec, Option.map_none] at hafter
      rw [hkept.binding, ← hafter, Option.getD_none]
      exact hkept.later
    | some c' =>
      rw [hexec, Option.getD_some] at hused
      have hkept := k.slot n ((ctlExec_cases hexec).1.symm.trans hused)
      have hcalm := Conv.act_calm hkept.calm (.ctl cmd)
      rw [Conv.act, hexec, Option.getD_some] at hcalm
      rw [hexec, Option.map_some] at hafter
      rw [hkept.binding, ← hafter, Option.getD_some, Option.elim_some]
      exact kept_bound hcalm (ctlExec_queued hexec hkept.queued_nil)
  · simp only [Traffic.action, Ledgers.noteSlot, if_neg hmn, Conv.act] at hused ⊢
    exact (k.slot n hused).later

theorem act_free_inUse (c : Conv Reading) : (c.act .free).inUse = false := by
  rw [Conv.act]
  split
  · rfl
  · rename_i hused
    exact Bool.not_eq_true _ ▸ hused

theorem kept_slot {s : Traffic} {h : Ledgers} {event : TrafficEvent} (hpos : 0 < maxMsg) (hmax : maxMsg < 65536)
    (k : AllKept s h) (hsuited : Suited maxMsg s event) {n : Slot}
    (hused : ((s.convs n).act (s.action maxMsg event n)).inUse = true) :
    Kept (s.now + 1) ((s.convs n).act (s.action maxMsg event n)) (h.noteSlot maxMsg s event n) := by
  cases event with
  | recv mesh ring src payload broadcast =>
    refine kept_recv hpos hmax k hsuited ?_
    simp only [Traffic.action] at hused
    split at hused <;> exact hused
  | ctl m cmd => exact kept_ctl k m cmd hused
  | clone =>
    simp only [Traffic.action, Ledgers.noteSlot] at hused ⊢
    split
    · exact kept_bound Mailbox.calm_empty rfl
    · rename_i hfree
      rw [if_neg hfree] at hused
      exact (k.slot n hused).later
  | sessionOpen eui =>
    simp only [Traffic.action, Ledgers.noteSlot] at hused ⊢
    split
    · exact kept_bound Mailbox.calm_empty rfl
    · rename_i hfree
      rw [if_neg hfree] at hused
      exact (k.slot n hused).later
  | clunk m | sessionClose m =>
    simp only [Traffic.action, Ledgers.noteSlot] at hused ⊢
    split
    · rename_i hmn
      rw [if_pos hmn, act_free_inUse] at hused
      cases hused
    · rename_i hmn
      rw [if_neg hmn] at hused
      exact (k.slot n hused).later
  | read m count =>
    have hroom := hsuited.2 n
    simp only [Traffic.endings, Traffic.action, Ledgers.noteSlot] at hroom hused ⊢
    by_cases hmn : m = n
    · rw [if_pos hmn] at hroom hused ⊢
      exact (k.slot n hused).taken (.inl ⟨_, rfl⟩) hroom
    · simp only [if_neg hmn, Conv.returned, Conv.endings, List.filterMap_nil, List.map_nil, List.append_nil] at hused ⊢
      exact (k.slot n hused).later
  | sessionGet m =>
    have hroom := hsuited.2 n
    simp only [Traffic.endings, Traffic.action, Ledgers.noteSlot] at hroom hused ⊢
    by_cases hmn : m = n
    · rw [if_pos hmn] at hroom hused ⊢
      exact (k.slot n hused).taken (.inr rfl) hroom
    · simp only [if_neg hmn, Conv.returned, Conv.endings, List.filterMap_nil, List.map_nil, List.append_nil] at hused ⊢
      exact (k.slot n hused).later

theorem kept_dropped {s : Traffic} {h : Ledgers} {event : TrafficEvent} (k : AllKept s h)
    (hsuited : Suited maxMsg s event) :
    (s.apply maxMsg event).rxDrop = h.noteDropped maxMsg s event % 4294967296 := by
  have hdropped := k.dropped
  cases event with
  | recv mesh ring src payload broadcast =>
    have hdrops : drops mesh (s.frame src payload broadcast) s.convs =
        (List.finRange maxConns).countP fun n => h.asks s mesh src broadcast n && (s.convs n).full := by
      apply List.countP_congr
      intro n _
      rw [k.asks_eq hsuited.1.2 src payload broadcast n]
    simp only [Traffic.apply, Ledgers.noteDropped]
    split
    · rw [hdropped, hdrops, Nat.mod_add_mod]
    · exact hdropped
  | clone | sessionOpen =>
    simp only [Traffic.apply]
    cases convAlloc s.convs <;> exact hdropped
  | ctl m cmd =>
    simp only [Traffic.apply]
    cases ctlExec (s.convs m) cmd <;> exact hdropped
  | _ => exact hdropped

theorem kept_step (hpos : 0 < maxMsg) (hmax : maxMsg < 65536) (s : Traffic) (h : Ledgers) (event : TrafficEvent)
    (s' : Traffic) (k : AllKept s h) (hsuited : Suited maxMsg s event) (hstep : s.step maxMsg event = some s') :
    AllKept s' (Ledgers.note maxMsg s event h) := by
  cases Option.some.inj hstep
  constructor
  · intro n hused
    rw [Traffic.apply_convs] at hused ⊢
    exact kept_slot hpos hmax k hsuited hused
  · exact kept_dropped k hsuited

theorem kept_init : AllKept .init .init := ⟨nofun, rfl⟩

/-- In every run each conversation is the mailbox of its binding: its reads
since it was bound, then its queue, are the receptions that matched and found
room, and `rx_drop` counts those that matched and found none. -/
theorem filtered_mailbox (hpos : 0 < maxMsg) (hmax : maxMsg < 65536) {events : List TrafficEvent} {s : Traffic}
    {h : Ledgers} (hsuited : Along (Traffic.step maxMsg) (Suited maxMsg) .init events)
    (hrun : run (recording (Traffic.step maxMsg) (Ledgers.note maxMsg)) (.init, .init) events = some (s, h)) :
    (∀ n, (s.convs n).inUse = true → Mirrors (s.convs n) (h.slot n)) ∧ s.rxDrop = h.dropped % 4294967296 := by
  have hkept := recording_invariant (kept_step hpos hmax) kept_init hsuited hrun
  exact ⟨fun n hused => (hkept.slot n hused).toMirrors, hkept.dropped⟩

def sampleEui : Addr := ⟨[2, 0, 0, 0, 0, 1], rfl⟩

def sampleRoute : Addr := ⟨[0, 0, 0, 0, 1, 2], rfl⟩

def sampleMesh : Bindings where
  euiToAddr := fun eui => if eui = sampleEui then some sampleRoute else none
  addrToEui := fun addr => if addr = sampleRoute then some sampleEui else none

theorem sampleMesh_inverse : sampleMesh.Inverse := by
  intro eui addr
  simp only [sampleMesh, Option.ite_none_right_eq_some, Option.some.injEq]
  constructor
  · rintro ⟨rfl, rfl⟩
    exact ⟨rfl, rfl⟩
  · rintro ⟨rfl, rfl⟩
    exact ⟨rfl, rfl⟩

def sampleTraffic : List TrafficEvent :=
  [.clone, .ctl Slot.first (.connect sampleEui), .recv sampleMesh 0 sampleRoute [7] false,
    .recv sampleMesh 0 .zero [9] false, .recv sampleMesh 0 sampleRoute [8] false, .read Slot.first 64]

theorem sampleTraffic_suited : Along (Traffic.step 512) (Suited 512) .init sampleTraffic := by
  apply along_and
  · apply along_forall
    intro event hevent s
    simp only [sampleTraffic, List.mem_cons, List.not_mem_nil, or_false] at hevent
    rcases hevent with rfl | rfl | rfl | rfl | rfl | rfl
    all_goals first
      | trivial
      | exact ⟨by decide, sampleMesh_inverse⟩
  · decide +kernel

theorem sampleTraffic_mailbox : ∃ s h,
    run (recording (Traffic.step 512) (Ledgers.note 512)) (.init, .init) sampleTraffic = some (s, h) ∧
      (h.slot 0).returned = [⟨3, sampleEui, [7]⟩] ∧ Mirrors (s.convs 0) (h.slot 0) := by
  have hreturned : (run (recording (Traffic.step 512) (Ledgers.note 512)) (.init, .init) sampleTraffic).map
      (fun final => (final.2.slot 0).returned) = some [⟨3, sampleEui, [7]⟩] := by decide +kernel
  have hused : (run (recording (Traffic.step 512) (Ledgers.note 512)) (.init, .init) sampleTraffic).map
      (fun final => (final.1.convs 0).inUse) = some true := by decide +kernel
  obtain ⟨⟨s, h⟩, hrun, hlist⟩ := Option.map_eq_some_iff.mp hreturned
  rw [hrun] at hused
  have hmailbox := filtered_mailbox (by decide) (by decide) sampleTraffic_suited hrun
  exact ⟨s, h, hrun, hlist, hmailbox.1 0 (Option.some.inj hused)⟩

end DectMesh.Aether
