import DectMesh.Aether.AnnouncedReply
import DectMesh.Aether.FilteredMailbox

/-! The nodes of a mesh with their conversations, and what they send one another:
from a write on one node, through the sender's ARQ and the receiver's gate, to a
read on the other. -/
namespace DectMesh.Aether

open DectMesh.Lib

structure Ether {ν : Type} (fleet : Fleet ν) where
  holder : Addr → Option ν
  view : ν → Mesh fleet
  shared : ∀ node, (view node).holder = holder
  inverse : ∀ node, (view node).table.Inverse

/-- Who sends a unicast: the writer of a data file, or the node's own 9P client
and server. -/
inductive Source where
  | write (n : Slot) (buf : List UInt8)
  | own (dst : Addr) (payload : List UInt8)

/-- What becomes of a unicast: it does not get across, or it comes in by a route
of the sender, with so many requests in the ring, and is acknowledged or not. -/
inductive Crossing where
  | lost
  | arrived (route : Addr) (ring : Nat) (acked : Bool)

def Crossing.acked : Crossing → Bool
  | .lost => false
  | .arrived _ _ acked => acked

variable {ν : Type} [DecidableEq ν]

structure Net (fleet : Fleet ν) where
  ether : Ether fleet
  node : ν → Traffic

def Net.init {fleet : Fleet ν} (ether : Ether fleet) : Net fleet := ⟨ether, fun _ => .init⟩

/-- Nodes re-join, something happens on a node, a broadcast comes in at one, or
one sends a unicast. -/
inductive MeshEvent (fleet : Fleet ν) where
  | churn (ether : Ether fleet)
  | own (node : ν) (event : TrafficEvent)
  | party (node source : ν) (payload : List UInt8)
  | post (sender : ν) (source : Source) (crossing : Crossing)

variable {fleet : Fleet ν} (maxMsg : Nat)

def Net.outgoing (s : Net fleet) (sender : ν) : Source → Except Int Outgoing
  | .write n buf => anetWriteData maxMsg (s.ether.view sender).table ((s.node sender).convs n) buf
  | .own dst payload => sizedSend maxMsg dst payload

def Net.unicast (s : Net fleet) (sender : ν) (source : Source) : Option (ν × List UInt8) :=
  match s.outgoing maxMsg sender source with
  | .ok (.reliable dst payload) => (s.ether.holder dst).map fun receiver => (receiver, payload)
  | _ => none

def Net.arrives (s : Net fleet) : MeshEvent fleet → Option (ν × TrafficEvent)
  | .churn _ | .post _ _ .lost => none
  | .own node event => some (node, event)
  | .party node source payload =>
      some (node, .recv (s.ether.view node).table 0 (fleet.eui source) payload true)
  | .post sender source (.arrived route ring _) =>
      (s.unicast maxMsg sender source).map fun (receiver, payload) =>
        (receiver, .recv (s.ether.view receiver).table ring route payload false)

/-- Only what the receiver's gate lets in is acknowledged. -/
def Net.allows (s : Net fleet) : MeshEvent fleet → Bool
  | .own _ (.recv ..) => false
  | .post sender source (.arrived route ring acked) =>
      s.ether.holder route = some sender &&
        (s.unicast maxMsg sender source).any fun (_, payload) => !acked || received maxMsg ring payload false
  | _ => true

def meshStep (s : Net fleet) (event : MeshEvent fleet) : Option (Net fleet) :=
  match event with
  | .churn ether => some { s with ether := ether }
  | event =>
      if s.allows maxMsg event then
        match s.arrives maxMsg event with
        | none => some s
        | some (node, e) =>
            ((s.node node).step maxMsg e).map fun t => { s with node := Function.update s.node node t }
      else none

/-! ## History -/

structure Offer (ν : Type) where
  sender : ν
  payload : List UInt8
  acked : Bool

structure MeshLog (ν : Type) where
  ledgers : ν → Ledgers
  offers : ν → Slot → List (Offer ν)

def MeshLog.init : MeshLog ν := ⟨fun _ => .init, fun _ _ => []⟩

def Net.offer (s : Net fleet) : MeshEvent fleet → Option (ν × Offer ν)
  | .post sender source crossing =>
      (s.unicast maxMsg sender source).map fun (receiver, payload) => (receiver, ⟨sender, payload, crossing.acked⟩)
  | _ => none

def Ledgers.rebinds (h : Ledgers) (s : Traffic) (event : TrafficEvent) (n : Slot) : Bool :=
  match event with
  | .clone | .sessionOpen _ => freeSlot s.convs = some n
  | .ctl m cmd => m = n && ((h.slot n).binding.after cmd).isSome
  | .clunk m | .sessionClose m => m = n
  | _ => false

def MeshLog.note (s : Net fleet) (event : MeshEvent fleet) (h : MeshLog ν) : MeshLog ν where
  ledgers :=
    match s.arrives maxMsg event with
    | none => h.ledgers
    | some (node, e) => Function.update h.ledgers node (Ledgers.note maxMsg (s.node node) e (h.ledgers node))
  offers := fun node n =>
    if (s.arrives maxMsg event).any fun (home, e) => home = node && (h.ledgers node).rebinds (s.node node) e n then []
    else h.offers node n ++ ((s.offer maxMsg event).filter fun (home, _) => home = node).toList.map Prod.snd

/-! ## The assumption on a run -/

def TrafficEvent.Laden : TrafficEvent → Prop
  | .recv _ _ _ payload _ => payload ≠ []
  | _ => True

instance : ∀ event : TrafficEvent, Decidable event.Laden
  | .recv _ _ _ _ _ => inferInstanceAs (Decidable (_ ≠ _))
  | .clone | .ctl _ _ | .clunk _ | .read _ _ | .sessionOpen _ | .sessionGet _ | .sessionClose _ => .isTrue trivial

/-- The conversations connected to the sender of an acknowledged unicast know the
route it comes by and have room for it. -/
def Net.Serves (s : Net fleet) : MeshEvent fleet → Prop
  | .post sender source (.arrived route _ true) =>
      ∀ post ∈ s.unicast maxMsg sender source, ∀ n,
        ((s.node post.1).convs n).inUse = true → ((s.node post.1).convs n).binding = .peer (fleet.eui sender) →
          (s.ether.view post.1).table.addrToEui route = some (fleet.eui sender) ∧
            ((s.node post.1).convs n).full = false
  | _ => True

/-- Receptions carry a payload, no read is too small for the datagram it gets, and
what is acknowledged is served. -/
def Fair (s : Net fleet) (event : MeshEvent fleet) : Prop :=
  (∀ arrival ∈ s.arrives maxMsg event, arrival.2.Laden ∧
    ∀ n, ∀ ending ∈ (s.node arrival.1).endings maxMsg arrival.2 n, ending.2.fits = true) ∧
  s.Serves maxMsg event

instance (s : Net fleet) : ∀ event : MeshEvent fleet, Decidable (s.Serves maxMsg event)
  | .post _ _ (.arrived _ _ true) => inferInstanceAs (Decidable (∀ _ ∈ _, _))
  | .post _ _ (.arrived _ _ false) | .post _ _ .lost | .churn _ | .own _ _ | .party _ _ _ => .isTrue trivial

instance (s : Net fleet) (event : MeshEvent fleet) : Decidable (Fair maxMsg s event) :=
  inferInstanceAs (Decidable (_ ∧ _))

/-- What a mailbox bound to a node has of its unicasts: all that were acknowledged,
nothing else than unicasts of that node, in the order they were sent. -/
structure Between (other : ν) (matched : List Delivery) (offers : List (Offer ν)) : Prop where
  acked : ((offers.filter fun o => o.sender = other && o.acked).map Offer.payload).Sublist
    (matched.map Delivery.bytes)
  sent : (matched.map Delivery.bytes).Sublist ((offers.filter fun o => o.sender = other).map Offer.payload)

structure MeshInv (s : Net fleet) (h : MeshLog ν) : Prop where
  kept : ∀ node, AllKept (s.node node) (h.ledgers node)
  between : ∀ node n, ((s.node node).convs n).inUse = true → ∀ other,
    ((h.ledgers node).slot n).binding = .peer (fleet.eui other) →
      Between other ((h.ledgers node).slot n).matched (h.offers node n)

variable {maxMsg}

theorem between_nil (other : ν) : Between other [] [] := ⟨List.Sublist.slnil, List.Sublist.slnil⟩

theorem Between.offered {other : ν} {matched : List Delivery} {offers : List (Offer ν)}
    (b : Between other matched offers) {o : Offer ν} (h : o.sender = other → o.acked = false) :
    Between other matched (offers ++ [o]) := by
  have hunacked : [o].filter (fun o => o.sender = other && o.acked) = [] := by
    rw [List.filter_cons_of_neg, List.filter_nil]
    rw [Bool.and_eq_true, decide_eq_true_eq]
    rintro ⟨hsender, hacked⟩
    rw [h hsender] at hacked
    cases hacked
  constructor
  · rw [List.filter_append, hunacked, List.append_nil]
    exact b.acked
  · rw [List.filter_append, List.map_append]
    exact b.sent.trans (List.sublist_append_left _ _)

theorem Between.received {other : ν} {matched : List Delivery} {offers : List (Offer ν)}
    (b : Between other matched offers) {o : Offer ν} {d : Delivery} (hsender : o.sender = other)
    (hbytes : d.bytes = o.payload) : Between other (matched ++ [d]) (offers ++ [o]) := by
  have hsent : [o].filter (fun o => o.sender = other) = [o] := by
    rw [List.filter_cons_of_pos (by simp [hsender]), List.filter_nil]
  constructor
  · rw [List.filter_append, List.map_append, List.map_append]
    refine b.acked.append ?_
    rw [List.map_singleton, hbytes]
    exact (List.filter_sublist.map _)
  · rw [List.filter_append, hsent, List.map_append, List.map_append, List.map_singleton, List.map_singleton, hbytes]
    exact b.sent.append (List.Sublist.refl _)

/-! ## One node -/

theorem Conv.inUse_of_act {c : Conv Reading} {action : Action} (hfresh : ∀ bound, action ≠ .fresh bound)
    (h : (c.act action).inUse = true) : c.inUse = true := by
  cases action with
  | ctl cmd =>
    rw [Conv.act] at h
    cases hexec : ctlExec c cmd with
    | none =>
      rw [hexec] at h
      exact h
    | some c' =>
      rw [hexec] at h
      exact (ctlExec_cases hexec).1.symm.trans h
  | free => exact absurd h (by rw [act_free_inUse]; decide)
  | fresh bound => exact absurd rfl (hfresh bound)
  | _ => exact h

theorem rebinds_of_fresh {h : Ledgers} {s : Traffic} {event : TrafficEvent} {n : Slot} {bound : Option Addr}
    (hfresh : s.action maxMsg event n = .fresh bound) : h.rebinds s event n = true := by
  cases event with
  | clone | sessionOpen =>
    simp only [Traffic.action] at hfresh
    split at hfresh
    · exact decide_eq_true ‹_›
    · cases hfresh
  | _ =>
    simp only [Traffic.action] at hfresh
    split at hfresh <;> cases hfresh

/-- A slot that an event binds has an empty ledger, and one that it leaves bound
has what it had, unless a frame comes in. -/
theorem noteSlot_rebinds {h : Ledgers} {s : Traffic} {event : TrafficEvent} {n : Slot}
    (hrebinds : h.rebinds s event n = true) : (h.noteSlot maxMsg s event n).matched = [] := by
  cases event with
  | clone | sessionOpen =>
    have hfree := of_decide_eq_true hrebinds
    simp only [Ledgers.noteSlot, hfree, if_true]
    rfl
  | ctl m cmd =>
    simp only [Ledgers.rebinds, Bool.and_eq_true, decide_eq_true_eq] at hrebinds
    obtain ⟨rfl, hafter⟩ := hrebinds
    obtain ⟨binding, hbinding⟩ := Option.isSome_iff_exists.mp hafter
    simp only [Ledgers.noteSlot, if_true, hbinding]
    rfl
  | clunk m | sessionClose m =>
    have hm := of_decide_eq_true hrebinds
    simp only [Ledgers.noteSlot, hm, if_true]
    rfl
  | _ => cases hrebinds

theorem noteSlot_keeps {h : Ledgers} {s : Traffic} {event : TrafficEvent} {n : Slot}
    (hrebinds : h.rebinds s event n = false)
    (hown : ∀ mesh ring src payload broadcast, event ≠ .recv mesh ring src payload broadcast) :
    (h.noteSlot maxMsg s event n).matched = (h.slot n).matched ∧
      (h.noteSlot maxMsg s event n).binding = (h.slot n).binding := by
  cases event with
  | recv mesh ring src payload broadcast => exact absurd rfl (hown _ _ _ _ _)
  | clone | sessionOpen =>
    have hfree := of_decide_eq_false hrebinds
    simp only [Ledgers.noteSlot, hfree, if_false, and_self]
  | ctl m cmd =>
    simp only [Ledgers.noteSlot]
    split
    · rename_i hm
      simp only [Ledgers.rebinds, hm, decide_true, Bool.true_and, Option.isSome_eq_false_iff,
        Option.isNone_iff_eq_none] at hrebinds
      rw [hrebinds]
      exact ⟨rfl, rfl⟩
    · exact ⟨rfl, rfl⟩
  | clunk m | sessionClose m =>
    have hm := of_decide_eq_false hrebinds
    simp only [Ledgers.noteSlot, hm, if_false, and_self]
  | read m count | sessionGet m => exact ⟨rfl, rfl⟩

theorem noteSlot_recv {h : Ledgers} {s : Traffic} {mesh : Bindings} {ring : Nat} {src : Addr} {payload : List UInt8}
    {broadcast : Bool} {n : Slot} :
    (h.noteSlot maxMsg s (.recv mesh ring src payload broadcast) n).binding = (h.slot n).binding ∧
      (h.noteSlot maxMsg s (.recv mesh ring src payload broadcast) n).matched =
        (h.slot n).matched ++
          if received maxMsg ring payload broadcast && h.asks s mesh src broadcast n && !(s.convs n).full then
            [(s.frame src payload broadcast).delivery maxMsg mesh] else [] := by
  simp only [Ledgers.noteSlot]
  split
  · exact ⟨rfl, rfl⟩
  · exact ⟨rfl, (List.append_nil _).symm⟩

omit [DecidableEq ν] in
theorem asks_sender {ether : Ether fleet} {h : Ledgers} {s : Traffic} {receiver sender other : ν} {route : Addr}
    {n : Slot} (hroute : ether.holder route = some sender) (hbinding : (h.slot n).binding = .peer (fleet.eui other))
    (hasks : h.asks s (ether.view receiver).table route false n = true) : sender = other := by
  have hholder : (ether.view receiver).holder route = some sender := by rw [ether.shared, hroute]
  rw [Ledgers.asks, hbinding, Binding.wants, Bool.and_eq_true, Bool.not_false, Bool.true_and, Bool.or_eq_true,
    decide_eq_true_eq, decide_eq_true_eq] at hasks
  rcases hasks.2 with hknown | hidentity
  · obtain ⟨node, heui, hnode⟩ := (ether.view receiver).names _ _ hknown
    have hsame := hholder.symm.trans hnode
    cases hsame
    exact fleet.distinct _ _ heui
  · rw [hidentity, (ether.view receiver).apart] at hholder
    cases hholder

omit [DecidableEq ν] in
theorem unicast_fits {s : Net fleet} {sender receiver : ν} {source : Source} {payload : List UInt8}
    (h : s.unicast maxMsg sender source = some (receiver, payload)) : payload.length ≤ maxMsg := by
  have hsized : ∀ dst sent other, sizedSend maxMsg dst sent = .ok (.reliable other payload) →
      payload.length ≤ maxMsg := by
    intro dst sent other hsend
    unfold sizedSend at hsend
    split at hsend
    · cases hsend
    · cases hsend
      omega
  have hsent : ∃ dst, s.outgoing maxMsg sender source = .ok (.reliable dst payload) := by
    unfold Net.unicast at h
    split at h
    · rename_i dst sent hsent
      obtain ⟨_, -, hpair⟩ := Option.map_eq_some_iff.mp h
      cases hpair
      exact ⟨dst, hsent⟩
    · cases h
  obtain ⟨dst, hsent⟩ := hsent
  cases source with
  | own dst payload => exact hsized _ _ _ hsent
  | write n buf =>
    dsimp only [Net.outgoing, anetWriteData] at hsent
    split at hsent
    · split at hsent <;> cases hsent
    · exact hsized _ _ _ hsent
    · split at hsent
      · cases hsent
      · exact hsized _ _ _ hsent
    · cases hsent

/-- A unicast that comes in: a conversation connected to its sender has it if there
is room, and has room if it is acknowledged. -/
theorem between_post {s : Net fleet} {h : Ledgers} {sender receiver other : ν} {source : Source} {route : Addr}
    {ring : Nat} {acked : Bool} {payload : List UInt8} {n : Slot} {offers : List (Offer ν)}
    (hallows : s.allows maxMsg (.post sender source (.arrived route ring acked)) = true)
    (hserves : s.Serves maxMsg (.post sender source (.arrived route ring acked)))
    (hunicast : s.unicast maxMsg sender source = some (receiver, payload)) (k : AllKept (s.node receiver) h)
    (hused : ((s.node receiver).convs n).inUse = true) (hbinding : (h.slot n).binding = .peer (fleet.eui other))
    (b : Between other (h.slot n).matched offers) :
    Between other
      (h.noteSlot maxMsg (s.node receiver) (.recv (s.ether.view receiver).table ring route payload false) n).matched
      (offers ++ [⟨sender, payload, acked⟩]) := by
  rw [Net.allows, hunicast, Bool.and_eq_true, decide_eq_true_eq, Option.any_some, Bool.or_eq_true,
    Bool.not_eq_true'] at hallows
  obtain ⟨hroute, hgate⟩ := hallows
  rw [noteSlot_recv.2]
  by_cases htaken : (received maxMsg ring payload false &&
      h.asks (s.node receiver) (s.ether.view receiver).table route false n &&
      !((s.node receiver).convs n).full) = true
  · rw [if_pos htaken]
    rw [Bool.and_eq_true, Bool.and_eq_true] at htaken
    exact b.received (asks_sender hroute hbinding htaken.1.2) (List.take_of_length_le (unicast_fits hunicast))
  · rw [if_neg htaken, List.append_nil]
    refine b.offered fun hsender => ?_
    dsimp only at hsender ⊢
    subst hsender
    cases acked with
    | false => rfl
    | true =>
      have hconv : ((s.node receiver).convs n).binding = .peer (fleet.eui sender) :=
        (k.slot n hused).binding.symm.trans hbinding
      obtain ⟨hknown, hroom⟩ := hserves _ hunicast n hused hconv
      refine absurd ?_ htaken
      have hreceived := hgate.resolve_left Bool.noConfusion
      simp only [hreceived, Ledgers.asks, hused, hbinding, Binding.wants, hknown, hroom, decide_true, Bool.not_false,
        Bool.true_or, Bool.and_self]

/-! ## A step of the mesh -/

theorem meshStep_cases {s s' : Net fleet} {event : MeshEvent fleet} (h : meshStep maxMsg s event = some s') :
    (s'.node = s.node ∧ s.arrives maxMsg event = none) ∨
      ∃ node e t, s.allows maxMsg event = true ∧ s.arrives maxMsg event = some (node, e) ∧
        (s.node node).step maxMsg e = some t ∧ s' = { s with node := Function.update s.node node t } := by
  cases event with
  | churn ether =>
    cases h
    exact .inl ⟨rfl, rfl⟩
  | own | party | post =>
    dsimp only [meshStep] at h
    rw [Option.ite_none_right_eq_some] at h
    obtain ⟨hallows, h⟩ := h
    split at h
    · rename_i hnone
      cases h
      exact .inl ⟨rfl, hnone⟩
    · rename_i node e harrives
      obtain ⟨t, ht, rfl⟩ := Option.map_eq_some_iff.mp h
      exact .inr ⟨node, e, t, hallows, harrives, ht, rfl⟩

theorem arrives_suited {s : Net fleet} {event : MeshEvent fleet} {node : ν} {e : TrafficEvent}
    (hfair : Fair maxMsg s event) (hallows : s.allows maxMsg event = true)
    (harrives : s.arrives maxMsg event = some (node, e)) : Suited maxMsg (s.node node) e := by
  obtain ⟨hladen, hroom⟩ := hfair.1 _ harrives
  refine ⟨?_, hroom⟩
  cases event with
  | churn => cases harrives
  | own home event =>
    cases harrives
    cases e with
    | recv => cases hallows
    | _ => trivial
  | party home source payload =>
    cases harrives
    exact ⟨hladen, s.ether.inverse _⟩
  | post sender source crossing =>
    cases crossing with
    | lost => cases harrives
    | arrived route ring acked =>
      obtain ⟨⟨receiver, payload⟩, -, harrival⟩ := Option.map_eq_some_iff.mp harrives
      cases harrival
      exact ⟨hladen, s.ether.inverse _⟩

omit [DecidableEq ν] in
theorem offer_lost {s : Net fleet} {event : MeshEvent fleet} {home : ν} {o : Offer ν}
    (harrives : s.arrives maxMsg event = none) (hoffer : s.offer maxMsg event = some (home, o)) :
    o.acked = false := by
  cases event with
  | post sender source crossing =>
    obtain ⟨⟨receiver, payload⟩, hunicast, hpair⟩ := Option.map_eq_some_iff.mp hoffer
    cases hpair
    cases crossing with
    | lost => rfl
    | arrived route ring acked =>
      rw [Net.arrives, hunicast] at harrives
      cases harrives
  | _ => cases hoffer

omit [DecidableEq ν] in
theorem offer_home {s : Net fleet} {event : MeshEvent fleet} {node home : ν} {e : TrafficEvent} {o : Offer ν}
    (harrives : s.arrives maxMsg event = some (node, e)) (hoffer : s.offer maxMsg event = some (home, o)) :
    home = node := by
  cases event with
  | post sender source crossing =>
    obtain ⟨⟨receiver, payload⟩, hunicast, hpair⟩ := Option.map_eq_some_iff.mp hoffer
    cases hpair
    cases crossing with
    | lost => cases harrives
    | arrived route ring acked =>
      rw [Net.arrives, hunicast] at harrives
      cases harrives
      rfl
  | _ => cases hoffer

theorem between_arrival {s : Net fleet} {h : MeshLog ν} {event : MeshEvent fleet} {node other : ν} {e : TrafficEvent}
    {n : Slot} (hinv : MeshInv s h) (hfair : Fair maxMsg s event) (hallows : s.allows maxMsg event = true)
    (harrives : s.arrives maxMsg event = some (node, e))
    (hused : (((s.node node).convs n).act ((s.node node).action maxMsg e n)).inUse = true)
    (hbinding : ((h.ledgers node).noteSlot maxMsg (s.node node) e n).binding = .peer (fleet.eui other)) :
    Between other ((h.ledgers node).noteSlot maxMsg (s.node node) e n).matched
      ((MeshLog.note maxMsg s event h).offers node n) := by
  simp only [MeshLog.note, harrives, Option.any_some, decide_true, Bool.true_and]
  cases hrebinds : (h.ledgers node).rebinds (s.node node) e n with
  | true =>
    rw [noteSlot_rebinds hrebinds, if_pos rfl]
    exact between_nil other
  | false =>
    rw [if_neg Bool.false_ne_true]
    have hfresh : ∀ bound, (s.node node).action maxMsg e n ≠ .fresh bound := by
      intro bound heq
      rw [rebinds_of_fresh heq] at hrebinds
      cases hrebinds
    have hbefore := Conv.inUse_of_act hfresh hused
    cases event with
    | churn => cases harrives
    | own home event =>
      cases harrives
      obtain ⟨hmatched, hsame⟩ := @noteSlot_keeps maxMsg _ _ _ _ hrebinds (by rintro _ _ _ _ _ rfl; cases hallows)
      rw [hmatched]
      rw [hsame] at hbinding
      simp only [Net.offer, Option.filter_none, Option.toList_none, List.map_nil, List.append_nil]
      exact hinv.between node n hbefore other hbinding
    | party home source payload =>
      cases harrives
      rw [noteSlot_recv.1] at hbinding
      have hasks : (h.ledgers node).asks (s.node node) (s.ether.view node).table (fleet.eui source) true n =
          false := by
        rw [Ledgers.asks, hbinding, Binding.wants, Bool.not_true, Bool.false_and, Bool.and_false]
      rw [noteSlot_recv.2, hasks, Bool.and_false, Bool.false_and, if_neg Bool.false_ne_true, List.append_nil]
      simp only [Net.offer, Option.filter_none, Option.toList_none, List.map_nil, List.append_nil]
      exact hinv.between node n hbefore other hbinding
    | post sender source crossing =>
      cases crossing with
      | lost => cases harrives
      | arrived route ring acked =>
        obtain ⟨⟨receiver, payload⟩, hunicast, harrival⟩ := Option.map_eq_some_iff.mp harrives
        cases harrival
        rw [noteSlot_recv.1] at hbinding
        have hafter := between_post hallows hfair.2 hunicast (hinv.kept _) hbefore hbinding
          (hinv.between _ n hbefore other hbinding)
        simpa only [Net.offer, hunicast, Option.map_some, Option.filter_some, decide_true, if_true,
          Option.toList_some, List.map_cons, List.map_nil, Crossing.acked] using hafter

theorem meshInv_step (hpos : 0 < maxMsg) (hmax : maxMsg < 65536) (s : Net fleet) (h : MeshLog ν)
    (event : MeshEvent fleet) (s' : Net fleet) (hinv : MeshInv s h) (hfair : Fair maxMsg s event)
    (hstep : meshStep maxMsg s event = some s') : MeshInv s' (MeshLog.note maxMsg s event h) := by
  rcases meshStep_cases hstep with ⟨hnode, harrives⟩ | ⟨home, e, t, hallows, harrives, ht, rfl⟩
  · have hledgers : (MeshLog.note maxMsg s event h).ledgers = h.ledgers := by simp only [MeshLog.note, harrives]
    constructor
    · intro node
      rw [hnode, hledgers]
      exact hinv.kept node
    · intro node n hused other hbinding
      rw [hnode] at hused
      rw [hledgers] at hbinding ⊢
      have hbefore := hinv.between node n hused other hbinding
      simp only [MeshLog.note, harrives, Option.any_none, Bool.false_eq_true, if_false]
      cases hoffer : s.offer maxMsg event with
      | none =>
        rw [Option.filter_none, Option.toList_none, List.map_nil, List.append_nil]
        exact hbefore
      | some offered =>
        rw [Option.filter_some]
        split
        · exact hbefore.offered fun _ => offer_lost harrives hoffer
        · rw [Option.toList_none, List.map_nil, List.append_nil]
          exact hbefore
  · have hledgers : (MeshLog.note maxMsg s event h).ledgers =
        Function.update h.ledgers home (Ledgers.note maxMsg (s.node home) e (h.ledgers home)) := by
      simp only [MeshLog.note, harrives]
    have hkept := kept_step hpos hmax _ _ e t (hinv.kept home) (arrives_suited hfair hallows harrives) ht
    have hconvs : ∀ n, t.convs n = ((s.node home).convs n).act ((s.node home).action maxMsg e n) := by
      cases Option.some.inj ht
      exact Traffic.apply_convs maxMsg (s.node home) e
    constructor
    · intro node
      rw [hledgers]
      dsimp only
      by_cases hhome : node = home
      · subst hhome
        rw [Function.update_self, Function.update_self]
        exact hkept
      · rw [Function.update_of_ne hhome, Function.update_of_ne hhome]
        exact hinv.kept node
    · intro node n hused other hbinding
      rw [hledgers] at hbinding ⊢
      dsimp only at hused
      by_cases hhome : node = home
      · subst hhome
        rw [Function.update_self] at hused hbinding ⊢
        rw [hconvs] at hused
        exact between_arrival hinv hfair hallows harrives hused hbinding
      · rw [Function.update_of_ne hhome] at hused hbinding ⊢
        have hbefore := hinv.between node n hused other hbinding
        have hnone : (s.offer maxMsg event).filter (fun x => decide (x.1 = node)) = none := by
          cases hoffer : s.offer maxMsg event with
          | none => rfl
          | some offered =>
            have hsame := offer_home harrives hoffer
            rw [Option.filter_some, if_neg (by simpa [hsame] using Ne.symm hhome)]
        simp only [MeshLog.note, harrives, Option.any_some, Ne.symm hhome, decide_false, Bool.false_and,
          Bool.false_eq_true, if_false, hnone, Option.toList_none, List.map_nil, List.append_nil]
        exact hbefore

theorem meshInv_init (ether : Ether fleet) : MeshInv (.init ether) .init := ⟨fun _ => kept_init, nofun⟩

/-- Two ends of a mesh of any nodes, in every run: what the reads of a conversation
connected to a node have returned since, then what is queued, holds each of the
node's unicasts that was acknowledged, and is made of its unicasts only, whole and
in the order they were sent. -/
theorem unicasts_between (hpos : 0 < maxMsg) (hmax : maxMsg < 65536) {ether : Ether fleet}
    {events : List (MeshEvent fleet)} {s : Net fleet} {h : MeshLog ν}
    (hfair : Along (meshStep maxMsg) (Fair maxMsg) (.init ether) events)
    (hrun : run (recording (meshStep maxMsg) (MeshLog.note maxMsg)) (.init ether, .init) events = some (s, h))
    {node other : ν} {n : Slot} (hused : ((s.node node).convs n).inUse = true)
    (hstate : ((s.node node).convs n).state = .connected)
    (hpeer : ((s.node node).convs n).peer = fleet.eui other) :
    Between other (((h.ledgers node).slot n).returned ++ ((s.node node).convs n).queued.map Dgram.delivery)
      (h.offers node n) := by
  have hinv := recording_invariant (meshInv_step hpos hmax) (meshInv_init ether) hfair hrun
  have hslot := (hinv.kept node).slot n hused
  rw [hslot.exact]
  refine hinv.between node n hused other ?_
  rw [hslot.binding, Conv.binding, hstate, hpeer]

/-! ## Two nodes -/

def knownPair : Mesh pair where
  holder r := if r = oldRoute then some false else if r = newRoute then some true else none
  table := ⟨fun eui =>
      if eui = pair.eui false then some oldRoute else if eui = pair.eui true then some newRoute else none,
    fun r => if r = oldRoute then some (pair.eui false) else if r = newRoute then some (pair.eui true) else none⟩
  apart := by decide
  resolves eui route h := by
    dsimp only at h
    split at h
    · cases h
      exact ⟨false, Eq.symm ‹_›, rfl⟩
    · split at h
      · cases h
        exact ⟨true, Eq.symm ‹_›, rfl⟩
      · cases h
  names route eui h := by
    dsimp only at h
    split at h
    · cases h
      exact ⟨false, rfl, if_pos ‹_›⟩
    · split at h
      · rename_i hnot hnew
        cases h
        exact ⟨true, rfl, by rw [if_neg hnot, if_pos hnew]⟩
      · cases h

theorem knownPair_inverse : knownPair.table.Inverse := by
  intro eui addr
  constructor
  · intro h
    obtain ⟨node, rfl, hholder⟩ := knownPair.resolves eui addr h
    cases node <;> · cases h; rfl
  · intro h
    obtain ⟨node, rfl, hholder⟩ := knownPair.names addr eui h
    simp only [knownPair] at hholder
    split at hholder
    · rename_i hold
      cases hholder
      rw [hold]
      rfl
    · split at hholder
      · rename_i hnew
        cases hholder
        rw [hnew]
        rfl
      · cases hholder

def pairEther : Ether pair := ⟨knownPair.holder, fun _ => knownPair, fun _ => rfl, fun _ => knownPair_inverse⟩

/-- Each node connects to the other, and one writes: its first datagram is lost and
written again, the second one comes in and its acknowledgement is lost. -/
def writtenAgain : List (MeshEvent pair) :=
  [.own true .clone, .own true (.ctl Slot.first (.connect (pair.eui false))), .own false .clone,
    .own false (.ctl Slot.first (.connect (pair.eui true))), .post false (.write Slot.first [7]) .lost,
    .post false (.write Slot.first [7]) (.arrived oldRoute 0 true),
    .post false (.write Slot.first [8]) (.arrived oldRoute 0 false), .own true (.read Slot.first 64)]

theorem unicasts_written_again : ∃ s h,
    run (recording (meshStep 512) (MeshLog.note 512)) (.init pairEther, .init) writtenAgain = some (s, h) ∧
      ((h.ledgers true).slot 0).returned.map Delivery.bytes = [[7]] ∧
      (h.offers true 0).map (fun o => (o.payload, o.acked)) = [([7], false), ([7], true), ([8], false)] ∧
      Between false (((h.ledgers true).slot 0).returned ++ ((s.node true).convs 0).queued.map Dgram.delivery)
        (h.offers true 0) := by
  have hbound : (run (recording (meshStep 512) (MeshLog.note 512)) (.init pairEther, .init) writtenAgain).map
      (fun final => decide ((((final.2.ledgers true).slot 0).returned.map Delivery.bytes = [[7]]) ∧
        (final.2.offers true 0).map (fun o => (o.payload, o.acked)) = [([7], false), ([7], true), ([8], false)] ∧
        ((final.1.node true).convs 0).inUse = true ∧ ((final.1.node true).convs 0).state = .connected ∧
        ((final.1.node true).convs 0).peer = pair.eui false)) = some true := by decide +kernel
  obtain ⟨⟨s, h⟩, hrun, hall⟩ := Option.map_eq_some_iff.mp hbound
  obtain ⟨hreturned, hoffers, hused, hstate, hpeer⟩ := of_decide_eq_true hall
  exact ⟨s, h, hrun, hreturned, hoffers,
    unicasts_between (by decide) (by decide) (by decide +kernel) hrun hused hstate hpeer⟩

end DectMesh.Aether
