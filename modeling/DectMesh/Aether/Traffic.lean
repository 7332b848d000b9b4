import DectMesh.Aether.Conversation
import DectMesh.Lib.History
import DectMesh.Mesh9p.Ring

/-! The conversations under traffic: receptions behind the ack gate, clones,
ctl commands, teardowns, the in-process sessions, and data reads with what they
end in. What an event does to one slot is an action on that slot. -/
namespace DectMesh.Aether

open DectMesh.Lib DectMesh.Mesh9p

/-- A data read with room for `count` bytes. `id` is history: the event that
issued it. -/
structure Reading where
  id : Nat
  count : Nat
  deriving DecidableEq

/-- How a data read ends: with a datagram, with `-EMSGSIZE` and the datagram
gone, or with 0 bytes, for an item without payload or after a purge. -/
inductive Ending where
  | datagram (d : Dgram) (bytes : List UInt8)
  | tooSmall (d : Dgram)
  | empty (d : Dgram)
  | purged
  deriving DecidableEq

def Ending.fits : Ending → Bool
  | .tooSmall _ => false
  | _ => true

def Ending.eof : Ending → Bool
  | .empty _ | .purged => true
  | _ => false

def Conv.srcPrefixed {ρ : Type} (c : Conv ρ) : Bool := c.state = .announced || c.state = .bcast

/-- `anet_read` on a data file, behind `k_msgq_get`. -/
def Conv.finishRead {ρ : Type} (c : Conv ρ) (count : Nat) (d : Dgram) : Ending :=
  if d.data = [] then .empty d
  else if count < d.data.length + (if c.srcPrefixed then 6 else 0) then .tooSmall d
  else .datagram d ((if c.srcPrefixed then d.src.bytes else []) ++ d.data)

/-- `mesh9p_ack_gate`, `count` being the ring's. -/
def mesh9pAckGate (maxMsg count : Nat) (payload : List UInt8) : Bool :=
  !looksLike9pT maxMsg payload || count < ringSize

/-! ## The node -/

/-- The slots and `rx_drop`, a 32-bit counter. `now` is history: the number of
the next event. -/
structure Traffic where
  convs : Convs Reading
  rxDrop : Nat
  now : Nat

def Traffic.init : Traffic := ⟨fun _ => .unused, 0, 1⟩

/-- `recv` brings the count that the gate finds in the request ring. -/
inductive TrafficEvent where
  | recv (mesh : Bindings) (ring : Nat) (src : Addr) (payload : List UInt8) (broadcast : Bool)
  | clone
  | ctl (n : Slot) (cmd : CtlCmd)
  | clunk (n : Slot)
  | read (n : Slot) (count : Nat)
  | sessionOpen (eui : Addr)
  | sessionGet (n : Slot)
  | sessionClose (n : Slot)

def announcing : List TrafficEvent := [.clone, .ctl Slot.first .announce]

def Traffic.frame (s : Traffic) (src : Addr) (payload : List UInt8) (broadcast : Bool) : Frame :=
  ⟨src, payload, broadcast, s.now⟩

def Frame.takenBy (f : Frame) (mesh : Bindings) (c : Conv Reading) : Bool :=
  c.takes mesh f.src (identOf mesh f.src f.broadcast) f.broadcast

def Conv.full {ρ : Type} (c : Conv ρ) : Bool := rxqDepth ≤ c.rxq.items.length

/-- The increments of `rx_drop` in `aether_recv_cb`. -/
def drops (mesh : Bindings) (f : Frame) (convs : Convs Reading) : Nat :=
  (List.finRange maxConns).countP fun n => f.takenBy mesh (convs n) && (convs n).full

/-- The gate is asked for unicast frames; what it refuses is not received. -/
def received (maxMsg ring : Nat) (payload : List UInt8) (broadcast : Bool) : Bool :=
  broadcast || mesh9pAckGate maxMsg ring payload

def Traffic.apply (maxMsg : Nat) (s : Traffic) : TrafficEvent → Traffic
  | .recv mesh ring src payload broadcast =>
      if received maxMsg ring payload broadcast then
        { s with
          convs := aetherRecvCb maxMsg mesh (s.frame src payload broadcast) s.convs
          rxDrop := (s.rxDrop + drops mesh (s.frame src payload broadcast) s.convs) % 4294967296 }
      else s
  | .clone => (convAlloc s.convs).elim s fun (_, convs) => { s with convs := convs }
  | .ctl n cmd =>
      (ctlExec (s.convs n) cmd).elim s fun c => { s with convs := Function.update s.convs n c }
  | .clunk n | .sessionClose n => { s with convs := convFree n s.convs }
  | .read n count =>
      { s with
        convs := Function.update s.convs n
          { s.convs n with rxq := ((s.convs n).rxq.get ⟨s.now, count⟩).2 } }
  | .sessionOpen eui =>
      (convAlloc s.convs).elim s fun (n, convs) =>
        { s with convs := Function.update convs n { convs n with peer := eui, state := .connected } }
  | .sessionGet n =>
      { s with convs := Function.update s.convs n { s.convs n with rxq := (s.convs n).rxq.poll.2 } }

def Traffic.step (maxMsg : Nat) (s : Traffic) (event : TrafficEvent) : Option Traffic :=
  some { s.apply maxMsg event with now := s.now + 1 }

/-! ## One slot -/

inductive Action where
  | rest
  | arrive (d : Dgram)
  | ctl (cmd : CtlCmd)
  | free
  | read (r : Reading)
  | fresh (bound : Option Addr)
  | get
  deriving DecidableEq

def Conv.act (c : Conv Reading) : Action → Conv Reading
  | .rest => c
  | .arrive d => { c with rxq := (c.rxq.put rxqDepth d).2 }
  | .ctl cmd => (ctlExec c cmd).getD c
  | .free =>
      if c.inUse then { c with inUse := false, state := .unconnected, rxq := purgeAndSentinel c.rxq } else c
  | .read r => { c with rxq := (c.rxq.get r).2 }
  | .fresh none => .fresh
  | .fresh (some eui) => { Conv.fresh with peer := eui, state := .connected }
  | .get => { c with rxq := c.rxq.poll.2 }

def Traffic.action (maxMsg : Nat) (s : Traffic) (event : TrafficEvent) (n : Slot) : Action :=
  match event with
  | .recv mesh ring src payload broadcast =>
      if received maxMsg ring payload broadcast && (s.frame src payload broadcast).takenBy mesh (s.convs n)
      then .arrive ((s.frame src payload broadcast).dgram maxMsg mesh) else .rest
  | .clone => if freeSlot s.convs = some n then .fresh none else .rest
  | .ctl m cmd => if m = n then .ctl cmd else .rest
  | .clunk m | .sessionClose m => if m = n then .free else .rest
  | .read m count => if m = n then .read ⟨s.now, count⟩ else .rest
  | .sessionOpen eui => if freeSlot s.convs = some n then .fresh (some eui) else .rest
  | .sessionGet m => if m = n then .get else .rest

theorem update_act {convs : Convs Reading} {m n : Slot} {c : Conv Reading} {action : Action}
    (h : c = (convs m).act action) :
    Function.update convs m c n = (convs n).act (if m = n then action else .rest) := by
  by_cases hmn : m = n
  · subst hmn
    rw [Function.update_self, if_pos rfl, h]
  · rw [Function.update_of_ne (Ne.symm hmn), if_neg hmn]
    rfl

/-- Every event is, in every slot, the action seen from there. -/
theorem Traffic.apply_convs (maxMsg : Nat) (s : Traffic) (event : TrafficEvent) (n : Slot) :
    (s.apply maxMsg event).convs n = (s.convs n).act (s.action maxMsg event n) := by
  cases event with
  | recv mesh ring src payload broadcast =>
    simp only [Traffic.apply, Traffic.action]
    by_cases hreceived : received maxMsg ring payload broadcast = true
    · simp only [hreceived, if_true, Bool.true_and, aetherRecvCb]
      by_cases htaken : (s.frame src payload broadcast).takenBy mesh (s.convs n) = true
      · rw [if_pos htaken, if_pos (by exact htaken)]
        rfl
      · rw [if_neg htaken, if_neg (by exact htaken)]
        rfl
    · simp only [hreceived, Bool.false_eq_true, if_false, Bool.false_and]
      rfl
  | clone =>
    simp only [Traffic.apply, Traffic.action, convAlloc]
    cases hfree : freeSlot s.convs with
    | none => rfl
    | some m =>
      simp only [Option.map_some, Option.elim_some, Option.some.injEq]
      exact update_act rfl
  | sessionOpen eui =>
    simp only [Traffic.apply, Traffic.action, convAlloc]
    cases hfree : freeSlot s.convs with
    | none => rfl
    | some m =>
      simp only [Option.map_some, Option.elim_some, Option.some.injEq, Function.update_idem]
      exact update_act (by rw [Function.update_self]; rfl)
  | ctl m cmd =>
    simp only [Traffic.apply, Traffic.action]
    cases hexec : ctlExec (s.convs m) cmd with
    | none =>
      by_cases hmn : m = n
      · subst hmn
        rw [if_pos rfl, Conv.act, hexec]
        rfl
      · rw [if_neg hmn]
        rfl
    | some c => exact update_act (by rw [Conv.act, hexec]; rfl)
  | clunk m | sessionClose m =>
    simp only [Traffic.apply, Traffic.action, convFree]
    by_cases hused : (s.convs m).inUse = true
    · rw [if_pos hused]
      exact update_act (by rw [Conv.act, if_pos hused])
    · rw [if_neg hused]
      by_cases hmn : m = n
      · subst hmn
        rw [if_pos rfl, Conv.act, if_neg hused]
      · rw [if_neg hmn]
        rfl
  | read m count => exact update_act rfl
  | sessionGet m => exact update_act rfl

def Conv.endings (c : Conv Reading) : Action → List (Reading × Ending)
  | .arrive d =>
      match (c.rxq.put rxqDepth d).1 with
      | .handed r => [(r, c.finishRead r.count d)]
      | _ => []
  | .ctl .hangup => c.rxq.purge.1.map fun r => (r, .purged)
  | .free => if c.inUse then c.rxq.purge.1.map fun r => (r, .purged) else []
  | .read r => (c.rxq.get r).1.toList.map fun d => (r, c.finishRead r.count d)
  | _ => []

def Conv.leaves (c : Conv Reading) : Action → List Dgram
  | .arrive d => (c.rxq.put rxqDepth d).1.item d
  | .read r => (c.rxq.get r).1.toList
  | .get => c.rxq.poll.1.toList
  | _ => []

def Conv.joins (c : Conv Reading) : Action → List Dgram
  | .arrive d => if c.full then [] else [d]
  | _ => []

def Ending.returned : Ending → Option Dgram
  | .datagram d _ => some d
  | _ => none

def Conv.returned (c : Conv Reading) : Action → List Dgram
  | .get => c.rxq.poll.1.toList.filter fun d => d.data ≠ []
  | action => (c.endings action).filterMap fun ending => ending.2.returned

def Conv.queued (c : Conv Reading) : List Dgram := c.rxq.items.filter fun d => d.data ≠ []

def Traffic.endings (maxMsg : Nat) (s : Traffic) (event : TrafficEvent) (n : Slot) : List (Reading × Ending) :=
  (s.convs n).endings (s.action maxMsg event n)

def Conv.hangsUp (c : Conv Reading) : Action → Bool
  | .ctl .hangup => true
  | .free => c.inUse
  | _ => false

theorem Traffic.action_fresh {maxMsg : Nat} {s : Traffic} {event : TrafficEvent} {n : Slot} {bound : Option Addr}
    (h : s.action maxMsg event n = .fresh bound) : (s.convs n).inUse = false := by
  cases event with
  | clone | sessionOpen =>
    simp only [Traffic.action] at h
    split at h
    · rename_i hfree
      exact freeSlot_notInUse hfree
    · cases h
  | _ =>
    simp only [Traffic.action] at h
    split at h <;> cases h

/-! ## The flow through a slot -/

theorem Conv.act_calm {c : Conv Reading} (h : c.rxq.Calm) (action : Action) : (c.act action).rxq.Calm := by
  cases action with
  | rest => exact h
  | arrive d => exact Mailbox.put_calm h
  | ctl cmd =>
    rw [Conv.act]
    cases hexec : ctlExec c cmd with
    | none => exact h
    | some c' =>
      obtain ⟨-, ⟨-, -, -, hrxq⟩ | ⟨-, -, hrxq⟩⟩ := ctlExec_cases hexec
      · rw [Option.getD_some, hrxq]
        exact h
      · rw [Option.getD_some, hrxq]
        exact .inl rfl
  | free =>
    rw [Conv.act]
    split
    · exact .inl rfl
    · exact h
  | read r => exact Mailbox.get_calm h
  | fresh bound => cases bound <;> exact .inl rfl
  | get => exact Mailbox.poll_calm h

theorem Conv.act_flow {c : Conv Reading} (h : c.rxq.Calm) {action : Action}
    (haction : (∃ d, action = .arrive d) ∨ (∃ r, action = .read r) ∨ action = .get) :
    c.leaves action ++ (c.act action).rxq.items = c.rxq.items ++ c.joins action := by
  rcases haction with ⟨d, rfl⟩ | ⟨r, rfl⟩ | rfl
  · simp only [Conv.leaves, Conv.act, Conv.joins, Mailbox.put_flow h, Conv.full, decide_eq_true_eq]
    split <;> split <;> first | rfl | omega
  · simp only [Conv.leaves, Conv.act, Conv.joins, Mailbox.get_flow, List.append_nil]
  · simp only [Conv.leaves, Conv.act, Conv.joins, Mailbox.poll_flow, List.append_nil]

theorem Conv.finishRead_returned {c : Conv Reading} {count : Nat} {d : Dgram}
    (h : (c.finishRead count d).fits = true) :
    (c.finishRead count d).returned = if d.data ≠ [] then some d else none := by
  unfold Conv.finishRead at h ⊢
  by_cases hdata : d.data = []
  · rw [if_pos hdata, if_neg (not_not_intro hdata)]
    rfl
  · rw [if_neg hdata] at h ⊢
    rw [if_pos hdata]
    by_cases hsmall : count < d.data.length + (if c.srcPrefixed then 6 else 0)
    · rw [if_pos hsmall] at h
      cases h
    · rw [if_neg hsmall]
      rfl

theorem filterMap_returned {c : Conv Reading} {r : Reading} {d : Dgram}
    (h : (c.finishRead r.count d).fits = true) :
    ([(r, c.finishRead r.count d)].filterMap fun ending => ending.2.returned) =
      [d].filter fun d => d.data ≠ [] := by
  rw [List.filterMap_cons, Conv.finishRead_returned h]
  by_cases hdata : d.data = []
  · rw [if_neg (not_not_intro hdata), List.filter_cons_of_neg (by simpa using hdata)]
    rfl
  · rw [if_pos hdata, List.filter_cons_of_pos (by simpa using hdata)]
    rfl

theorem Conv.returned_eq {c : Conv Reading} {action : Action}
    (h : ∀ ending ∈ c.endings action, ending.2.fits = true) :
    c.returned action = (c.leaves action).filter fun d => d.data ≠ [] := by
  cases action with
  | arrive d =>
    simp only [Conv.returned, Conv.endings, Conv.leaves] at h ⊢
    cases hput : (c.rxq.put rxqDepth d).1 with
    | handed r =>
      rw [hput] at h
      exact filterMap_returned (h _ (List.mem_singleton_self _))
    | queued | full => rfl
  | read r =>
    simp only [Conv.returned, Conv.endings, Conv.leaves] at h ⊢
    cases hget : (c.rxq.get r).1 with
    | none => rfl
    | some d =>
      rw [hget] at h
      exact filterMap_returned (h _ (List.mem_singleton_self _))
  | get => rfl
  | ctl cmd =>
    cases cmd with
    | hangup => simp [Conv.returned, Conv.endings, Conv.leaves, Ending.returned, List.filterMap_map]
    | _ => rfl
  | free =>
    simp only [Conv.returned, Conv.endings, Conv.leaves]
    split
    · simp [Ending.returned, List.filterMap_map]
    · rfl
  | rest | fresh => rfl

/-- What is queued or comes in, and is not empty, is queued or returned after
an action that does not clear the queue. -/
theorem Conv.act_keeps {c : Conv Reading} (hcalm : c.rxq.Calm) {action : Action}
    (hfits : ∀ ending ∈ c.endings action, ending.2.fits = true) (hhangs : c.hangsUp action = false)
    (hfresh : ∀ bound, action ≠ .fresh bound) {d : Dgram} (hdata : d.data ≠ [])
    (hd : d ∈ c.rxq.items ∨ d ∈ c.joins action) :
    d ∈ (c.act action).rxq.items ∨ d ∈ c.returned action := by
  have hflows : (∃ d, action = .arrive d) ∨ (∃ r, action = .read r) ∨ action = .get →
      d ∈ (c.act action).rxq.items ∨ d ∈ c.returned action := by
    intro haction
    have hmem := List.mem_append.mpr hd
    rw [← Conv.act_flow hcalm haction, List.mem_append] at hmem
    rcases hmem with hleft | hqueued
    · apply Or.inr
      rw [Conv.returned_eq hfits, List.mem_filter]
      exact ⟨hleft, by simpa using hdata⟩
    · exact .inl hqueued
  cases action with
  | arrive e => exact hflows (.inl ⟨e, rfl⟩)
  | read r => exact hflows (.inr (.inl ⟨r, rfl⟩))
  | get => exact hflows (.inr (.inr rfl))
  | rest => exact .inl (hd.resolve_right (nofun))
  | fresh bound => exact absurd rfl (hfresh bound)
  | free =>
    apply Or.inl
    rw [Conv.act, if_neg (by exact Bool.not_eq_true _ ▸ hhangs)]
    exact hd.resolve_right (nofun)
  | ctl cmd =>
    apply Or.inl
    have hqueued := hd.resolve_right (nofun)
    rw [Conv.act]
    cases hexec : ctlExec c cmd with
    | none => exact hqueued
    | some c' =>
      obtain ⟨-, ⟨-, -, -, hrxq⟩ | ⟨rfl, -, -⟩⟩ := ctlExec_cases hexec
      · rwa [Option.getD_some, hrxq]
      · cases hhangs

theorem Conv.act_items {c : Conv Reading} (hcalm : c.rxq.Calm) {action : Action} {d : Dgram}
    (hd : d ∈ (c.act action).rxq.items) :
    d ∈ c.rxq.items ∨ d ∈ c.joins action ∨ c.hangsUp action = true ∧ d = .eof := by
  have hflows : (∃ d, action = .arrive d) ∨ (∃ r, action = .read r) ∨ action = .get →
      d ∈ c.rxq.items ∨ d ∈ c.joins action := by
    intro haction
    rw [← List.mem_append, ← Conv.act_flow hcalm haction]
    exact List.mem_append_right _ hd
  cases action with
  | arrive e => exact (hflows (.inl ⟨e, rfl⟩)).imp_right .inl
  | read r => exact (hflows (.inr (.inl ⟨r, rfl⟩))).imp_right .inl
  | get => exact (hflows (.inr (.inr rfl))).imp_right .inl
  | rest => exact .inl hd
  | fresh bound => cases bound <;> cases hd
  | free =>
    rw [Conv.act] at hd
    split at hd
    · rename_i hused
      exact .inr (.inr ⟨hused, List.mem_singleton.mp hd⟩)
    · exact .inl hd
  | ctl cmd =>
    rw [Conv.act] at hd
    cases hexec : ctlExec c cmd with
    | none =>
      rw [hexec] at hd
      exact .inl hd
    | some c' =>
      rw [hexec, Option.getD_some] at hd
      obtain ⟨-, ⟨-, -, -, hrxq⟩ | ⟨rfl, -, hrxq⟩⟩ := ctlExec_cases hexec
      · rw [hrxq] at hd
        exact .inl hd
      · rw [hrxq] at hd
        exact .inr (.inr ⟨rfl, List.mem_singleton.mp hd⟩)

theorem Conv.finishRead_eof {c : Conv Reading} {count : Nat} {d : Dgram} (h : (c.finishRead count d).eof = true) :
    d.data = [] ∧ c.finishRead count d = .empty d := by
  unfold Conv.finishRead at h ⊢
  by_cases hdata : d.data = []
  · exact ⟨hdata, if_pos hdata⟩
  · rw [if_neg hdata] at h
    by_cases hsmall : count < d.data.length + (if c.srcPrefixed then 6 else 0)
    · rw [if_pos hsmall] at h
      cases h
    · rw [if_neg hsmall] at h
      cases h

/-- A read that returns 0 bytes was woken by a hangup, or got an item without
payload. -/
theorem Conv.eof_cause {c : Conv Reading} {action : Action} {ending : Reading × Ending}
    (hending : ending ∈ c.endings action) (heof : ending.2.eof = true) :
    c.hangsUp action = true ∧ ending.2 = .purged ∨
      ∃ d, d.data = [] ∧ ending.2 = .empty d ∧ (d ∈ c.rxq.items ∨ d ∈ c.joins action) := by
  cases action with
  | arrive d =>
    simp only [Conv.endings] at hending
    split at hending
    · rename_i r hput
      cases List.mem_singleton.mp hending
      obtain ⟨hdata, hempty⟩ := Conv.finishRead_eof heof
      have hroom := Mailbox.put_handed hput
      refine .inr ⟨d, hdata, hempty, .inr ?_⟩
      rw [Conv.joins, Conv.full, if_neg (by rw [decide_eq_true_eq]; omega)]
      exact List.mem_singleton_self d
    · cases hending
  | read r =>
    simp only [Conv.endings, List.mem_map, Option.mem_toList] at hending
    obtain ⟨d, hget, rfl⟩ := hending
    obtain ⟨hdata, hempty⟩ := Conv.finishRead_eof heof
    have hflow : (c.rxq.get r).1.toList ++ (c.rxq.get r).2.items = c.rxq.items := Mailbox.get_flow
    rw [hget] at hflow
    exact .inr ⟨d, hdata, hempty, .inl (hflow ▸ List.mem_cons_self)⟩
  | free =>
    simp only [Conv.endings] at hending
    split at hending
    · rename_i hused
      obtain ⟨r, -, rfl⟩ := List.mem_map.mp hending
      exact .inl ⟨hused, rfl⟩
    · cases hending
  | ctl cmd =>
    cases cmd with
    | hangup =>
      obtain ⟨r, -, rfl⟩ := List.mem_map.mp hending
      exact .inl ⟨rfl, rfl⟩
    | _ => cases hending
  | _ => cases hending

end DectMesh.Aether
