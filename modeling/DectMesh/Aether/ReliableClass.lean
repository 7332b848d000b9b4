import DectMesh.Aether.Traffic

/-! The reliable class: a unicast datagram that the gate lets in is
acknowledged to its sender, so it is owed to the conversations that match it.
The gate looks at the request ring only, the queues are bounded on their own. -/
namespace DectMesh.Aether

open DectMesh.Lib DectMesh.Mesh9p

/-- A unicast datagram that is acknowledged and is not a request of the mesh 9P
server. -/
def acked (maxMsg ring : Nat) (payload : List UInt8) (broadcast : Bool) : Bool :=
  !broadcast && !looksLike9pT maxMsg payload && mesh9pAckGate maxMsg ring payload

/-- History of a slot since it was last hung up or freed: the acknowledged
datagrams that matched it on arrival, and those that its reads returned. -/
structure Debt where
  owed : List Dgram
  returned : List Dgram

abbrev Debts := Slot → Debt

def Debts.none : Debts := fun _ => ⟨[], []⟩

def Traffic.owes (maxMsg : Nat) (s : Traffic) (event : TrafficEvent) (n : Slot) : List Dgram :=
  match event with
  | .recv mesh ring src payload broadcast =>
      if acked maxMsg ring payload broadcast && (s.frame src payload broadcast).takenBy mesh (s.convs n)
      then [(s.frame src payload broadcast).dgram maxMsg mesh] else []
  | _ => []

def Debts.note (maxMsg : Nat) (s : Traffic) (event : TrafficEvent) (h : Debts) : Debts := fun n =>
  if (s.convs n).hangsUp (s.action maxMsg event n) then ⟨[], []⟩
  else
    { owed := (h n).owed ++ s.owes maxMsg event n
      returned := (h n).returned ++ (s.convs n).returned (s.action maxMsg event n) }

/-- No acknowledged datagram is lost: it is queued still, or was returned. -/
def Honoured (c : Conv Reading) (debt : Debt) : Prop :=
  ∀ d ∈ debt.owed, d ∈ c.rxq.items ∨ d ∈ debt.returned

/-- What is owed has a payload and finds room, and the reads have room for what
they get. -/
def Unpressed (maxMsg : Nat) (s : Traffic) (event : TrafficEvent) : Prop :=
  (∀ n, ∀ d ∈ s.owes maxMsg event n, d.data ≠ [] ∧ (s.convs n).full = false) ∧
  ∀ n, ∀ ending ∈ s.endings maxMsg event n, ending.2.fits = true

instance (maxMsg : Nat) (s : Traffic) (event : TrafficEvent) : Decidable (Unpressed maxMsg s event) :=
  inferInstanceAs (Decidable (_ ∧ _))

/-! ## The invariant -/

variable {maxMsg : Nat}

structure Serviced (c : Conv Reading) (debt : Debt) : Prop where
  honoured : Honoured c debt
  payload : ∀ d ∈ debt.owed, d.data ≠ []
  calm : c.rxq.Calm
  unused : c.inUse = false → debt.owed = []

theorem acked_received {ring : Nat} {payload : List UInt8} {broadcast : Bool}
    (h : acked maxMsg ring payload broadcast = true) : received maxMsg ring payload broadcast = true := by
  simp only [acked, Bool.and_eq_true] at h
  rw [received, h.2, Bool.or_true]

theorem Traffic.owes_joins {s : Traffic} {event : TrafficEvent} {n : Slot} {d : Dgram}
    (h : d ∈ s.owes maxMsg event n) (hfull : (s.convs n).full = false) :
    d ∈ (s.convs n).joins (s.action maxMsg event n) := by
  cases event with
  | recv mesh ring src payload broadcast =>
    simp only [Traffic.owes] at h
    split at h
    · rename_i howes
      rw [Bool.and_eq_true] at howes
      simp only [Traffic.action, acked_received howes.1, howes.2, Bool.true_and, if_true, Conv.joins, hfull,
        Bool.false_eq_true, if_false]
      exact h
    · cases h
  | _ => cases h

theorem Traffic.owes_inUse {s : Traffic} {event : TrafficEvent} {n : Slot} (hused : (s.convs n).inUse = false) :
    s.owes maxMsg event n = [] := by
  cases event with
  | recv mesh ring src payload broadcast =>
    simp only [Traffic.owes, Frame.takenBy, Conv.takes, hused, Bool.false_and, Bool.and_false, Bool.false_eq_true,
      if_false]
  | _ => rfl

theorem Conv.act_inUse {c : Conv Reading} {action : Action} (hhangs : c.hangsUp action = false)
    (hfresh : ∀ bound, action ≠ .fresh bound) : (c.act action).inUse = c.inUse := by
  cases action with
  | ctl cmd =>
    rw [Conv.act]
    cases hexec : ctlExec c cmd with
    | none => rfl
    | some c' => exact (ctlExec_cases hexec).1
  | free =>
    rw [Conv.act, if_neg (by exact Bool.not_eq_true _ ▸ hhangs)]
  | fresh bound => exact absurd rfl (hfresh bound)
  | _ => rfl

def AllServiced (s : Traffic) (h : Debts) : Prop := ∀ n, Serviced (s.convs n) (h n)

theorem serviced_step (s : Traffic) (h : Debts) (event : TrafficEvent) (s' : Traffic) (hserviced : AllServiced s h)
    (hunpressed : Unpressed maxMsg s event) (hstep : s.step maxMsg event = some s') :
    AllServiced s' (Debts.note maxMsg s event h) := by
  cases Option.some.inj hstep
  intro n
  obtain ⟨hhonoured, hpayload, hcalm, hunused⟩ := hserviced n
  rw [Traffic.apply_convs]
  have hcalm' := Conv.act_calm hcalm (s.action maxMsg event n)
  cases hhangs : (s.convs n).hangsUp (s.action maxMsg event n) with
  | true =>
    simp only [Debts.note, hhangs, if_true]
    exact ⟨nofun, nofun, hcalm', fun _ => rfl⟩
  | false =>
    simp only [Debts.note, hhangs, Bool.false_eq_true, if_false]
    by_cases hfresh : ∃ bound, s.action maxMsg event n = .fresh bound
    · -- nothing is owed to a slot that is being allocated
      obtain ⟨bound, hbound⟩ := hfresh
      have hfree := Traffic.action_fresh hbound
      rw [hunused hfree, Traffic.owes_inUse hfree]
      exact ⟨nofun, nofun, hcalm', fun _ => rfl⟩
    · have hnotFresh : ∀ bound, s.action maxMsg event n ≠ .fresh bound := fun bound heq => hfresh ⟨bound, heq⟩
      have howed : ∀ d ∈ (h n).owed ++ s.owes maxMsg event n, d.data ≠ [] := by
        intro d hd
        rcases List.mem_append.mp hd with hold | hnew
        · exact hpayload d hold
        · exact (hunpressed.1 n d hnew).1
      refine ⟨fun d hd => ?_, howed, hcalm', fun hfree => ?_⟩
      · have hkeeps := Conv.act_keeps hcalm (hunpressed.2 n) hhangs hnotFresh (howed d hd)
        rw [List.mem_append]
        rcases List.mem_append.mp hd with hold | hnew
        · rcases hhonoured d hold with hqueued | hreturned
          · rcases hkeeps (.inl hqueued) with hstill | hgone
            · exact .inl hstill
            · exact .inr (.inr hgone)
          · exact .inr (.inl hreturned)
        · rcases hkeeps (.inr (Traffic.owes_joins hnew (hunpressed.1 n d hnew).2)) with hstill | hgone
          · exact .inl hstill
          · exact .inr (.inr hgone)
      · rw [Conv.act_inUse hhangs hnotFresh] at hfree
        rw [hunused hfree, Traffic.owes_inUse hfree]
        rfl

theorem serviced_init : AllServiced .init .none := fun _ => ⟨nofun, nofun, Mailbox.calm_empty, fun _ => rfl⟩

/-- While no queue overflows, no acknowledged datagram is lost: it stays queued
until a read returns it or the conversation is hung up. -/
theorem acked_datagrams_kept {events : List TrafficEvent} {s : Traffic} {h : Debts}
    (hunpressed : Along (Traffic.step maxMsg) (Unpressed maxMsg) .init events)
    (hrun : run (recording (Traffic.step maxMsg) (Debts.note maxMsg)) (.init, .none) events = some (s, h))
    (n : Slot) : Honoured (s.convs n) (h n) :=
  (recording_invariant serviced_step serviced_init hunpressed hrun n).honoured

def sampleService : List TrafficEvent :=
  announcing ++ [.recv ⟨fun _ => none, fun _ => none⟩ 0 .zero [7] false, .read Slot.first 64]

theorem acked_datagram_returned : ∃ s h,
    run (recording (Traffic.step 512) (Debts.note 512)) (.init, .none) sampleService = some (s, h) ∧
      (h 0).owed.map Dgram.data = [[7]] ∧ Honoured (s.convs 0) (h 0) := by
  have howed : (run (recording (Traffic.step 512) (Debts.note 512)) (.init, .none) sampleService).map
      (fun final => (final.2 0).owed.map Dgram.data) = some [[7]] := by decide +kernel
  obtain ⟨⟨s, h⟩, hrun, hlist⟩ := Option.map_eq_some_iff.mp howed
  exact ⟨s, h, hrun, hlist, acked_datagrams_kept (by decide +kernel) hrun 0⟩

def unreadTraffic : List TrafficEvent :=
  announcing ++ List.replicate 17 (.recv ⟨fun _ => none, fun _ => none⟩ 0 .zero [7] false)

theorem acked_datagram_lost : ¬ ∀ (events : List TrafficEvent) (s : Traffic) (h : Debts) (n : Slot),
    run (recording (Traffic.step 512) (Debts.note 512)) (.init, .none) events = some (s, h) →
      Honoured (s.convs n) (h n) := by
  intro hclaim
  have hcounts : (run (recording (Traffic.step 512) (Debts.note 512)) (.init, .none) unreadTraffic).map
      (fun final => decide (∀ d ∈ (final.2 0).owed, d ∈ (final.1.convs 0).rxq.items ∨ d ∈ (final.2 0).returned)) =
      some false := by decide +kernel
  obtain ⟨⟨s, h⟩, hrun, hlost⟩ := Option.map_eq_some_iff.mp hcounts
  exact of_decide_eq_false hlost (hclaim _ s h 0 hrun)

end DectMesh.Aether
