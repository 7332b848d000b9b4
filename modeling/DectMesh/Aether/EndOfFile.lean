import DectMesh.Aether.Traffic

/-! End of file on a data file: a read returns 0 bytes for a hangup. The
sentinel that says so is an item without payload, as an empty datagram is, and
waits in the queue as a datagram does. -/
namespace DectMesh.Aether

open DectMesh.Lib

/-- History of the conversation in a slot: the events that last bound it and
last hung it up or tore it down, 0 for none. -/
structure Marks where
  bound : Nat
  hungup : Nat

def Marks.none : Slot → Marks := fun _ => ⟨0, 0⟩

def Conv.binds (c : Conv Reading) : Action → Bool
  | .ctl .hangup => false
  | .ctl cmd => (ctlExec c cmd).isSome
  | _ => false

def Marks.after (now : Nat) (c : Conv Reading) (m : Marks) : Action → Marks
  | .fresh bound => ⟨if bound.isSome then now else 0, 0⟩
  | action =>
      if c.hangsUp action then { m with hungup := now }
      else if c.binds action then { m with bound := now }
      else m

def Marks.note (maxMsg : Nat) (s : Traffic) (event : TrafficEvent) (h : Slot → Marks) : Slot → Marks :=
  fun n => (h n).after s.now (s.convs n) (s.action maxMsg event n)

/-- The end of file comes from a hangup: by its purge or its sentinel, and no
bind has come after it. -/
def FromHangup (m : Marks) (ending : Ending) : Prop :=
  (ending = .purged ∨ ending = .empty .eof) ∧ m.bound < m.hungup

def EofIsHangup (maxMsg : Nat) (s : Traffic × (Slot → Marks)) (event : TrafficEvent) : Prop :=
  ∀ n, ∀ ending ∈ s.1.endings maxMsg event n, ending.2.eof = true →
    FromHangup (Marks.note maxMsg s.1 event s.2 n) ending.2

/-- No empty datagram comes in, and a conversation is bound while nothing in its
queue reads as the end of file. -/
def Unmistakable (maxMsg : Nat) (s : Traffic) (event : TrafficEvent) : Prop :=
  (∀ n, ∀ d ∈ (s.convs n).joins (s.action maxMsg event n), d.data ≠ []) ∧
  ∀ n, (s.convs n).binds (s.action maxMsg event n) = true → ∀ d ∈ (s.convs n).rxq.items, d.data ≠ []

instance (maxMsg : Nat) (s : Traffic) (event : TrafficEvent) : Decidable (Unmistakable maxMsg s event) :=
  inferInstanceAs (Decidable (_ ∧ _))

instance (m : Marks) (ending : Ending) : Decidable (FromHangup m ending) :=
  inferInstanceAs (Decidable (_ ∧ _))

instance (maxMsg : Nat) (s : Traffic × (Slot → Marks)) (event : TrafficEvent) : Decidable (EofIsHangup maxMsg s event) :=
  inferInstanceAs (Decidable (∀ n, ∀ ending ∈ s.1.endings maxMsg event n, ending.2.eof = true →
    FromHangup (Marks.note maxMsg s.1 event s.2 n) ending.2))

/-! ## The invariant -/

variable {maxMsg : Nat}

/-- An item without payload is the sentinel of a hangup behind the last bind. -/
structure Marked (now : Nat) (c : Conv Reading) (m : Marks) : Prop where
  calm : c.rxq.Calm
  past : m.bound < now ∧ m.hungup < now
  sentinel : ∀ d ∈ c.rxq.items, d.data = [] → d = .eof ∧ m.bound < m.hungup

theorem Marks.after_hangsUp {now : Nat} {c : Conv Reading} {m : Marks} {action : Action}
    (h : c.hangsUp action = true) : m.after now c action = { m with hungup := now } := by
  unfold Marks.after
  split
  · cases h
  · rw [if_pos h]

theorem Marks.after_stays {now : Nat} {c : Conv Reading} {m : Marks} {action : Action}
    (hhangs : c.hangsUp action = false) (hbinds : c.binds action = false)
    (hfresh : ∀ bound, action ≠ .fresh bound) : m.after now c action = m := by
  unfold Marks.after
  split
  · rename_i bound
    exact absurd rfl (hfresh bound)
  · rw [if_neg (by rw [hhangs]; nofun), if_neg (by rw [hbinds]; nofun)]

theorem Marks.after_binds {now : Nat} {c : Conv Reading} {m : Marks} {action : Action}
    (hhangs : c.hangsUp action = false) (hbinds : c.binds action = true) :
    m.after now c action = { m with bound := now } := by
  unfold Marks.after
  split
  · cases hbinds
  · rw [if_neg (by rw [hhangs]; nofun), if_pos hbinds]

theorem marked_act {now : Nat} {c : Conv Reading} {m : Marks} (hmarked : Marked now c m) {action : Action}
    (hjoins : ∀ d ∈ c.joins action, d.data ≠ [])
    (hbinds : c.binds action = true → ∀ d ∈ c.rxq.items, d.data ≠ []) :
    Marked (now + 1) (c.act action) (m.after now c action) := by
  obtain ⟨hcalm, ⟨hbound, hhungup⟩, hsentinel⟩ := hmarked
  have hcalm' := Conv.act_calm hcalm action
  by_cases hfresh : ∃ bound, action = .fresh bound
  · obtain ⟨bound, rfl⟩ := hfresh
    refine ⟨hcalm', ⟨?_, Nat.succ_pos now⟩, fun d hd => ?_⟩
    · simp only [Marks.after]
      split <;> omega
    · cases bound <;> cases hd
  cases hhangs : c.hangsUp action with
  | true =>
    rw [Marks.after_hangsUp hhangs]
    refine ⟨hcalm', ⟨Nat.lt_succ_of_lt hbound, Nat.lt_succ_self now⟩, fun d hd hempty => ?_⟩
    rcases Conv.act_items hcalm hd with hold | hnew | ⟨-, heof⟩
    · exact ⟨(hsentinel d hold hempty).1, hbound⟩
    · exact absurd hempty (hjoins d hnew)
    · exact ⟨heof, hbound⟩
  | false =>
    have hitems : ∀ d ∈ (c.act action).rxq.items, d.data = [] → d ∈ c.rxq.items := by
      intro d hd hempty
      rcases Conv.act_items hcalm hd with hold | hnew | ⟨htrue, -⟩
      · exact hold
      · exact absurd hempty (hjoins d hnew)
      · rw [hhangs] at htrue
        cases htrue
    cases hbind : c.binds action with
    | true =>
      rw [Marks.after_binds hhangs hbind]
      refine ⟨hcalm', ⟨Nat.lt_succ_self now, Nat.lt_succ_of_lt hhungup⟩, fun d hd hempty => ?_⟩
      exact absurd hempty (hbinds hbind d (hitems d hd hempty))
    | false =>
      rw [Marks.after_stays hhangs hbind fun bound heq => hfresh ⟨bound, heq⟩]
      refine ⟨hcalm', ⟨Nat.lt_succ_of_lt hbound, Nat.lt_succ_of_lt hhungup⟩, fun d hd hempty => ?_⟩
      exact hsentinel d (hitems d hd hempty) hempty

theorem Conv.endings_binds {c : Conv Reading} {action : Action} {ending : Reading × Ending}
    (h : ending ∈ c.endings action) : c.binds action = false := by
  cases action with
  | ctl cmd =>
    cases cmd with
    | hangup => rfl
    | _ => cases h
  | _ => rfl

theorem eof_from_hangup {now : Nat} {c : Conv Reading} {m : Marks} (hmarked : Marked now c m) {action : Action}
    (hjoins : ∀ d ∈ c.joins action, d.data ≠ []) {ending : Reading × Ending} (hending : ending ∈ c.endings action)
    (heof : ending.2.eof = true) : FromHangup (m.after now c action) ending.2 := by
  rcases Conv.eof_cause hending heof with ⟨hhangs, hpurged⟩ | ⟨d, hempty, htaken, hd⟩
  · rw [Marks.after_hangsUp hhangs]
    exact ⟨.inl hpurged, hmarked.past.1⟩
  · have hqueued := hd.resolve_right fun hnew => hjoins d hnew hempty
    obtain ⟨rfl, hlater⟩ := hmarked.sentinel d hqueued hempty
    refine ⟨.inr htaken, ?_⟩
    cases hhangs : c.hangsUp action with
    | true =>
      rw [Marks.after_hangsUp hhangs]
      exact hmarked.past.1
    | false =>
      rw [Marks.after_stays hhangs (Conv.endings_binds hending)]
      · exact hlater
      · rintro bound rfl
        cases hending

def AllMarked (s : Traffic) (h : Slot → Marks) : Prop := ∀ n, Marked s.now (s.convs n) (h n)

theorem marked_init : AllMarked .init Marks.none :=
  fun _ => ⟨Mailbox.calm_empty, ⟨Nat.zero_lt_one, Nat.zero_lt_one⟩, nofun⟩

theorem marked_step (s : Traffic) (h : Slot → Marks) (event : TrafficEvent) (s' : Traffic) (hmarked : AllMarked s h)
    (hgood : Unmistakable maxMsg s event) (hstep : s.step maxMsg event = some s') :
    AllMarked s' (Marks.note maxMsg s event h) := by
  cases Option.some.inj hstep
  intro n
  rw [Traffic.apply_convs]
  exact marked_act (hmarked n) (hgood.1 n) (hgood.2 n)

/-- While no empty datagram comes in and no bind finds an unread sentinel, every
read that returns 0 bytes was ended by a hangup or teardown since the last
bind. -/
theorem eof_means_hangup {events : List TrafficEvent}
    (hgood : Along (Traffic.step maxMsg) (Unmistakable maxMsg) .init events) :
    Along (recording (Traffic.step maxMsg) (Marks.note maxMsg)) (EofIsHangup maxMsg) (.init, Marks.none) events :=
  recording_along marked_step
    (fun _ _ _ hmarked hgood n _ hending heof => eof_from_hangup (hmarked n) (hgood.1 n) hending heof)
    marked_init (along_recording hgood Marks.none)

/-- A hangup whose sentinel is read before the next announce. -/
theorem eof_of_read_hangup :
    Along (recording (Traffic.step 512) (Marks.note 512)) (EofIsHangup 512) (.init, Marks.none)
      [.clone, .ctl 0 .announce, .ctl 0 .hangup, .read 0 64, .ctl 0 .announce, .read 0 64] :=
  eof_means_hangup (by decide +kernel)

/-- The sentinel of a hangup that nobody read ends a read of the next
conversation. -/
example : ¬ Along (recording (Traffic.step 512) (Marks.note 512)) (EofIsHangup 512) (.init, Marks.none)
    [.clone, .ctl 0 .announce, .ctl 0 .hangup, .ctl 0 .announce, .read 0 64] := by
  decide +kernel

def Written (maxMsg : Nat) (payload : List UInt8) : Prop :=
  ∃ (c : Conv Unit) (mesh : Bindings) (buf : List UInt8) (dst : Addr),
    anetWriteData maxMsg mesh c buf = .ok (.reliable dst payload)

/-- A connected peer writes 0 bytes, and a reader here is told of a hangup. -/
theorem eof_without_hangup : Written 512 [] ∧
    ¬ ∀ events : List TrafficEvent,
      (∀ mesh ring src payload broadcast, .recv mesh ring src payload broadcast ∈ events → Written 512 payload) →
      Along (recording (Traffic.step 512) (Marks.note 512)) (EofIsHangup 512) (.init, Marks.none) events := by
  have hwritten : Written 512 [] :=
    ⟨{ Conv.fresh with state := .connected }, ⟨fun _ => none, fun _ => none⟩, [], .zero, rfl⟩
  refine ⟨hwritten, fun hclaim => ?_⟩
  have heof := hclaim
    [.clone, .ctl 0 .announce, .recv ⟨fun _ => none, fun _ => none⟩ 0 .zero [] false, .read 0 64] ?_
  · revert heof
    decide +kernel
  · intro mesh ring src payload broadcast hmem
    simp only [List.mem_cons, reduceCtorEq, List.not_mem_nil, or_false, false_or, TrafficEvent.recv.injEq] at hmem
    rw [hmem.2.2.2.1]
    exact hwritten

end DectMesh.Aether
