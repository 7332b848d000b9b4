import DectMesh.Aether.Traffic

/-! A data read up close: `k_msgq_get` takes a datagram off the queue, and only
then does `anet_read` look at the room and at the state of the conversation.
What fails in between is lost, and what changes in between changes the frame. -/
namespace DectMesh.Aether

open DectMesh.Lib

def Conv.needs (c : Conv Reading) (d : Dgram) : Nat := d.data.length + if c.srcPrefixed then 6 else 0

/-- The data reads that an action serves, each with what it takes. -/
def Conv.serves (c : Conv Reading) : Action → List (Reading × Dgram)
  | .arrive d =>
      match (c.rxq.put rxqDepth d).1 with
      | .handed r => [(r, d)]
      | _ => []
  | .read r => (c.rxq.get r).1.toList.map fun d => (r, d)
  | _ => []

/-- A read that ends in an error leaves the queue as it was, with what came in
meanwhile, and a following read with the room returns the datagram. -/
def Conv.FailureKeeps (c : Conv Reading) (action : Action) : Prop :=
  ∀ r d, (r, .tooSmall d) ∈ c.endings action →
    (c.act action).rxq.items = c.rxq.items ++ c.joins action ∧
      ∀ again : Reading, c.needs d ≤ again.count →
        ∃ bytes, (again, .datagram d bytes) ∈ (c.act action).endings (.read again)

/-- The count of the read, or of the read that has waited longest for the
datagram that arrives, is enough for what it takes. -/
def Conv.Roomy (c : Conv Reading) : Action → Prop
  | .arrive d =>
      c.rxq.items.length < rxqDepth → ∀ r ∈ c.rxq.parked.head?, d.data ≠ [] → c.needs d ≤ r.count
  | .read r => ∀ d ∈ c.rxq.items.head?, d.data ≠ [] → c.needs d ≤ r.count
  | _ => True

section

variable {c : Conv Reading} {r : Reading} {d e : Dgram} {action : Action}

theorem Conv.serves_arrive :
    (r, d) ∈ c.serves (.arrive e) ↔
      c.rxq.items.length < rxqDepth ∧ c.rxq.parked.head? = some r ∧ d = e := by
  simp only [Conv.serves, Mailbox.put]
  by_cases hroom : c.rxq.items.length < rxqDepth
  · cases hparked : c.rxq.parked with
    | nil => simp [hroom]
    | cons first later => simp [hroom, eq_comm]
  · simp [hroom]

theorem Conv.serves_read {s : Reading} :
    (r, d) ∈ c.serves (.read s) ↔ r = s ∧ c.rxq.items.head? = some d := by
  simp only [Conv.serves, Mailbox.get]
  cases hitems : c.rxq.items with
  | nil => simp
  | cons first rest => simp [eq_comm]

theorem Conv.finishRead_tooSmall {count : Nat} :
    c.finishRead count e = .tooSmall d ↔ e = d ∧ d.data ≠ [] ∧ count < c.needs d := by
  unfold Conv.finishRead
  by_cases hdata : e.data = []
  · rw [if_pos hdata]
    constructor
    · exact nofun
    · rintro ⟨rfl, hsome, -⟩
      exact absurd hdata hsome
  · rw [if_neg hdata]
    by_cases hsmall : count < e.data.length + (if c.srcPrefixed then 6 else 0)
    · rw [if_pos hsmall, Ending.tooSmall.injEq]
      constructor
      · rintro rfl
        exact ⟨rfl, hdata, hsmall⟩
      · exact And.left
    · rw [if_neg hsmall]
      constructor
      · exact nofun
      · rintro ⟨rfl, -, hcount⟩
        exact absurd hcount hsmall

theorem Conv.finishRead_fits {count : Nat} (hdata : d.data ≠ []) (hroom : c.needs d ≤ count) :
    c.finishRead count d = .datagram d ((if c.srcPrefixed then d.src.bytes else []) ++ d.data) := by
  have hsmall : ¬ count < d.data.length + (if c.srcPrefixed then 6 else 0) := Nat.not_lt.mpr hroom
  rw [Conv.finishRead, if_neg hdata, if_neg hsmall]

theorem Conv.endings_served (h : (r, d) ∈ c.serves action) :
    (r, c.finishRead r.count d) ∈ c.endings action := by
  cases action with
  | arrive e =>
    simp only [Conv.serves, Conv.endings] at h ⊢
    cases hput : (c.rxq.put rxqDepth e).1 with
    | handed s =>
      rw [hput] at h
      cases List.mem_singleton.mp h
      exact List.mem_singleton_self _
    | queued | full =>
      rw [hput] at h
      cases h
  | read s =>
    obtain ⟨d', hd', heq⟩ := List.mem_map.mp h
    cases heq
    exact List.mem_map.mpr ⟨d, hd', rfl⟩
  | rest | ctl | free | fresh | get => cases h

theorem Conv.endings_cases {ending : Reading × Ending} (h : ending ∈ c.endings action) :
    ending.2 = .purged ∨ ∃ d, (ending.1, d) ∈ c.serves action ∧ ending.2 = c.finishRead ending.1.count d := by
  cases action with
  | arrive e =>
    simp only [Conv.serves, Conv.endings] at h ⊢
    cases hput : (c.rxq.put rxqDepth e).1 with
    | handed s =>
      rw [hput] at h
      cases List.mem_singleton.mp h
      exact .inr ⟨e, List.mem_singleton_self _, rfl⟩
    | queued | full =>
      rw [hput] at h
      cases h
  | read s =>
    obtain ⟨d, hd, rfl⟩ := List.mem_map.mp h
    exact .inr ⟨d, List.mem_map.mpr ⟨d, hd, rfl⟩, rfl⟩
  | free =>
    simp only [Conv.endings] at h
    split at h
    · obtain ⟨s, -, rfl⟩ := List.mem_map.mp h
      exact .inl rfl
    · cases h
  | ctl cmd =>
    cases cmd with
    | hangup =>
      obtain ⟨s, -, rfl⟩ := List.mem_map.mp h
      exact .inl rfl
    | _ => cases h
  | rest | fresh | get => cases h

theorem Conv.tooSmall_served :
    (r, .tooSmall d) ∈ c.endings action ↔ (r, d) ∈ c.serves action ∧ d.data ≠ [] ∧ r.count < c.needs d := by
  constructor
  · intro h
    rcases Conv.endings_cases h with hpurged | ⟨e, hserved, hending⟩
    · cases hpurged
    · obtain ⟨rfl, hdata, hcount⟩ := Conv.finishRead_tooSmall.mp hending.symm
      exact ⟨hserved, hdata, hcount⟩
  · rintro ⟨hserved, hdata, hcount⟩
    rw [← Conv.finishRead_tooSmall.mpr ⟨rfl, hdata, hcount⟩]
    exact Conv.endings_served hserved

theorem Conv.serves_takes (h : (r, d) ∈ c.serves action) :
    (c.act action).rxq.items.length + 1 = (c.rxq.items ++ c.joins action).length := by
  cases action with
  | arrive e =>
    obtain ⟨hroom, hparked, rfl⟩ := Conv.serves_arrive.mp h
    rw [Conv.joins, Conv.full, if_neg (by simpa using hroom), List.length_append]
    simp only [Conv.act, Mailbox.put, if_pos hroom]
    cases hreaders : c.rxq.parked with
    | nil =>
      rw [hreaders] at hparked
      cases hparked
    | cons first later => rfl
  | read s =>
    obtain ⟨-, hhead⟩ := Conv.serves_read.mp h
    simp only [Conv.joins, List.append_nil, Conv.act, Mailbox.get]
    cases hitems : c.rxq.items with
    | nil =>
      rw [hitems] at hhead
      cases hhead
    | cons first rest => rfl
  | rest | ctl | free | fresh | get => cases h

theorem Conv.roomy_iff :
    c.Roomy action ↔ ∀ r d, (r, d) ∈ c.serves action → d.data ≠ [] → c.needs d ≤ r.count := by
  cases action with
  | arrive e =>
    simp only [Conv.Roomy, Conv.serves_arrive]
    constructor
    · rintro h r d ⟨hroom, hparked, rfl⟩ hdata
      exact h hroom r hparked hdata
    · exact fun h hroom r hparked hdata => h r e ⟨hroom, hparked, rfl⟩ hdata
  | read s =>
    simp only [Conv.Roomy, Conv.serves_read]
    constructor
    · rintro h r d ⟨rfl, hhead⟩ hdata
      exact h d hhead hdata
    · exact fun h d hhead hdata => h s d ⟨rfl, hhead⟩ hdata
  | rest | ctl | free | fresh | get => exact iff_of_true trivial nofun

/-- A data read that fails consumes nothing exactly where no data read fails:
the datagram is gone before the room is looked at. -/
theorem failed_read_keeps_iff (c : Conv Reading) (action : Action) : c.FailureKeeps action ↔ c.Roomy action := by
  rw [Conv.roomy_iff]
  constructor
  · intro hkeeps r d hserved hdata
    by_contra hsmall
    have hfails := Conv.tooSmall_served.mpr ⟨hserved, hdata, Nat.lt_of_not_le hsmall⟩
    have htakes := Conv.serves_takes hserved
    rw [(hkeeps r d hfails).1] at htakes
    omega
  · intro hroomy r d hfails
    obtain ⟨hserved, hdata, hsmall⟩ := Conv.tooSmall_served.mp hfails
    exact absurd (hroomy r d hserved hdata) (Nat.not_le.mpr hsmall)

/-- One queued byte, and a read that misses its frame by one. -/
theorem failed_read_loses : ¬ ∀ (c : Conv Reading) (action : Action), c.FailureKeeps action := by
  intro hclaim
  have hkeeps := hclaim ⟨true, .announced, .zero, [⟨.zero, [1], by decide, 1⟩], []⟩ (.read ⟨2, 6⟩)
  have hitems := (hkeeps ⟨2, 6⟩ ⟨.zero, [1], by decide, 1⟩ (by decide)).1
  revert hitems
  decide

end

/-! ## The two steps of a read -/

/-- A read that has its datagram and has not looked at the conversation yet.
`state` is history: that of the conversation when the datagram was taken. -/
structure Taken where
  slot : Slot
  reading : Reading
  dgram : Dgram
  state : ConvState

structure Returned where
  slot : Slot
  dgram : Dgram
  bytes : List UInt8

/-- The node and its reads. `accepted` is history: the states in which a
reception found the conversations. -/
structure Readers where
  node : Traffic
  taken : List Taken
  accepted : Nat → Slot → ConvState
  returned : List Returned

def Readers.init : Readers := ⟨.init, [], fun _ _ => .unconnected, []⟩

inductive ReadEvent where
  | node (event : TrafficEvent)
  | finish (i : Nat)

def takenIn (maxMsg : Nat) (s : Traffic) (event : TrafficEvent) (n : Slot) : List Taken :=
  ((s.convs n).serves (s.action maxMsg event n)).map fun (r, d) => ⟨n, r, d, (s.convs n).state⟩

def Taken.finish (convs : Convs Reading) (t : Taken) : List Returned :=
  match (convs t.slot).finishRead t.reading.count t.dgram with
  | .datagram d bytes => [⟨t.slot, d, bytes⟩]
  | _ => []

def Readers.step (maxMsg : Nat) (s : Readers) : ReadEvent → Option Readers
  | .node event =>
      (s.node.step maxMsg event).map fun next =>
        { s with
          node := next
          taken := s.taken ++ (List.finRange maxConns).flatMap (takenIn maxMsg s.node event)
          accepted := Function.update s.accepted s.node.now fun n => (s.node.convs n).state }
  | .finish i =>
      (s.taken[i]?).map fun t =>
        { s with taken := s.taken.eraseIdx i, returned := s.returned ++ t.finish s.node.convs }

def ConvState.srcPrefixed (state : ConvState) : Bool := state = .announced || state = .bcast

def framed (state : ConvState) (d : Dgram) : List UInt8 :=
  (if state.srcPrefixed then d.src.bytes else []) ++ d.data

/-- Every datagram was returned in the frame of the state that accepted it. -/
def Readers.Contract (s : Readers) : Prop :=
  ∀ f ∈ s.returned, f.bytes = framed (s.accepted f.dgram.id f.slot) f.dgram

/-- A read that returns a datagram finds the conversation prefixing sources as
when it took the datagram, or not prefixing them as then. -/
def Steady (s : Readers) : ReadEvent → Prop
  | .node _ => True
  | .finish i =>
      ∀ t ∈ s.taken[i]?, t.dgram.data ≠ [] → (s.node.convs t.slot).needs t.dgram ≤ t.reading.count →
        (s.node.convs t.slot).state.srcPrefixed = t.state.srcPrefixed

/-! ## The frame of acceptance -/

def Readers.Accepted (s : Readers) (n : Slot) (d : Dgram) (state : ConvState) : Prop :=
  d.data ≠ [] → d.id < s.node.now ∧ s.accepted d.id n = state ∧ state ≠ .unconnected

structure Readers.Inv (s : Readers) : Prop where
  calm : ∀ n, (s.node.convs n).rxq.Calm
  queued : ∀ n, ∀ d ∈ (s.node.convs n).rxq.items, s.Accepted n d (s.node.convs n).state
  taken : ∀ t ∈ s.taken, s.Accepted t.slot t.dgram t.state
  returned : ∀ f ∈ s.returned, f.dgram.id < s.node.now
  contract : s.Contract

section

variable {maxMsg : Nat} {s s' : Readers} {n : Slot} {d : Dgram} {state : ConvState}

theorem Readers.inv_init : Readers.init.Inv where
  calm _ := Mailbox.calm_empty
  queued := nofun
  taken := nofun
  returned := nofun
  contract := nofun

theorem Traffic.action_arrive {s : Traffic} {event : TrafficEvent} (h : s.action maxMsg event n = .arrive d) :
    d.id = s.now ∧ (s.convs n).state ≠ .unconnected := by
  cases event with
  | recv mesh ring src payload broadcast =>
    simp only [Traffic.action] at h
    split at h
    · rename_i htaken
      cases h
      refine ⟨rfl, fun hunbound => ?_⟩
      simp [Frame.takenBy, Conv.takes, hunbound] at htaken
    · cases h
  | _ =>
    simp only [Traffic.action] at h
    split at h <;> cases h

theorem Conv.act_state {c : Conv Reading} {action : Action}
    (hunbound : c.state = .unconnected → ∀ d ∈ c.rxq.items, d.data = []) :
    (c.act action).state = c.state ∨ ∀ d ∈ (c.act action).rxq.items, d.data = [] := by
  cases action with
  | rest | arrive | read | get => exact .inl rfl
  | fresh bound =>
    refine .inr fun d hd => ?_
    cases bound <;> cases hd
  | free =>
    simp only [Conv.act]
    split
    · refine .inr fun d hd => ?_
      rw [List.mem_singleton.mp hd]
      rfl
    · exact .inl rfl
  | ctl cmd =>
    simp only [Conv.act]
    cases hexec : ctlExec c cmd with
    | none => exact .inl rfl
    | some c' =>
      obtain ⟨-, ⟨-, hstate, -, hrxq⟩ | ⟨-, -, hrxq⟩⟩ := ctlExec_cases hexec
      · rw [Option.getD_some, hrxq]
        exact .inr (hunbound hstate)
      · refine .inr fun d hd => ?_
        rw [Option.getD_some, hrxq] at hd
        rw [List.mem_singleton.mp hd]
        rfl

theorem Conv.serves_from {c : Conv Reading} {action : Action} {r : Reading} (h : (r, d) ∈ c.serves action) :
    d ∈ c.rxq.items ∨ action = .arrive d := by
  cases action with
  | arrive e =>
    obtain ⟨-, -, rfl⟩ := Conv.serves_arrive.mp h
    exact .inr rfl
  | read r => exact .inl (List.mem_of_mem_head? (Conv.serves_read.mp h).2)
  | rest | ctl | free | fresh | get => cases h

theorem Conv.joins_arrive {c : Conv Reading} {action : Action} (h : d ∈ c.joins action) : action = .arrive d := by
  cases action with
  | arrive e =>
    simp only [Conv.joins] at h
    split at h
    · cases h
    · rw [List.mem_singleton.mp h]
  | rest | ctl | free | read | fresh | get => cases h

theorem framed_srcPrefixed {a b : ConvState} (h : framed a d = framed b d) : a.srcPrefixed = b.srcPrefixed := by
  have hlength := congrArg List.length h
  simp only [framed, List.length_append] at hlength
  cases ha : a.srcPrefixed <;> cases hb : b.srcPrefixed <;>
    simp [ha, hb, d.src.six] at hlength ⊢

theorem framed_congr {a b : ConvState} (h : a.srcPrefixed = b.srcPrefixed) : framed a d = framed b d := by
  rw [framed, framed, h]

theorem Taken.finish_fits {convs : Convs Reading} {t : Taken} (hdata : t.dgram.data ≠ [])
    (hroom : (convs t.slot).needs t.dgram ≤ t.reading.count) :
    t.finish convs = [⟨t.slot, t.dgram, framed (convs t.slot).state t.dgram⟩] := by
  rw [Taken.finish, Conv.finishRead_fits hdata hroom]
  rfl

theorem Taken.finish_mem {convs : Convs Reading} {t : Taken} {f : Returned} (h : f ∈ t.finish convs) :
    t.dgram.data ≠ [] ∧ (convs t.slot).needs t.dgram ≤ t.reading.count ∧
      f = ⟨t.slot, t.dgram, framed (convs t.slot).state t.dgram⟩ := by
  by_cases hdata : t.dgram.data = []
  · rw [Taken.finish, Conv.finishRead, if_pos hdata] at h
    cases h
  by_cases hroom : (convs t.slot).needs t.dgram ≤ t.reading.count
  · rw [Taken.finish_fits hdata hroom] at h
    exact ⟨hdata, hroom, List.mem_singleton.mp h⟩
  · rw [Taken.finish, Conv.finishRead_tooSmall.mpr ⟨rfl, hdata, Nat.lt_of_not_le hroom⟩] at h
    cases h

/-! ## The steps -/

theorem Readers.Accepted.later {event : TrafficEvent} (h : s.Accepted n d state)
    (hstep : s.step maxMsg (.node event) = some s') : s'.Accepted n d state := by
  cases Option.some.inj hstep
  intro hdata
  obtain ⟨hid, haccepted, hbound⟩ := h hdata
  refine ⟨Nat.lt_succ_of_lt hid, ?_, hbound⟩
  rw [← haccepted]
  exact congrFun (Function.update_of_ne (Nat.ne_of_lt hid) _ _) n

theorem Readers.accepted_arrive {event : TrafficEvent} (harrives : s.node.action maxMsg event n = .arrive d)
    (hstep : s.step maxMsg (.node event) = some s') : s'.Accepted n d (s.node.convs n).state := by
  cases Option.some.inj hstep
  obtain ⟨hid, hbound⟩ := Traffic.action_arrive harrives
  refine fun _ => ⟨hid ▸ Nat.lt_succ_self _, ?_, hbound⟩
  simp only [hid, Function.update_self]

theorem Readers.inv_node {event : TrafficEvent} (hinv : s.Inv) (hstep : s.step maxMsg (.node event) = some s') :
    s'.Inv := by
  have hconvs : ∀ n, s'.node.convs n = (s.node.convs n).act (s.node.action maxMsg event n) := by
    cases Option.some.inj hstep
    exact Traffic.apply_convs maxMsg s.node event
  have hcame : ∀ n d, d ∈ (s.node.convs n).rxq.items ∨ s.node.action maxMsg event n = .arrive d →
      s'.Accepted n d (s.node.convs n).state := by
    rintro n d (hold | hnew)
    · exact (hinv.queued n d hold).later hstep
    · exact Readers.accepted_arrive hnew hstep
  constructor
  case calm =>
    intro n
    rw [hconvs]
    exact Conv.act_calm (hinv.calm n) _
  case queued =>
    intro n d hd hdata
    rw [hconvs] at hd ⊢
    have hunbound : (s.node.convs n).state = .unconnected → ∀ d ∈ (s.node.convs n).rxq.items, d.data = [] := by
      intro hstate e he
      by_contra hsome
      exact (hinv.queued n e he hsome).2.2 hstate
    rcases Conv.act_state hunbound with hstate | hempty
    · rw [hstate]
      rcases Conv.act_items (hinv.calm n) hd with hold | hnew | ⟨-, rfl⟩
      · exact hcame n d (.inl hold) hdata
      · exact hcame n d (.inr (Conv.joins_arrive hnew)) hdata
      · exact absurd rfl hdata
    · exact absurd (hempty d hd) hdata
  case taken =>
    intro t ht
    cases Option.some.inj hstep
    rcases List.mem_append.mp ht with hold | hnew
    · exact (hinv.taken t hold).later rfl
    · obtain ⟨n, -, hin⟩ := List.mem_flatMap.mp hnew
      obtain ⟨⟨r, d⟩, hserved, rfl⟩ := List.mem_map.mp hin
      exact hcame n d (Conv.serves_from hserved)
  case returned =>
    cases Option.some.inj hstep
    exact fun f hf => Nat.lt_succ_of_lt (hinv.returned f hf)
  case contract =>
    cases Option.some.inj hstep
    intro f hf
    rw [hinv.contract f hf]
    have hid := Nat.ne_of_lt (hinv.returned f hf)
    simp only [Function.update_of_ne hid]

theorem Readers.step_finish {i : Nat} (hstep : s.step maxMsg (.finish i) = some s') :
    ∃ t, s.taken[i]? = some t ∧
      s' = { s with taken := s.taken.eraseIdx i, returned := s.returned ++ t.finish s.node.convs } := by
  obtain ⟨t, ht, rfl⟩ := Option.map_eq_some_iff.mp hstep
  exact ⟨t, ht, rfl⟩

theorem Readers.inv_finish {i : Nat} (hinv : s.Inv) (hsteady : Steady s (.finish i))
    (hstep : s.step maxMsg (.finish i) = some s') : s'.Inv := by
  obtain ⟨t, ht, rfl⟩ := Readers.step_finish hstep
  have haccepted := hinv.taken t (List.mem_of_getElem? ht)
  refine ⟨hinv.calm, hinv.queued, fun t ht => hinv.taken t (List.mem_of_mem_eraseIdx ht), ?_, ?_⟩
  · intro f hf
    rcases List.mem_append.mp hf with hold | hnew
    · exact hinv.returned f hold
    · obtain ⟨hdata, -, rfl⟩ := Taken.finish_mem hnew
      exact (haccepted hdata).1
  · intro f hf
    rcases List.mem_append.mp hf with hold | hnew
    · exact hinv.contract f hold
    · obtain ⟨hdata, hroom, rfl⟩ := Taken.finish_mem hnew
      rw [(haccepted hdata).2.1]
      exact framed_congr (hsteady t ht hdata hroom)

theorem Readers.breaks {event : ReadEvent} (hinv : s.Inv) (hsteady : ¬ Steady s event)
    (hstep : s.step maxMsg event = some s') : ¬ s'.Contract := by
  cases event with
  | node event => exact absurd trivial hsteady
  | finish i =>
    intro hcontract
    obtain ⟨t, ht, rfl⟩ := Readers.step_finish hstep
    refine hsteady fun t' ht' hdata hroom => ?_
    obtain rfl := Option.some.inj (ht.symm.trans ht')
    have hframe := hcontract _ (List.mem_append_right _ (Taken.finish_fits hdata hroom ▸ List.mem_singleton_self _))
    rw [(hinv.taken t (List.mem_of_getElem? ht) hdata).2.1] at hframe
    exact framed_srcPrefixed hframe

/-- Every datagram is returned in the frame of the state that accepted it in
exactly the runs whose reads find the conversation as they did when they took
their datagram, prefixing sources or not. -/
theorem frames_match_iff {events : List ReadEvent} {final : Readers}
    (hrun : run (Readers.step maxMsg) .init events = some final) :
    (∀ s, Visits (Readers.step maxMsg) .init events s → s.Contract) ↔
      Along (Readers.step maxMsg) Steady .init events := by
  refine visits_iff_along (fun s hinv => hinv.contract) ?_ (fun s event s' => Readers.breaks) Readers.inv_init hrun
  intro s event s' hinv hsteady hstep
  cases event with
  | node event => exact Readers.inv_node hinv hstep
  | finish i => exact Readers.inv_finish hinv hsteady hstep

end

def readBegun : List ReadEvent :=
  [.node .clone, .node (.ctl .first .announce), .node (.recv ⟨fun _ => none, fun _ => none⟩ 0 .zero [1] false),
    .node (.read .first 64)]

instance (s : Readers) : Decidable s.Contract := inferInstanceAs (Decidable (∀ f ∈ s.returned, _ = _))

instance (s : Readers) (event : ReadEvent) : Decidable (Steady s event) :=
  match event with
  | .node _ => inferInstanceAs (Decidable True)
  | .finish i => inferInstanceAs (Decidable (∀ t ∈ s.taken[i]?, _ → _ → _ = _))

/-- The read is finished, and only then the conversation hung up. -/
theorem frames_match_begun :
    (∀ s, Visits (Readers.step 512) .init (readBegun ++ [.finish 0, .node (.ctl 0 .hangup)]) s → s.Contract) ↔
      Along (Readers.step 512) Steady .init (readBegun ++ [.finish 0, .node (.ctl 0 .hangup)]) := by
  have hruns : (run (Readers.step 512) .init (readBegun ++ [.finish 0, .node (.ctl 0 .hangup)])).isSome = true := by
    decide +kernel
  obtain ⟨final, hrun⟩ := Option.isSome_iff_exists.mp hruns
  exact frames_match_iff hrun

/-- A hangup between the two steps of the read: the payload comes without its
source. -/
theorem frame_lost_by_hangup :
    ¬ ∀ (events : List ReadEvent) (s : Readers), Visits (Readers.step 512) .init events s → s.Contract := by
  intro hclaim
  have hends : (run (Readers.step 512) .init (readBegun ++ [.node (.ctl 0 .hangup), .finish 0])).any
      (fun s => decide (¬ s.Contract)) = true := by decide +kernel
  obtain ⟨s, hrun, hbroken⟩ := (Option.any_eq_true _ _).mp hends
  exact of_decide_eq_true hbroken (hclaim _ s ⟨_, List.prefix_rfl, hrun⟩)

end DectMesh.Aether
