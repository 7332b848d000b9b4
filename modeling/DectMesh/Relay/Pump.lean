import DectMesh.Aether.MeshClient
import DectMesh.Lib.Run

/-! The pump of the tunnel and the nested client that it serves, one `txbuf`
between them. The client gives up on a request after its own timeout, which is
far below the deadline of the pump's blocking reads. -/
namespace DectMesh.Relay

open DectMesh.Lib DectMesh.Aether

/-- A T-message of the nested client. `id` is history: which of its sends. -/
structure Tmsg where
  id : Nat
  bytes : List UInt8
  deriving DecidableEq

def Tmsg.tag (t : Tmsg) : Nat := tagOf t.bytes

/-- A frame as the data fid returns it: every datagram of the peer comes to the
conversation. The server copies the tag of the request into its reply; which
request that is, is history. A T-message of the peer, or a reply to a drain of the
9151 itself, answers none of the client's. -/
structure Rmsg where
  request : Option Tmsg
  bytes : List UInt8
  long : 7 ≤ bytes.length
  tagged : ∀ t ∈ request, tagOf bytes = t.tag
  deriving DecidableEq

def txAttempts : Nat := 8

def rxPolls : Nat := 6

/-- Where `pump_fn` stands: at the semaphore, behind it, at the write of an
attempt, at one of its reads, before `recv_cb`. -/
inductive PumpPc where
  | idle
  | taken
  | write (attempt : Nat)
  | read (attempt poll : Nat)
  | deliver (r : Rmsg)
  deriving DecidableEq

/-- `want` is the tag captured at the start of the cycle. `started` is history: the
message whose tag that is. `waiting` is the request that the nested client waits
on, and `owed` are the requests that went out, once for each reply still to come. -/
structure PumpState where
  txbuf : Tmsg
  sem : Bool
  pc : PumpPc
  want : Nat
  started : Tmsg
  waiting : Option Tmsg
  owed : List Tmsg
  sends : Nat

def PumpState.init : PumpState where
  txbuf := ⟨0, []⟩
  sem := false
  pc := .idle
  want := 0
  started := ⟨0, []⟩
  waiting := none
  owed := []
  sends := 0

inductive PumpEvent where
  | send (bytes : List UInt8)
  | timeout
  | take
  | start (connected : Bool)
  | write (ok : Bool)
  | read (got : Option Rmsg)
  | lost (t : Tmsg)
  | doubled (t : Tmsg)
  | deliver
  deriving DecidableEq

/-- `aether_tx_send` with a request, and the end of the wait for its reply. -/
def clientStep (s : PumpState) : PumpEvent → Option PumpState
  | .send bytes =>
      if s.waiting = none ∧ 7 ≤ bytes.length ∧ bytes.length ≤ 464 then
        some { s with
          txbuf := ⟨s.sends + 1, bytes⟩
          sem := true
          waiting := some ⟨s.sends + 1, bytes⟩
          sends := s.sends + 1 }
      else none
  | .timeout => if s.waiting = none then none else some { s with waiting := none }
  | _ => none

def PumpState.nextAttempt (s : PumpState) (attempt : Nat) : PumpState :=
  { s with pc := if attempt + 1 < txAttempts then .write (attempt + 1) else .idle }

def PumpState.nextPoll (s : PumpState) (attempt poll : Nat) : PumpState :=
  if poll + 1 < rxPolls then { s with pc := .read attempt (poll + 1) } else s.nextAttempt attempt

def PumpState.answered (s : PumpState) (r : Rmsg) : PumpState :=
  match r.request with
  | none => s
  | some t => { s with owed := s.owed.erase t }

/-- `pump_fn`. A write puts `txbuf` as it is then on the way; a reply with another
tag than the captured one is dropped. -/
def pumpFn (s : PumpState) : PumpEvent → Option PumpState
  | .take => if s.pc = .idle ∧ s.sem then some { s with sem := false, pc := .taken } else none
  | .start connected =>
      if s.pc = .taken then
        some (if connected then { s with want := s.txbuf.tag, started := s.txbuf, pc := .write 0 }
          else { s with pc := .idle })
      else none
  | .write ok =>
      match s.pc with
      | .write attempt =>
          let s := { s with owed := s.txbuf :: s.owed }
          some (if ok then { s with pc := .read attempt 0 } else s.nextAttempt attempt)
      | _ => none
  | .read none =>
      match s.pc with
      | .read attempt poll => some (s.nextPoll attempt poll)
      | _ => none
  | .read (some r) =>
      match s.pc with
      | .read attempt poll =>
          if ∀ t ∈ r.request, t ∈ s.owed then
            let s := s.answered r
            some (if tagOf r.bytes = s.want then { s with pc := .deliver r } else s.nextPoll attempt poll)
          else none
      | _ => none
  | .deliver =>
      match s.pc with
      | .deliver r =>
          some { s with
            pc := .idle
            waiting := if s.waiting.map Tmsg.tag = some (tagOf r.bytes) then none else s.waiting }
      | _ => none
  | _ => none

/-- On the way a reply may be lost or doubled. -/
def pumpRun (s : PumpState) (event : PumpEvent) : Option PumpState :=
  match event with
  | .send _ | .timeout => clientStep s event
  | .lost t => if t ∈ s.owed then some { s with owed := s.owed.erase t } else none
  | .doubled t => if t ∈ s.owed then some { s with owed := t :: s.owed } else none
  | _ => pumpFn s event

def PumpPc.trying : PumpPc → Bool
  | .write _ | .read _ _ => true
  | _ => false

def PumpPc.delivered : PumpPc → Option Rmsg
  | .deliver r => some r
  | _ => none

/-- The cycle's writes carry the message that started it, what is handed up
answers that one, and no reply is dropped that the client waits for. -/
def Unmixed (s : PumpState) : PumpEvent → Prop
  | .write _ => s.pc.trying = true → s.txbuf = s.started
  | .deliver => ∀ r ∈ s.pc.delivered, r.request = some s.started
  | .read (some r) => s.pc.trying = true → tagOf r.bytes ≠ s.want → ∀ t ∈ r.request, s.waiting ≠ some t
  | _ => True

instance (s : PumpState) (event : PumpEvent) : Decidable (Unmixed s event) := by
  unfold Unmixed
  split <;> infer_instance

/-- The client sends only while the pump tries nothing, and with a tag that no
reply still to come has. No frame of the peer that answers none of its requests
bears the tag that the cycle wants. -/
def OneInFlight (s : PumpState) : PumpEvent → Prop
  | .send bytes => s.pc.trying = false ∧ ∀ t ∈ s.owed, t.tag ≠ tagOf bytes
  | .read (some r) => r.request = none → tagOf r.bytes ≠ s.want
  | _ => True

instance (s : PumpState) (event : PumpEvent) : Decidable (OneInFlight s event) := by
  unfold OneInFlight
  split <;> infer_instance

/-- `txbuf` through a cycle, against what is on its way and waited for. -/
structure InStep (s : PumpState) : Prop where
  trying : s.pc.trying = true → s.txbuf = s.started ∧ s.want = s.started.tag
  delivering : ∀ r, s.pc = .deliver r → r.request = some s.started
  owed : ∀ t ∈ s.owed, t.tag = s.txbuf.tag → t = s.txbuf
  waiting : ∀ t, s.waiting = some t → t = s.txbuf

theorem inStep_init : InStep .init where
  trying := fun h => absurd h (by decide)
  delivering := fun _ h => by cases h
  owed := fun _ h => absurd h List.not_mem_nil
  waiting := fun _ h => by cases h

@[simp] theorem answered_pc (s : PumpState) (r : Rmsg) : (s.answered r).pc = s.pc := by
  unfold PumpState.answered
  split <;> rfl

@[simp] theorem answered_want (s : PumpState) (r : Rmsg) : (s.answered r).want = s.want := by
  unfold PumpState.answered
  split <;> rfl

@[simp] theorem answered_started (s : PumpState) (r : Rmsg) : (s.answered r).started = s.started := by
  unfold PumpState.answered
  split <;> rfl

structure SameButPc (s s' : PumpState) : Prop where
  pc : ∀ r, s'.pc ≠ .deliver r
  txbuf : s'.txbuf = s.txbuf
  started : s'.started = s.started
  want : s'.want = s.want
  owed : s'.owed = s.owed
  waiting : s'.waiting = s.waiting

theorem nextAttempt_same (s : PumpState) (attempt : Nat) : SameButPc s (s.nextAttempt attempt) where
  pc := fun r => by
    unfold PumpState.nextAttempt
    dsimp only
    split <;> simp
  txbuf := rfl
  started := rfl
  want := rfl
  owed := rfl
  waiting := rfl

theorem nextPoll_same (s : PumpState) (attempt poll : Nat) : SameButPc s (s.nextPoll attempt poll) := by
  unfold PumpState.nextPoll
  split
  · exact ⟨by simp, rfl, rfl, rfl, rfl, rfl⟩
  · exact nextAttempt_same s attempt

theorem InStep.goOn {s s' : PumpState} (h : InStep s) (htrying : s.pc.trying = true) (hsame : SameButPc s s') :
    InStep s' where
  trying := fun _ => by
    rw [hsame.txbuf, hsame.started, hsame.want]
    exact h.trying htrying
  delivering := fun r hr => absurd hr (hsame.pc r)
  owed := by
    rw [hsame.owed, hsame.txbuf]
    exact h.owed
  waiting := by
    rw [hsame.waiting, hsame.txbuf]
    exact h.waiting

theorem InStep.rest {s s' : PumpState} (h : InStep s) (hpc : s'.pc = .idle ∨ s'.pc = .taken)
    (htxbuf : s'.txbuf = s.txbuf) (howed : s'.owed = s.owed)
    (hwaiting : ∀ t, s'.waiting = some t → s.waiting = some t) : InStep s' where
  trying := fun hno => by rcases hpc with hpc | hpc <;> simp [hpc, PumpPc.trying] at hno
  delivering := fun r hr => by rcases hpc with hpc | hpc <;> simp [hpc] at hr
  owed := by
    rw [howed, htxbuf]
    exact h.owed
  waiting := fun t ht => by
    rw [htxbuf]
    exact h.waiting t (hwaiting t ht)

theorem InStep.owe {s : PumpState} (h : InStep s) : InStep { s with owed := s.txbuf :: s.owed } where
  trying := h.trying
  delivering := h.delivering
  owed := fun t ht htag => (List.mem_cons.mp ht).elim id fun hold => h.owed t hold htag
  waiting := h.waiting

theorem InStep.double {s : PumpState} {t : Tmsg} (h : InStep s) (ht : t ∈ s.owed) :
    InStep { s with owed := t :: s.owed } where
  trying := h.trying
  delivering := h.delivering
  owed := fun _ hu => h.owed _ ((List.mem_cons.mp hu).elim (fun heq => heq ▸ ht) id)
  waiting := h.waiting

theorem InStep.settle {s : PumpState} (h : InStep s) (t : Tmsg) :
    InStep { s with owed := s.owed.erase t } where
  trying := h.trying
  delivering := h.delivering
  owed := fun u hu => h.owed u (List.mem_of_mem_erase hu)
  waiting := h.waiting

theorem inStep_client {s s' : PumpState} {event : PumpEvent} (h : InStep s) (hgood : OneInFlight s event)
    (hstep : clientStep s event = some s') : InStep s' := by
  cases event with
  | send bytes =>
    simp only [clientStep] at hstep
    split at hstep
    · cases hstep
      obtain ⟨hquiet, htags⟩ := hgood
      constructor
      · intro htrying
        rw [hquiet] at htrying
        cases htrying
      · exact h.delivering
      · intro t ht htag
        exact absurd htag (htags t ht)
      · intro t ht
        exact (Option.some.inj ht).symm
    · cases hstep
  | timeout =>
    simp only [clientStep] at hstep
    split at hstep
    · cases hstep
    · cases hstep
      exact ⟨h.trying, h.delivering, h.owed, fun t ht => by cases ht⟩
  | take | start | write | read | lost | doubled | deliver => cases hstep

theorem InStep.answered {s : PumpState} (h : InStep s) (r : Rmsg) : InStep (s.answered r) := by
  unfold PumpState.answered
  split
  · exact h
  · exact h.settle _

/-- A frame with the tag of the cycle is the reply to the cycle's request. -/
theorem InStep.matched {s : PumpState} {r : Rmsg} (h : InStep s) (htrying : s.pc.trying = true)
    (hforeign : r.request = none → tagOf r.bytes ≠ s.want) (howed : ∀ t ∈ r.request, t ∈ s.owed)
    (htag : tagOf r.bytes = s.want) : r.request = some s.started := by
  obtain ⟨htxbuf, hwant⟩ := h.trying htrying
  cases hrequest : r.request with
  | none => exact absurd htag (hforeign hrequest)
  | some t =>
    have hsame : t.tag = s.txbuf.tag := by
      rw [← r.tagged t hrequest, htag, hwant, htxbuf]
    rw [h.owed t (howed t hrequest) hsame, htxbuf]

/-! ## The steps of the pump -/

inductive PumpMove (s : PumpState) : PumpEvent → PumpState → Prop where
  | take (hpc : s.pc = .idle) (hsem : s.sem = true) : PumpMove s .take { s with sem := false, pc := .taken }
  | up (hpc : s.pc = .taken) :
      PumpMove s (.start true) { s with want := s.txbuf.tag, started := s.txbuf, pc := .write 0 }
  | down (hpc : s.pc = .taken) : PumpMove s (.start false) { s with pc := .idle }
  | sent (attempt : Nat) (hpc : s.pc = .write attempt) :
      PumpMove s (.write true) { s with owed := s.txbuf :: s.owed, pc := .read attempt 0 }
  | unsent (attempt : Nat) (hpc : s.pc = .write attempt) :
      PumpMove s (.write false) (PumpState.nextAttempt { s with owed := s.txbuf :: s.owed } attempt)
  | nothing (attempt poll : Nat) (hpc : s.pc = .read attempt poll) :
      PumpMove s (.read none) (s.nextPoll attempt poll)
  | wanted (r : Rmsg) (attempt poll : Nat) (hpc : s.pc = .read attempt poll) (howed : ∀ t ∈ r.request, t ∈ s.owed)
      (htag : tagOf r.bytes = s.want) : PumpMove s (.read (some r)) { s.answered r with pc := .deliver r }
  | other (r : Rmsg) (attempt poll : Nat) (hpc : s.pc = .read attempt poll) (howed : ∀ t ∈ r.request, t ∈ s.owed)
      (htag : tagOf r.bytes ≠ s.want) : PumpMove s (.read (some r)) ((s.answered r).nextPoll attempt poll)
  | deliver (r : Rmsg) (hpc : s.pc = .deliver r) :
      PumpMove s .deliver { s with
        pc := .idle
        waiting := if s.waiting.map Tmsg.tag = some (tagOf r.bytes) then none else s.waiting }

theorem pumpFn_move {s s' : PumpState} {event : PumpEvent} (hstep : pumpFn s event = some s') :
    PumpMove s event s' := by
  cases event with
  | take =>
    obtain ⟨⟨hpc, hsem⟩, hs'⟩ := Option.ite_none_right_eq_some.mp hstep
    cases hs'
    exact .take hpc hsem
  | start connected =>
    obtain ⟨hpc, hs'⟩ := Option.ite_none_right_eq_some.mp hstep
    cases hs'
    cases connected with
    | true => exact .up hpc
    | false => exact .down hpc
  | write ok =>
    simp only [pumpFn] at hstep
    split at hstep <;> cases hstep
    rename_i attempt hpc
    cases ok with
    | true => exact .sent attempt hpc
    | false => exact .unsent attempt hpc
  | read got =>
    cases got with
    | none =>
      simp only [pumpFn] at hstep
      split at hstep <;> cases hstep
      rename_i attempt poll hpc
      exact .nothing attempt poll hpc
    | some r =>
      simp only [pumpFn] at hstep
      split at hstep
      · rename_i attempt poll hpc
        obtain ⟨howed, hs'⟩ := Option.ite_none_right_eq_some.mp hstep
        cases hs'
        split
        · rename_i htag
          exact .wanted r attempt poll hpc howed (htag.trans (answered_want s r))
        · rename_i htag
          exact .other r attempt poll hpc howed fun hwant => htag (hwant.trans (answered_want s r).symm)
      · cases hstep
  | deliver =>
    simp only [pumpFn] at hstep
    split at hstep <;> cases hstep
    rename_i r hpc
    exact .deliver r hpc
  | send | timeout | lost | doubled => cases hstep

theorem inStep_pump {s s' : PumpState} {event : PumpEvent} (h : InStep s) (hgood : OneInFlight s event)
    (hstep : pumpFn s event = some s') : InStep s' := by
  have htrying (hpc : (∃ attempt, s.pc = .write attempt) ∨ ∃ attempt poll, s.pc = .read attempt poll) :
      s.pc.trying = true := by
    rcases hpc with ⟨attempt, hpc⟩ | ⟨attempt, poll, hpc⟩ <;> rw [hpc] <;> rfl
  cases pumpFn_move hstep with
  | take => exact h.rest (.inr rfl) rfl rfl fun _ => id
  | up => exact ⟨fun _ => ⟨rfl, rfl⟩, (fun r hr => by cases hr), h.owed, h.waiting⟩
  | down => exact h.rest (.inl rfl) rfl rfl fun _ => id
  | sent attempt hpc => exact h.owe.goOn (htrying (.inl ⟨_, hpc⟩)) ⟨by simp, rfl, rfl, rfl, rfl, rfl⟩
  | unsent attempt hpc => exact h.owe.goOn (htrying (.inl ⟨_, hpc⟩)) (nextAttempt_same _ attempt)
  | nothing attempt poll hpc => exact h.goOn (htrying (.inr ⟨_, _, hpc⟩)) (nextPoll_same s attempt poll)
  | wanted r attempt poll hpc howed htag =>
    have hanswered := h.answered r
    have hrequest := h.matched (htrying (.inr ⟨_, _, hpc⟩)) hgood howed htag
    constructor
    · intro hno
      cases hno
    · intro q hq
      cases hq
      rw [answered_started]
      exact hrequest
    · exact hanswered.owed
    · exact hanswered.waiting
  | other r attempt poll hpc =>
    have hsame : (s.answered r).pc.trying = true := by
      rw [answered_pc]
      exact htrying (.inr ⟨_, _, hpc⟩)
    exact (h.answered r).goOn hsame (nextPoll_same _ attempt poll)
  | deliver r =>
    refine h.rest (.inl rfl) rfl rfl fun t ht => ?_
    dsimp only at ht
    split at ht
    · cases ht
    · exact ht

theorem inStep_run (s : PumpState) (event : PumpEvent) (s' : PumpState) (h : InStep s)
    (hgood : OneInFlight s event) (hstep : pumpRun s event = some s') : InStep s' := by
  cases event with
  | send | timeout => exact inStep_client h hgood hstep
  | lost t =>
    simp only [pumpRun] at hstep
    split at hstep
    · cases hstep
      exact h.settle t
    · cases hstep
  | doubled t =>
    obtain ⟨ht, hs'⟩ := Option.ite_none_right_eq_some.mp hstep
    cases hs'
    exact h.double ht
  | take | start | write | read | deliver => exact inStep_pump h hgood hstep

theorem InStep.unmixed {s : PumpState} (h : InStep s) (event : PumpEvent) : Unmixed s event := by
  cases event with
  | write ok => exact fun htrying => (h.trying htrying).1
  | deliver =>
    intro r hr
    cases hpc : s.pc with
    | deliver q =>
      rw [hpc] at hr
      cases hr
      exact h.delivering r hpc
    | idle | taken | write | read =>
      rw [hpc] at hr
      cases hr
  | read got =>
    cases got with
    | none => trivial
    | some r =>
      intro htrying htag t ht hwaiting
      obtain ⟨htxbuf, hwant⟩ := h.trying htrying
      apply htag
      rw [r.tagged t ht, h.waiting t hwaiting, hwant, htxbuf]
  | send | timeout | take | start | lost | doubled => trivial

/-- Every run of the nested client and the pump: no cycle mixes requests, while
the client sends only outside the attempts of a cycle and with a tag that no
reply still to come has, and no frame that answers none of its requests bears the
tag that the cycle wants. -/
theorem pump_keeps_requests_apart {events : List PumpEvent}
    (hgood : Along pumpRun OneInFlight .init events) : Along pumpRun Unmixed .init events :=
  along_of_invariant inStep_run (fun _ event h _ => h.unmixed event) inStep_init hgood

def peerAttach : Rmsg := ⟨none, tAttach 1, by decide, nofun⟩

def retriedOnce : List PumpEvent :=
  [.send (tVersion 448), .take, .start true, .write false, .write true, .doubled ⟨1, tVersion 448⟩, .read none,
    .read (some peerAttach),
    .read (some ⟨some ⟨1, tVersion 448⟩, frame 101 0xffff (leBytes 4 448 ++ str protoVersion), by decide,
      by decide⟩), .deliver]

/-- The client gives up on its Tattach while the pump reads, and sends the next
request. The second write takes that one out, and its reply is dropped. -/
def overwritten : List PumpEvent :=
  [.send (tAttach 1), .take, .start true, .write true] ++ List.replicate 6 (.read none) ++
    [.timeout, .send (tOpen 2 0), .write true,
      .read (some ⟨some ⟨2, tOpen 2 0⟩, frame 113 2 (leBytes 13 0 ++ leBytes 4 0), by decide, by decide⟩)]

def answeredByRequest : List PumpEvent :=
  [.send (tAttach 1), .take, .start true, .write true, .read (some peerAttach), .deliver]

theorem pump_keeps_apart_retried : Along pumpRun Unmixed .init retriedOnce :=
  pump_keeps_requests_apart (by decide +kernel)

theorem pump_mixes_requests :
    (¬ Along pumpRun Unmixed .init overwritten ∧ (run pumpRun .init overwritten).isSome = true) ∧
      ¬ Along pumpRun Unmixed .init answeredByRequest ∧
      (run pumpRun .init answeredByRequest).isSome = true := by
  decide +kernel

end DectMesh.Relay
