import DectMesh.Lib.History
import DectMesh.Lib.RingBuffer
import DectMesh.Mesh9p.Routing

/-! The request ring as a queue: what passes the ack gate reaches the server
once, in order and as it came. -/
namespace DectMesh.Mesh9p

open DectMesh.Lib DectMesh.Aether

/-- History: the frames that passed the gate, the requests whose slots have been
released, those in filled slots, and those handed to the server. -/
structure Handled where
  gated : List Req
  done : List Req
  held : List Req
  served : List Req

def Handled.init : Handled := ⟨[], [], [], []⟩

def noteHandled (maxMsg : Nat) (s : RingState) (event : RingEvent) (h : Handled) : Handled :=
  match event with
  | .frame req =>
      if looksLike9pT maxMsg req.buf ∧ s.count < ringSize then { h with gated := h.gated ++ [req] } else h
  | .copy =>
      match s.rx with
      | .reserved _ req => { h with held := h.held ++ [req] }
      | _ => h
  | .serve => { h with served := h.served ++ [s.ring s.head] }
  | .advance => { h with done := h.done ++ h.held.take 1, held := h.held.drop 1 }
  | _ => h

def RxThread.waiting : RxThread → List Req
  | .gated req => [req]
  | _ => []

def RxThread.filling : RxThread → List Req
  | .reserved _ req => [req]
  | _ => []

def Worker.handed : Worker → Nat
  | .serving _ | .served => 1
  | _ => 0

/-- What the ring promises in every state, also between two statements of a
thread. -/
structure ExactlyOnce (s : RingState) (h : Handled) : Prop where
  /-- The drop behind the gate is never taken: what the gate lets in is enqueued. -/
  enqueued : h.gated = s.accepted ++ s.rx.waiting
  room : ∀ req, s.rx = .gated req → s.count < ringSize
  inOrder : h.served = s.accepted.take (s.released + s.worker.handed)
  ownPeer : ∀ req, s.worker = .serving req → s.curPeer = req.peer
  kept : ∀ k (hk : k < s.accepted.length), s.released ≤ k → k + s.rx.filling.length < s.accepted.length →
    s.ring (k % ringSize) = s.accepted[k]
  idle : s.worker = .parked → s.queued = false → s.rx ≠ .counted →
    s.count = 0 ∧ s.accepted.length = h.served.length + s.rx.pending

/-! ## The invariant -/

structure Queue (s : RingState) (h : Handled) : Prop where
  inv : Inv s
  gated : h.gated = s.accepted ++ s.rx.waiting
  accepted : s.accepted = h.done ++ h.held ++ s.rx.filling
  done : h.done.length = s.released
  window : Window ringSize s.ring s.released h.held
  served : h.served = h.done ++ h.held.take s.worker.handed
  idle : s.worker = .parked → s.queued = false → s.rx ≠ .counted → s.count = 0

theorem queue_init : Queue .init .init where
  inv := inv_init
  gated := rfl
  accepted := rfl
  done := rfl
  window := .nil
  served := rfl
  idle := fun _ _ _ => rfl

theorem Queue.held_length {s : RingState} {h : Handled} (q : Queue s h) :
    h.held.length + s.rx.filling.length + s.worker.pending = s.count + s.rx.pending := by
  have hbalance := q.inv.balance
  have hlength := congrArg List.length q.accepted
  have hdone := q.done
  simp only [List.length_append] at hlength
  omega

theorem Queue.head_eq {s : RingState} {h : Handled} (q : Queue s h) (hbusy : s.worker.busy = true)
    (hpending : s.worker.pending = 0) : ∃ later, h.held = s.ring s.head :: later := by
  have hcount := q.inv.busy hbusy
  have hlength := q.held_length
  rw [hpending] at hlength
  cases hheld : h.held with
  | cons req later =>
    have hwindow := q.window
    rw [hheld] at hwindow
    exact ⟨later, by rw [q.inv.head, hwindow.head]⟩
  | nil =>
    rw [hheld] at hlength
    cases hrx : s.rx <;> rw [hrx] at hlength <;> simp [RxThread.filling, RxThread.pending] at hlength <;> omega

theorem Queue.handed_le {s : RingState} {h : Handled} (q : Queue s h) : s.worker.handed ≤ h.held.length := by
  cases hworker : s.worker with
  | serving | served =>
    obtain ⟨later, hheld⟩ := q.head_eq (by rw [hworker]; rfl) (by rw [hworker]; rfl)
    rw [hheld]
    exact Nat.succ_le_succ (Nat.zero_le _)
  | _ => exact Nat.zero_le _

/-! ## Each step keeps it -/

theorem queue_frame {maxMsg : Nat} {s s' : RingState} {req : Req} {h : Handled} (q : Queue s h)
    (hstep : rxStep maxMsg s (.frame req) = some s') : Queue s' (noteHandled maxMsg s (.frame req) h) := by
  have hinv := inv_rx q.inv hstep
  obtain ⟨-, hgated, haccepted, hdone, hwindow, hserved, hidle⟩ := q
  cases rxStep_move hstep with
  | enter _ hrx hpass =>
    rw [hrx] at hgated haccepted
    simp only [noteHandled, if_pos hpass]
    refine ⟨hinv, ?_, haccepted, hdone, hwindow, hserved, fun hworker hqueued _ => ?_⟩
    · simp only [hgated, RxThread.waiting, List.append_nil]
    · exact hidle hworker hqueued (by rw [hrx]; exact fun h => by cases h)
  | refuse _ hrx hpass =>
    simp only [noteHandled, if_neg hpass]
    exact ⟨hinv, hgated, haccepted, hdone, hwindow, hserved, hidle⟩

theorem queue_reserve {maxMsg : Nat} {s s' : RingState} {h : Handled} (q : Queue s h)
    (hstep : rxStep maxMsg s .reserve = some s') : Queue s' (noteHandled maxMsg s .reserve h) := by
  have hinv := inv_rx q.inv hstep
  obtain ⟨inv, hgated, haccepted, hdone, hwindow, hserved, hidle⟩ := q
  cases rxStep_move hstep with
  | full req hrx hfull => exact absurd (inv.gated req hrx) (Nat.not_lt_of_le hfull)
  | reserve req hrx hroom =>
    rw [hrx] at hgated haccepted hidle
    refine ⟨hinv, ?_, ?_, hdone, hwindow, hserved, fun hworker hqueued _ => ?_⟩
    · simp only [noteHandled, hgated, RxThread.waiting, List.append_nil]
    · simp only [haccepted, noteHandled, RxThread.filling, List.append_nil]
    · exact hidle hworker hqueued (fun h => by cases h)

theorem queue_copy {maxMsg : Nat} {s s' : RingState} {h : Handled} (q : Queue s h)
    (hstep : rxStep maxMsg s .copy = some s') : Queue s' (noteHandled maxMsg s .copy h) := by
  have hinv := inv_rx q.inv hstep
  have hlength := q.held_length
  have hhanded := q.handed_le
  obtain ⟨inv, hgated, haccepted, hdone, hwindow, hserved, hidle⟩ := q
  cases rxStep_move hstep with
  | copy slot req hrx =>
    have hroom := inv.room
    have hcount := congrArg List.length haccepted
    rw [hrx] at hgated haccepted hidle hroom hlength hcount
    simp only [RxThread.pending, RxThread.filling, List.length_singleton, List.length_append] at hroom hlength hcount
    have hslot : slot = (s.released + h.held.length) % ringSize := by
      rw [inv.slot slot req hrx]
      congr 1
      omega
    have hnote : noteHandled maxMsg s .copy h = { h with held := h.held ++ [req] } := by
      simp only [noteHandled, hrx]
    rw [hnote]
    refine ⟨hinv, hgated, ?_, hdone, ?_, ?_, fun hworker hqueued _ => ?_⟩
    · simp only [haccepted, RxThread.filling, List.append_assoc, List.append_nil]
    · rw [hslot]
      exact hwindow.push (by omega) req
    · simp only [hserved, List.take_append_of_le_length hhanded]
    · exact hidle hworker hqueued (fun h => by cases h)

theorem queue_commit {maxMsg : Nat} {s s' : RingState} {h : Handled} (q : Queue s h)
    (hstep : rxStep maxMsg s .commit = some s') : Queue s' (noteHandled maxMsg s .commit h) := by
  have hinv := inv_rx q.inv hstep
  obtain ⟨-, hgated, haccepted, hdone, hwindow, hserved, hidle⟩ := q
  cases rxStep_move hstep with
  | commit hrx =>
    rw [hrx] at hgated haccepted
    exact ⟨hinv, hgated, haccepted, hdone, hwindow, hserved, fun _ _ hcounted => absurd rfl hcounted⟩

theorem queue_submit {maxMsg : Nat} {s s' : RingState} {h : Handled} (q : Queue s h)
    (hstep : rxStep maxMsg s .submit = some s') : Queue s' (noteHandled maxMsg s .submit h) := by
  have hinv := inv_rx q.inv hstep
  obtain ⟨-, hgated, haccepted, hdone, hwindow, hserved, hidle⟩ := q
  cases rxStep_move hstep with
  | submit hrx =>
    rw [hrx] at hgated haccepted
    exact ⟨hinv, hgated, haccepted, hdone, hwindow, hserved, fun _ hqueued _ => by cases hqueued⟩

theorem queue_rx {maxMsg : Nat} {s s' : RingState} {event : RingEvent} {h : Handled} (q : Queue s h)
    (hstep : rxStep maxMsg s event = some s') : Queue s' (noteHandled maxMsg s event h) := by
  cases event with
  | frame req => exact queue_frame q hstep
  | reserve => exact queue_reserve q hstep
  | copy => exact queue_copy q hstep
  | commit => exact queue_commit q hstep
  | submit => exact queue_submit q hstep
  | _ => cases hstep

theorem queue_check {maxMsg : Nat} {s s' : RingState} {h : Handled} (q : Queue s h)
    (hstep : workerStep s .check = some s') : Queue s' (noteHandled maxMsg s .check h) := by
  have hinv := inv_worker q.inv hstep
  obtain ⟨-, hgated, haccepted, hdone, hwindow, hserved, hidle⟩ := q
  cases workerStep_move hstep with
  | load hworker hcount =>
    rw [hworker] at hserved
    exact ⟨hinv, hgated, haccepted, hdone, hwindow, hserved, fun hparked => by cases hparked⟩
  | park hworker hcount =>
    rw [hworker] at hserved
    exact ⟨hinv, hgated, haccepted, hdone, hwindow, hserved, fun _ _ _ => hcount⟩

theorem queue_serve {maxMsg : Nat} {s s' : RingState} {h : Handled} (q : Queue s h)
    (hstep : workerStep s .serve = some s') : Queue s' (noteHandled maxMsg s .serve h) := by
  have hinv := inv_worker q.inv hstep
  have hhead := q.head_eq
  obtain ⟨-, hgated, haccepted, hdone, hwindow, hserved, hidle⟩ := q
  cases workerStep_move hstep with
  | serve hworker =>
    obtain ⟨later, hheld⟩ := hhead (by rw [hworker]; rfl) (by rw [hworker]; rfl)
    rw [hworker] at hserved
    refine ⟨hinv, hgated, haccepted, hdone, hwindow, ?_, fun hparked => by cases hparked⟩
    simp only [noteHandled, hserved, Worker.handed, List.take_zero, List.append_nil, hheld, List.take_succ_cons]

theorem queue_advance {maxMsg : Nat} {s s' : RingState} {h : Handled} (q : Queue s h)
    (hstep : workerStep s .advance = some s') : Queue s' (noteHandled maxMsg s .advance h) := by
  have hinv := inv_worker q.inv hstep
  have hhead := q.head_eq
  obtain ⟨-, hgated, haccepted, hdone, hwindow, hserved, hidle⟩ := q
  cases workerStep_move hstep with
  | advance hworker =>
    obtain ⟨later, hheld⟩ := hhead (by rw [hworker]; rfl) (by rw [hworker]; rfl)
    rw [hworker] at hserved
    rw [hheld] at haccepted hwindow hserved
    simp only [noteHandled, hheld, List.take_succ_cons, List.take_zero, List.drop_succ_cons, List.drop_zero]
    refine ⟨hinv, hgated, ?_, ?_, hwindow.pop, ?_, fun hparked => by cases hparked⟩
    · simp only [haccepted, List.append_assoc, List.cons_append, List.nil_append]
    · simp only [List.length_append, List.length_singleton, hdone]
    · simp only [hserved, Worker.handed, List.take_succ_cons, List.take_zero, List.append_nil]

theorem queue_worker {maxMsg : Nat} {s s' : RingState} {event : RingEvent} {h : Handled} (q : Queue s h)
    (hstep : workerStep s event = some s') : Queue s' (noteHandled maxMsg s event h) := by
  have hinv := inv_worker q.inv hstep
  cases workerStep_move hstep with
  | load | park => exact queue_check q hstep
  | serve => exact queue_serve q hstep
  | advance => exact queue_advance q hstep
  | start hworker | bind hworker | finish _ hworker | release hworker =>
    obtain ⟨-, hgated, haccepted, hdone, hwindow, hserved, hidle⟩ := q
    rw [hworker] at hserved
    exact ⟨hinv, hgated, haccepted, hdone, hwindow, hserved, fun hparked => by cases hparked⟩

theorem queue_server {maxMsg : Nat} {s s' : RingState} {event : RingEvent} {h : Handled} (q : Queue s h)
    (hstep : serverStep s event = some s') : Queue s' (noteHandled maxMsg s event h) := by
  have hinv := inv_server q.inv hstep
  obtain ⟨inv, hgated, haccepted, hdone, hwindow, hserved, hidle⟩ := q
  cases event with
  | answer | defer | lateAnswer =>
    simp only [serverStep] at hstep
    split at hstep <;> cases hstep
    exact ⟨hinv, hgated, haccepted, hdone, hwindow, hserved, hidle⟩
  | _ => cases hstep

theorem queue_step {maxMsg : Nat} (s : RingState) (h : Handled) (event : RingEvent) (s' : RingState)
    (q : Queue s h) (hstep : step maxMsg s event = some s') : Queue s' (noteHandled maxMsg s event h) := by
  unfold step at hstep
  split at hstep
  all_goals first
    | exact queue_rx q hstep
    | exact queue_worker q hstep
    | exact queue_server q hstep

/-! ## What it promises -/

theorem Queue.exactlyOnce {s : RingState} {h : Handled} (q : Queue s h) : ExactlyOnce s h where
  enqueued := q.gated
  room := q.inv.gated
  inOrder := by
    have hhanded := q.handed_le
    rw [q.accepted, ← q.done, List.append_assoc, List.take_length_add_append,
      List.take_append_of_le_length hhanded]
    exact q.served
  ownPeer := fun req hserving => q.inv.current req (q.inv.serving req hserving)
  kept := by
    intro k hk hreleased hfilled
    have hlength := congrArg List.length q.accepted
    have hdone := q.done
    simp only [List.length_append] at hlength
    have hheld : k - s.released < h.held.length := by omega
    have hslot := q.window (k - s.released) hheld
    rw [Nat.add_sub_cancel' hreleased] at hslot
    rw [hslot]
    simp only [q.accepted]
    rw [List.getElem_append_left (by simp only [List.length_append]; omega),
      List.getElem_append_right (by omega)]
    simp only [hdone]
  idle := by
    intro hworker hqueued hcounted
    have hempty := q.idle hworker hqueued hcounted
    have hbalance := q.inv.balance
    have hserved := congrArg List.length q.served
    have hdone := q.done
    rw [hworker] at hbalance hserved
    simp only [Worker.handed, List.take_zero, List.append_nil, Worker.pending] at hbalance hserved
    exact ⟨hempty, by omega⟩

/-- Every interleaving of the receive thread and the worker: what the gate lets
in is enqueued and handed to the server once, in order and unchanged, and the
ring is empty while the work item is idle and not about to be submitted. -/
theorem ring_exactly_once {maxMsg : Nat} {events : List RingEvent} {s : RingState} {h : Handled}
    (hrun : run (recording (step maxMsg) (noteHandled maxMsg)) (.init, .init) events = some (s, h)) :
    ExactlyOnce s h :=
  (recording_invariant (fun s h event s' q _ => queue_step s h event s' q) queue_init (along_true _ _)
    hrun).exactlyOnce

def sampleReq : Req := ⟨.zero, tVersion 512, 0⟩

def sampleEvents : List RingEvent :=
  [.frame sampleReq, .reserve, .copy, .commit, .submit, .start, .check, .bind, .serve]

theorem ring_serves_one : ∃ s h,
    run (recording (step 512) (noteHandled 512)) (.init, .init) sampleEvents = some (s, h) ∧
      h.served = [sampleReq] ∧ ExactlyOnce s h := by
  have hserved : (run (recording (step 512) (noteHandled 512)) (.init, .init) sampleEvents).map
      (fun final => final.2.served) = some [sampleReq] := by decide +kernel
  obtain ⟨⟨s, h⟩, hrun, hlist⟩ := Option.map_eq_some_iff.mp hserved
  exact ⟨s, h, hrun, hlist, ring_exactly_once hrun⟩

/-- Between the count's increment and the submit the work item is neither queued
nor running, and the ring holds a request. -/
theorem counted_before_submit :
    ¬ ∀ (events : List RingEvent) (s : RingState), run (step 512) .init events = some s →
      s.worker = .parked → s.queued = false → s.count = 0 := by
  intro hclaim
  have hempty := hclaim [.frame sampleReq, .reserve, .copy, .commit] _ rfl rfl rfl
  cases hempty

end DectMesh.Mesh9p
