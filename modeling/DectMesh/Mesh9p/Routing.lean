import DectMesh.Lib.RingBuffer
import DectMesh.Mesh9p.Ring

/-! Where the mesh server's replies go. `mesh9p_send` sends to the peer of the
request dequeued last; that is the peer of the request being served, and of a
deferred one only by chance. -/
namespace DectMesh.Mesh9p

open DectMesh.Lib DectMesh.Aether

/-! ## The ring's bookkeeping -/

/-- A slot reserved and not yet counted. -/
def RxThread.pending : RxThread → Nat
  | .reserved .. | .copied => 1
  | _ => 0

/-- A slot released and still counted. -/
def Worker.pending : Worker → Nat
  | .advanced => 1
  | _ => 0

def Worker.busy : Worker → Bool
  | .parked | .checking => false
  | _ => true

structure Inv (s : RingState) : Prop where
  tail : s.tail = s.accepted.length % ringSize
  head : s.head = s.released % ringSize
  balance : s.accepted.length + s.worker.pending = s.released + s.count + s.rx.pending
  room : s.count + s.rx.pending ≤ ringSize
  gated : ∀ req, s.rx = .gated req → s.count < ringSize
  slot : ∀ slot req, s.rx = .reserved slot req → slot = (s.accepted.length - 1) % ringSize
  busy : s.worker.busy = true → 0 < s.count
  bound : s.worker = .bound → s.dequeued = some (s.ring s.head)
  serving : ∀ req, s.worker = .serving req → s.dequeued = some req
  current : ∀ req, s.dequeued = some req → s.curPeer = req.peer
  deferred : ∀ req ∈ s.deferred, s.dequeued ≠ none

theorem inv_init : Inv .init where
  tail := rfl
  head := rfl
  balance := rfl
  room := by decide
  gated := fun _ h => nomatch h
  slot := fun _ _ h => nomatch h
  busy := fun h => nomatch h
  bound := fun h => nomatch h
  serving := fun _ h => nomatch h
  current := fun _ h => nomatch h
  deferred := fun _ h => nomatch h

theorem Inv.slot_ne_head {s : RingState} (h : Inv s) {slot : Nat} {req : Req}
    (hrx : s.rx = .reserved slot req) (hbusy : s.worker.busy = true) (hadv : s.worker.pending = 0) :
    slot ≠ s.head := by
  have hcount := h.busy hbusy
  have hbalance := h.balance
  have hroom := h.room
  rw [hadv, hrx] at hbalance
  rw [hrx] at hroom
  simp only [RxThread.pending] at hbalance hroom
  rw [h.slot slot req hrx, h.head]
  exact (mod_ne_of_lt (by omega) (by omega)).symm

theorem succ_mod (n : Nat) : (n % ringSize + 1) % ringSize = (n + 1) % ringSize := Nat.mod_add_mod n ringSize 1

/-! ### The receive thread -/

theorem inv_frame {maxMsg : Nat} {s s' : RingState} {req : Req} (h : Inv s)
    (hstep : rxStep maxMsg s (.frame req) = some s') : Inv s' := by
  obtain ⟨htail, hhead, hbalance, hroom, hgated, hslot, hbusy, hbound, hserving, hcurrent, hdeferred⟩ := h
  cases rxStep_move hstep with
  | enter _ hrx hpass =>
    rw [hrx] at hbalance hroom
    exact ⟨htail, hhead, hbalance, hroom, fun _ _ => hpass.2, (fun _ _ h => nomatch h), hbusy, hbound,
      hserving, hcurrent, hdeferred⟩
  | refuse =>
    exact ⟨htail, hhead, hbalance, hroom, hgated, hslot, hbusy, hbound, hserving, hcurrent, hdeferred⟩

theorem inv_reserve {maxMsg : Nat} {s s' : RingState} (h : Inv s) (hstep : rxStep maxMsg s .reserve = some s') :
    Inv s' := by
  obtain ⟨htail, hhead, hbalance, hroom, hgated, hslot, hbusy, hbound, hserving, hcurrent, hdeferred⟩ := h
  cases rxStep_move hstep with
  | full req hrx hfull => exact absurd (hgated req hrx) (Nat.not_lt_of_le hfull)
  | reserve req hrx hspace =>
    rw [hrx] at hbalance hroom
    refine ⟨?_, hhead, ?_, ?_, (fun _ h => nomatch h), ?_, hbusy, hbound, hserving, hcurrent, hdeferred⟩
    · simp only [htail, List.length_append, List.length_singleton]
      exact succ_mod _
    · simp only [RxThread.pending, List.length_append, List.length_singleton] at hbalance ⊢
      omega
    · simp only [RxThread.pending]
      omega
    · intro slot other hreserved
      cases hreserved
      simpa using htail

theorem inv_copy {maxMsg : Nat} {s s' : RingState} (h : Inv s) (hstep : rxStep maxMsg s .copy = some s') :
    Inv s' := by
  cases rxStep_move hstep with
  | copy slot req hrx =>
    have hne := h.slot_ne_head hrx
    obtain ⟨htail, hhead, hbalance, hroom, hgated, hslot, hbusy, hbound, hserving, hcurrent, hdeferred⟩ := h
    rw [hrx] at hbalance hroom
    refine ⟨htail, hhead, hbalance, hroom, (fun _ h => nomatch h), (fun _ _ h => nomatch h), hbusy, ?_,
      hserving, hcurrent, hdeferred⟩
    intro hworker
    have hother := hne (by rw [hworker]; rfl) (by rw [hworker]; rfl)
    simp only [Function.update_of_ne hother.symm]
    exact hbound hworker

theorem inv_commit {maxMsg : Nat} {s s' : RingState} (h : Inv s) (hstep : rxStep maxMsg s .commit = some s') :
    Inv s' := by
  obtain ⟨htail, hhead, hbalance, hroom, hgated, hslot, hbusy, hbound, hserving, hcurrent, hdeferred⟩ := h
  cases rxStep_move hstep with
  | commit hrx =>
    rw [hrx] at hbalance hroom
    simp only [RxThread.pending] at hbalance hroom
    exact ⟨htail, hhead, by simp only [RxThread.pending]; omega, by simp only [RxThread.pending]; omega,
      (fun _ h => nomatch h), (fun _ _ h => nomatch h), fun _ => Nat.succ_pos _, hbound, hserving,
      hcurrent, hdeferred⟩

theorem inv_submit {maxMsg : Nat} {s s' : RingState} (h : Inv s) (hstep : rxStep maxMsg s .submit = some s') :
    Inv s' := by
  obtain ⟨htail, hhead, hbalance, hroom, hgated, hslot, hbusy, hbound, hserving, hcurrent, hdeferred⟩ := h
  cases rxStep_move hstep with
  | submit hrx =>
    rw [hrx] at hbalance hroom
    exact ⟨htail, hhead, hbalance, hroom, (fun _ h => nomatch h), (fun _ _ h => nomatch h), hbusy, hbound,
      hserving, hcurrent, hdeferred⟩

theorem inv_rx {maxMsg : Nat} {s s' : RingState} {event : RingEvent} (h : Inv s)
    (hstep : rxStep maxMsg s event = some s') : Inv s' := by
  cases event with
  | frame req => exact inv_frame h hstep
  | reserve => exact inv_reserve h hstep
  | copy => exact inv_copy h hstep
  | commit => exact inv_commit h hstep
  | submit => exact inv_submit h hstep
  | _ => cases hstep

/-! ### The worker -/

theorem inv_start {s s' : RingState} (h : Inv s) (hstep : workerStep s .start = some s') : Inv s' := by
  obtain ⟨htail, hhead, hbalance, hroom, hgated, hslot, hbusy, hbound, hserving, hcurrent, hdeferred⟩ := h
  cases workerStep_move hstep with
  | start hworker hqueued =>
    rw [hworker] at hbalance
    exact ⟨htail, hhead, hbalance, hroom, hgated, hslot, (fun h => nomatch h), (fun h => nomatch h),
      (fun _ h => nomatch h), hcurrent, hdeferred⟩

theorem inv_check {s s' : RingState} (h : Inv s) (hstep : workerStep s .check = some s') : Inv s' := by
  obtain ⟨htail, hhead, hbalance, hroom, hgated, hslot, hbusy, hbound, hserving, hcurrent, hdeferred⟩ := h
  cases workerStep_move hstep with
  | load hworker hcount =>
    rw [hworker] at hbalance
    exact ⟨htail, hhead, hbalance, hroom, hgated, hslot, fun _ => hcount, (fun h => nomatch h),
      (fun _ h => nomatch h), hcurrent, hdeferred⟩
  | park hworker hcount =>
    rw [hworker] at hbalance
    exact ⟨htail, hhead, hbalance, hroom, hgated, hslot, (fun h => nomatch h), (fun h => nomatch h),
      (fun _ h => nomatch h), hcurrent, hdeferred⟩

theorem inv_bind {s s' : RingState} (h : Inv s) (hstep : workerStep s .bind = some s') : Inv s' := by
  obtain ⟨htail, hhead, hbalance, hroom, hgated, hslot, hbusy, hbound, hserving, hcurrent, hdeferred⟩ := h
  cases workerStep_move hstep with
  | bind hworker =>
    rw [hworker] at hbalance hbusy
    refine ⟨htail, hhead, hbalance, hroom, hgated, hslot, hbusy, fun _ => rfl, (fun _ h => nomatch h), ?_,
      fun _ _ h => nomatch h⟩
    rintro req ⟨⟩
    rfl

theorem inv_serve {s s' : RingState} (h : Inv s) (hstep : workerStep s .serve = some s') : Inv s' := by
  obtain ⟨htail, hhead, hbalance, hroom, hgated, hslot, hbusy, hbound, hserving, hcurrent, hdeferred⟩ := h
  cases workerStep_move hstep with
  | serve hworker =>
    have hdequeued := hbound hworker
    rw [hworker] at hbalance hbusy
    refine ⟨htail, hhead, hbalance, hroom, hgated, hslot, hbusy, (fun h => nomatch h), ?_, hcurrent, hdeferred⟩
    rintro req ⟨⟩
    exact hdequeued

theorem inv_finish {s s' : RingState} (h : Inv s) (hstep : workerStep s .finish = some s') : Inv s' := by
  obtain ⟨htail, hhead, hbalance, hroom, hgated, hslot, hbusy, hbound, hserving, hcurrent, hdeferred⟩ := h
  cases workerStep_move hstep with
  | finish req hworker =>
    rw [hworker] at hbalance hbusy
    exact ⟨htail, hhead, hbalance, hroom, hgated, hslot, hbusy, (fun h => nomatch h),
      (fun _ h => nomatch h), hcurrent, hdeferred⟩

theorem inv_advance {s s' : RingState} (h : Inv s) (hstep : workerStep s .advance = some s') : Inv s' := by
  obtain ⟨htail, hhead, hbalance, hroom, hgated, hslot, hbusy, hbound, hserving, hcurrent, hdeferred⟩ := h
  cases workerStep_move hstep with
  | advance hworker =>
    rw [hworker] at hbalance hbusy
    refine ⟨htail, ?_, ?_, hroom, hgated, hslot, hbusy, (fun h => nomatch h), (fun _ h => nomatch h),
      hcurrent, hdeferred⟩
    · simp only [hhead]
      exact succ_mod _
    · simp only [Worker.pending] at hbalance ⊢
      omega

theorem inv_release {s s' : RingState} (h : Inv s) (hstep : workerStep s .release = some s') : Inv s' := by
  obtain ⟨htail, hhead, hbalance, hroom, hgated, hslot, hbusy, hbound, hserving, hcurrent, hdeferred⟩ := h
  cases workerStep_move hstep with
  | release hworker =>
    have hcount : 0 < s.count := hbusy (by rw [hworker]; rfl)
    rw [hworker] at hbalance
    refine ⟨htail, hhead, ?_, ?_, fun req hreq => ?_, hslot, (fun h => nomatch h), (fun h => nomatch h),
      (fun _ h => nomatch h), hcurrent, hdeferred⟩
    · simp only [Worker.pending] at hbalance ⊢
      omega
    · simp only
      omega
    · have := hgated req hreq
      simp only
      omega

theorem inv_worker {s s' : RingState} {event : RingEvent} (h : Inv s)
    (hstep : workerStep s event = some s') : Inv s' := by
  cases event with
  | start => exact inv_start h hstep
  | check => exact inv_check h hstep
  | bind => exact inv_bind h hstep
  | serve => exact inv_serve h hstep
  | finish => exact inv_finish h hstep
  | advance => exact inv_advance h hstep
  | release => exact inv_release h hstep
  | _ => cases hstep

/-! ### The server -/

theorem inv_server {s s' : RingState} {event : RingEvent} (h : Inv s)
    (hstep : serverStep s event = some s') : Inv s' := by
  obtain ⟨htail, hhead, hbalance, hroom, hgated, hslot, hbusy, hbound, hserving, hcurrent, hdeferred⟩ := h
  cases event with
  | answer msg =>
    simp only [serverStep] at hstep
    split at hstep <;> cases hstep
    exact ⟨htail, hhead, hbalance, hroom, hgated, hslot, hbusy, hbound, hserving, hcurrent, hdeferred⟩
  | defer =>
    simp only [serverStep] at hstep
    split at hstep
    · rename_i req hworker
      cases hstep
      refine ⟨htail, hhead, hbalance, hroom, hgated, hslot, hbusy, hbound, hserving, hcurrent, fun _ _ => ?_⟩
      rw [hserving req hworker]
      exact fun h => nomatch h
    · cases hstep
  | lateAnswer req msg =>
    simp only [serverStep] at hstep
    split at hstep <;> cases hstep
    exact ⟨htail, hhead, hbalance, hroom, hgated, hslot, hbusy, hbound, hserving, hcurrent,
      fun other hother => hdeferred other (List.mem_of_mem_erase hother)⟩
  | _ => cases hstep

theorem inv_step {maxMsg : Nat} (s : RingState) (event : RingEvent) (s' : RingState) (h : Inv s)
    (hstep : step maxMsg s event = some s') : Inv s' := by
  unfold step at hstep
  split at hstep
  all_goals first
    | exact inv_rx h hstep
    | exact inv_worker h hstep
    | exact inv_server h hstep

/-! ## Destinations -/

def answered (s : RingState) : RingEvent → Option (Req × List UInt8)
  | .answer msg =>
      match s.worker with
      | .serving req => some (req, msg)
      | _ => none
  | .lateAnswer req msg => if req ∈ s.deferred then some (req, msg) else none
  | _ => none

/-- What the event transmits goes to the peer whose T-message it answers. -/
def Routed (s : RingState) (event : RingEvent) : Prop :=
  ∀ req msg, answered s event = some (req, msg) → ∀ dst, mesh9pSend s msg = some dst → dst = req.peer

instance (s : RingState) (event : RingEvent) : Decidable (Routed s event) :=
  match hanswered : answered s event with
  | none => .isTrue fun _ _ h => nomatch hanswered.symm.trans h
  | some (req, msg) =>
      decidable_of_iff (∀ dst ∈ mesh9pSend s msg, dst = req.peer) <| by
        simp [Routed, hanswered]

/-- A deferred reply that is transmitted at all meets a ring whose latest
request came from the same peer. -/
def DeferredInTurn (s : RingState) : RingEvent → Prop
  | .lateAnswer req msg => req ∈ s.deferred → typeOf msg ≠ 119 →
      ∀ latest, s.dequeued = some latest → latest.peer = req.peer
  | _ => True

/-- In a reachable state an event is routed exactly if it is no deferred reply
out of turn. -/
theorem Inv.routed_iff {s : RingState} (h : Inv s) (event : RingEvent) :
    Routed s event ↔ DeferredInTurn s event := by
  cases event with
  | answer msg =>
    refine iff_of_true (fun req other hanswered dst hdst => ?_) trivial
    simp only [answered] at hanswered
    split at hanswered
    · rename_i served hworker
      cases hanswered
      unfold mesh9pSend at hdst
      split at hdst
      · cases hdst
      · cases hdst
        exact h.current _ (h.serving _ hworker)
    · cases hanswered
  | lateAnswer req msg =>
    constructor
    · intro hrouted hmem htype latest hlatest
      have hdst : mesh9pSend s msg = some s.curPeer := if_neg htype
      have hpeer := hrouted req msg (if_pos hmem) s.curPeer hdst
      rw [← h.current latest hlatest]
      exact hpeer
    · intro hturn other msg' hanswered dst hdst
      simp only [answered] at hanswered
      split at hanswered
      · rename_i hmem
        cases hanswered
        unfold mesh9pSend at hdst
        split at hdst
        · cases hdst
        · rename_i htype
          cases hdst
          obtain ⟨latest, hlatest⟩ := Option.ne_none_iff_exists'.mp (h.deferred req hmem)
          rw [h.current latest hlatest]
          exact hturn hmem htype latest hlatest
      · cases hanswered
  | _ => exact iff_of_true (fun _ _ hanswered => nomatch hanswered) trivial

/-- Every interleaving of the receive thread, the worker, the server and its
deferred replies: all replies go to the peers they answer exactly if each
deferred one is sent while the request dequeued last came from the same peer. -/
theorem replies_routed_iff (maxMsg : Nat) (events : List RingEvent) :
    Along (step maxMsg) Routed .init events ↔ Along (step maxMsg) DeferredInTurn .init events :=
  ⟨along_of_invariant (fun s event s' h _ => inv_step s event s' h)
      (fun _ event h hrouted => (Inv.routed_iff h event).mp hrouted) inv_init,
    along_of_invariant (fun s event s' h _ => inv_step s event s' h)
      (fun _ event h hturn => (Inv.routed_iff h event).mpr hturn) inv_init⟩

/-- One peer's read of a data file is deferred, another peer's Tread is served,
and the deferred reply goes to that one. -/
theorem deferred_reply_misrouted :
    ¬ ∀ events : List RingEvent, Along (step 512) Routed .init events := by
  intro hclaim
  let first : Req := ⟨⟨[2, 0, 0, 0, 0, 1], rfl⟩, frame 116 1 (leBytes 4 3 ++ leBytes 8 0 ++ leBytes 4 99), 0⟩
  let second : Req := ⟨⟨[2, 0, 0, 0, 0, 2], rfl⟩, tVersion 512, 1⟩
  let arrive (req : Req) : List RingEvent := [.frame req, .reserve, .copy, .commit, .submit]
  let served (outcome : RingEvent) : List RingEvent :=
    [.start, .check, .bind, .serve, outcome, .finish, .advance, .release, .check]
  have hrouted := hclaim (arrive first ++ served .defer ++ arrive second ++
    served (.answer (frame 101 0xffff [])) ++ [.lateAnswer first (frame 117 1 (leBytes 4 1 ++ [0]))])
  revert hrouted
  decide +kernel

end DectMesh.Mesh9p
