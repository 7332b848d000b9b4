import DectMesh.Aether.MeshClient
import DectMesh.Lib.Run

/-! The request ring of the 9P server on the mesh. The receive thread passes a
frame through the ack gate and then fills and commits a slot; the worker serves
the slot at the head and releases it. Each statement that another thread can
come between is a step of its own. -/
namespace DectMesh.Mesh9p

open DectMesh.Lib DectMesh.Aether

def ringSize : Nat := 8

/-- `struct mesh9p_req`. `id` is history: which accepted frame it is. -/
structure Req where
  peer : Addr
  buf : List UInt8
  id : Nat
  deriving DecidableEq

inductive RxThread where
  | idle
  | gated (req : Req)
  | reserved (slot : Nat) (req : Req)
  | copied
  | counted
  deriving DecidableEq

/-- Where the worker stands. `serving` is the server's receive callback, which
reads the request from its slot. -/
inductive Worker where
  | parked
  | checking
  | loaded
  | bound
  | serving (req : Req)
  | served
  | advanced
  deriving DecidableEq

/-- The globals of the ring. `deferred` are the requests whose reply the server
has put off. `accepted` is history, the requests in the order in which slots
were reserved, and so are `dequeued`, the latest request taken from the ring,
and the numbers of slots reserved and released. -/
structure RingState where
  ring : Nat → Req
  head : Nat
  tail : Nat
  count : Nat
  curPeer : Addr
  flag : Bool
  queued : Bool
  rx : RxThread
  worker : Worker
  deferred : List Req
  accepted : List Req
  released : Nat
  dequeued : Option Req

def RingState.init : RingState where
  ring := fun _ => ⟨.zero, [], 0⟩
  head := 0
  tail := 0
  count := 0
  curPeer := .zero
  flag := false
  queued := false
  rx := .idle
  worker := .parked
  deferred := []
  accepted := []
  released := 0
  dequeued := none

/-- Framed length and an even type from Tversion to Twstat. -/
def looksLike9pT (maxMsg : Nat) (data : List UInt8) : Bool :=
  7 ≤ data.length && data.length ≤ maxMsg && leNat (data.take 4) = data.length &&
    100 ≤ typeOf data && typeOf data ≤ 126 && typeOf data &&& 1 = 0

theorem looksLike9pT_frame {maxMsg : Nat} {type : UInt8} {tag : Nat} {body : List UInt8} :
    looksLike9pT maxMsg (frame type tag body) = true ↔
      7 + body.length ≤ maxMsg ∧ 7 + body.length < 4294967296 ∧ 100 ≤ type ∧ type ≤ 126 ∧ type &&& 1 = 0 := by
  unfold looksLike9pT
  simp only [size_frame, length_frame, typeOf_frame, Bool.and_eq_true, decide_eq_true_eq]
  have hmod : (7 + body.length) % 4294967296 = 7 + body.length ↔ 7 + body.length < 4294967296 := by omega
  rw [hmod]
  have hlong : 7 ≤ 7 + body.length := Nat.le_add_right 7 _
  tauto

inductive RingEvent where
  | frame (req : Req)
  | reserve
  | copy
  | commit
  | submit
  | start
  | check
  | bind
  | serve
  | answer (msg : List UInt8)
  | defer
  | finish
  | advance
  | release
  | lateAnswer (req : Req) (msg : List UInt8)
  deriving DecidableEq

/-- The receive thread: `mesh9p_ack_gate`, then `mesh9p_recv_cb`. -/
def rxStep (maxMsg : Nat) (s : RingState) : RingEvent → Option RingState
  | .frame req =>
      if s.rx = .idle then
        some (if looksLike9pT maxMsg req.buf ∧ s.count < ringSize then { s with rx := .gated req } else s)
      else none
  | .reserve =>
      match s.rx with
      | .gated req =>
          some (if ringSize ≤ s.count then { s with rx := .idle }
            else { s with
              rx := .reserved s.tail req
              tail := (s.tail + 1) % ringSize
              accepted := s.accepted ++ [req] })
      | _ => none
  | .copy =>
      match s.rx with
      | .reserved slot req => some { s with ring := Function.update s.ring slot req, rx := .copied }
      | _ => none
  | .commit => if s.rx = .copied then some { s with count := s.count + 1, rx := .counted } else none
  | .submit => if s.rx = .counted then some { s with queued := true, rx := .idle } else none
  | _ => none

/-- The worker: `mesh9p_work_fn`. -/
def workerStep (s : RingState) : RingEvent → Option RingState
  | .start =>
      if s.worker = .parked ∧ s.queued then some { s with queued := false, worker := .checking } else none
  | .check =>
      if s.worker = .checking then some { s with worker := if 0 < s.count then .loaded else .parked }
      else none
  | .bind =>
      if s.worker = .loaded then
        some { s with curPeer := (s.ring s.head).peer, dequeued := some (s.ring s.head), worker := .bound }
      else none
  | .serve =>
      if s.worker = .bound then some { s with flag := true, worker := .serving (s.ring s.head) } else none
  | .finish =>
      match s.worker with
      | .serving _ => some { s with flag := false, worker := .served }
      | _ => none
  | .advance =>
      if s.worker = .served then
        some { s with head := (s.head + 1) % ringSize, released := s.released + 1, worker := .advanced }
      else none
  | .release => if s.worker = .advanced then some { s with count := s.count - 1, worker := .checking } else none
  | _ => none

/-- What the server makes of requests: an answer while it is called with the
request, or one put off to a thread of its own. -/
def serverStep (s : RingState) : RingEvent → Option RingState
  | .answer _ =>
      match s.worker with
      | .serving _ => some s
      | _ => none
  | .defer =>
      match s.worker with
      | .serving req => some { s with deferred := req :: s.deferred }
      | _ => none
  | .lateAnswer req _ =>
      if req ∈ s.deferred then some { s with deferred := s.deferred.erase req } else none
  | _ => none

def step (maxMsg : Nat) (s : RingState) (event : RingEvent) : Option RingState :=
  match event with
  | .frame _ | .reserve | .copy | .commit | .submit => rxStep maxMsg s event
  | .start | .check | .bind | .serve | .finish | .advance | .release => workerStep s event
  | .answer _ | .defer | .lateAnswer _ _ => serverStep s event

/-- `mesh9p_send`: an Rwrite goes nowhere, all else to the current peer. -/
def mesh9pSend (s : RingState) (msg : List UInt8) : Option Addr :=
  if typeOf msg = 119 then none else some s.curPeer

/-! ## What the threads can do -/

inductive RxMove (maxMsg : Nat) (s : RingState) : RingEvent → RingState → Prop where
  | enter (req : Req) (hrx : s.rx = .idle) (hpass : looksLike9pT maxMsg req.buf = true ∧ s.count < ringSize) :
      RxMove maxMsg s (.frame req) { s with rx := .gated req }
  | refuse (req : Req) (hrx : s.rx = .idle)
      (hpass : ¬(looksLike9pT maxMsg req.buf = true ∧ s.count < ringSize)) : RxMove maxMsg s (.frame req) s
  | full (req : Req) (hrx : s.rx = .gated req) (hfull : ringSize ≤ s.count) :
      RxMove maxMsg s .reserve { s with rx := .idle }
  | reserve (req : Req) (hrx : s.rx = .gated req) (hroom : s.count < ringSize) :
      RxMove maxMsg s .reserve { s with
        rx := .reserved s.tail req
        tail := (s.tail + 1) % ringSize
        accepted := s.accepted ++ [req] }
  | copy (slot : Nat) (req : Req) (hrx : s.rx = .reserved slot req) :
      RxMove maxMsg s .copy { s with ring := Function.update s.ring slot req, rx := .copied }
  | commit (hrx : s.rx = .copied) : RxMove maxMsg s .commit { s with count := s.count + 1, rx := .counted }
  | submit (hrx : s.rx = .counted) : RxMove maxMsg s .submit { s with queued := true, rx := .idle }

theorem rxStep_move {maxMsg : Nat} {s s' : RingState} {event : RingEvent}
    (hstep : rxStep maxMsg s event = some s') : RxMove maxMsg s event s' := by
  unfold rxStep at hstep
  split at hstep
  · rename_i req
    obtain ⟨hrx, hs'⟩ := Option.ite_none_right_eq_some.mp hstep
    cases hs'
    split
    · rename_i hpass
      exact .enter req hrx hpass
    · rename_i hpass
      exact .refuse req hrx hpass
  · split at hstep
    · rename_i req hrx
      cases hstep
      split
      · rename_i hfull
        exact .full req hrx hfull
      · rename_i hroom
        exact .reserve req hrx (Nat.lt_of_not_le hroom)
    · cases hstep
  · split at hstep
    · rename_i slot req hrx
      cases hstep
      exact .copy slot req hrx
    · cases hstep
  · obtain ⟨hrx, hs'⟩ := Option.ite_none_right_eq_some.mp hstep
    cases hs'
    exact .commit hrx
  · obtain ⟨hrx, hs'⟩ := Option.ite_none_right_eq_some.mp hstep
    cases hs'
    exact .submit hrx
  · cases hstep

inductive WorkerMove (s : RingState) : RingEvent → RingState → Prop where
  | start (hworker : s.worker = .parked) (hqueued : s.queued = true) :
      WorkerMove s .start { s with queued := false, worker := .checking }
  | load (hworker : s.worker = .checking) (hcount : 0 < s.count) :
      WorkerMove s .check { s with worker := .loaded }
  | park (hworker : s.worker = .checking) (hcount : s.count = 0) :
      WorkerMove s .check { s with worker := .parked }
  | bind (hworker : s.worker = .loaded) :
      WorkerMove s .bind
        { s with curPeer := (s.ring s.head).peer, dequeued := some (s.ring s.head), worker := .bound }
  | serve (hworker : s.worker = .bound) :
      WorkerMove s .serve { s with flag := true, worker := .serving (s.ring s.head) }
  | finish (req : Req) (hworker : s.worker = .serving req) :
      WorkerMove s .finish { s with flag := false, worker := .served }
  | advance (hworker : s.worker = .served) :
      WorkerMove s .advance
        { s with head := (s.head + 1) % ringSize, released := s.released + 1, worker := .advanced }
  | release (hworker : s.worker = .advanced) :
      WorkerMove s .release { s with count := s.count - 1, worker := .checking }

theorem workerStep_move {s s' : RingState} {event : RingEvent} (hstep : workerStep s event = some s') :
    WorkerMove s event s' := by
  unfold workerStep at hstep
  split at hstep
  · obtain ⟨⟨hworker, hqueued⟩, hs'⟩ := Option.ite_none_right_eq_some.mp hstep
    cases hs'
    exact .start hworker hqueued
  · obtain ⟨hworker, hs'⟩ := Option.ite_none_right_eq_some.mp hstep
    cases hs'
    split
    · rename_i hcount
      exact .load hworker hcount
    · rename_i hcount
      exact .park hworker (Nat.eq_zero_of_not_pos hcount)
  · obtain ⟨hworker, hs'⟩ := Option.ite_none_right_eq_some.mp hstep
    cases hs'
    exact .bind hworker
  · obtain ⟨hworker, hs'⟩ := Option.ite_none_right_eq_some.mp hstep
    cases hs'
    exact .serve hworker
  · split at hstep
    · rename_i req hworker
      cases hstep
      exact .finish req hworker
    · cases hstep
  · obtain ⟨hworker, hs'⟩ := Option.ite_none_right_eq_some.mp hstep
    cases hs'
    exact .advance hworker
  · obtain ⟨hworker, hs'⟩ := Option.ite_none_right_eq_some.mp hstep
    cases hs'
    exact .release hworker
  · cases hstep

end DectMesh.Mesh9p
