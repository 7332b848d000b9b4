import DectMesh.Lib.History
import DectMesh.Mesh9p.Ring

/-! The status callback of the 9151's DFU. It takes a callback for one of an image
that comes over the mesh while the mesh server serves any request at all. -/
namespace DectMesh.Mesh9p

open DectMesh.Lib DectMesh.Aether

inductive DfuState where
  | erasing
  | receiving
  | complete
  | error
  | other
  deriving DecidableEq

/-- `dfu_status` behind its look at the serving flag: the argument of its call of
`aether_mesh_set_dfu_active`, if it makes one. -/
def dfuStatus (serving : Bool) (state : DfuState) : Option Bool :=
  if serving then none
  else match state with
    | .erasing | .receiving => some true
    | .complete | .error => some false
    | .other => none

/-- The ring with its worker, the callback that the UART server's thread is in
once it has read the flag, and the calls of `aether_mesh_set_dfu_active`. -/
structure DfuNode where
  ring : RingState
  wired : Option (DfuState × Bool)
  calls : List Bool

def DfuNode.init : DfuNode := ⟨.init, none, []⟩

/-- A step of the ring, a callback of the wired DFU up to its look at the flag and
past it, and a callback of an image that the mesh server is being sent. -/
inductive DfuEvent where
  | ring (event : RingEvent)
  | callback (state : DfuState)
  | act
  | meshCallback (state : DfuState)
  deriving DecidableEq

def DfuEvent.isWired : DfuEvent → Bool
  | .callback _ | .act => true
  | _ => false

def Worker.isServing : Worker → Bool
  | .serving _ => true
  | _ => false

def dfuStep (maxMsg : Nat) (s : DfuNode) : DfuEvent → Option DfuNode
  | .ring event => (step maxMsg s.ring event).map fun ring => { s with ring := ring }
  | .callback state => if s.wired = none then some { s with wired := some (state, s.ring.flag) } else none
  | .act =>
      match s.wired with
      | some (state, serving) =>
          some { s with wired := none, calls := s.calls ++ (dfuStatus serving state).toList }
      | none => none
  | .meshCallback state =>
      if s.ring.worker.isServing then some { s with calls := s.calls ++ (dfuStatus s.ring.flag state).toList }
      else none

/-- The last call of `aether_mesh_set_dfu_active` was with `false`, or none was
with `true`. -/
def Resumed (calls : List Bool) : Prop := calls.getLast? = some false ∨ true ∉ calls

instance (calls : List Bool) : Decidable (Resumed calls) := inferInstanceAs (Decidable (_ ∨ _))

@[simp] theorem resumed_append_false (calls : List Bool) : Resumed (calls ++ [false]) := .inl (by simp)

/-! ## The flag -/

def Flagged (s : RingState) : Prop := s.flag = s.worker.isServing

theorem flagged_rx (maxMsg : Nat) {s s' : RingState} {event : RingEvent} (h : Flagged s)
    (hstep : rxStep maxMsg s event = some s') : Flagged s' := by
  cases rxStep_move hstep <;> exact h

theorem flagged_worker {s s' : RingState} {event : RingEvent} (h : Flagged s)
    (hstep : workerStep s event = some s') : Flagged s' := by
  unfold Flagged at h
  cases workerStep_move hstep with
  | start hworker | load hworker | park hworker | bind hworker | advance hworker | release hworker =>
    rw [hworker] at h
    exact h
  | serve | finish => rfl

theorem flagged_server {s s' : RingState} {event : RingEvent} (h : Flagged s)
    (hstep : serverStep s event = some s') : Flagged s' := by
  cases event with
  | answer | defer | lateAnswer =>
    simp only [serverStep] at hstep
    split at hstep <;> cases hstep
    exact h
  | _ => cases hstep

theorem flagged_step {maxMsg : Nat} {s s' : RingState} {event : RingEvent} (h : Flagged s)
    (hstep : step maxMsg s event = some s') : Flagged s' := by
  unfold step at hstep
  split at hstep
  all_goals first
    | exact flagged_rx maxMsg h hstep
    | exact flagged_worker h hstep
    | exact flagged_server h hstep

theorem flagged_dfu {maxMsg : Nat} (s : DfuNode) (event : DfuEvent) (s' : DfuNode) (h : Flagged s.ring)
    (hstep : dfuStep maxMsg s event = some s') : Flagged s'.ring := by
  cases event with
  | ring event =>
    obtain ⟨ring, hring, rfl⟩ := Option.map_eq_some_iff.mp hstep
    exact flagged_step h hring
  | callback | meshCallback =>
    simp only [dfuStep] at hstep
    split at hstep <;> cases hstep
    exact h
  | act =>
    simp only [dfuStep] at hstep
    split at hstep <;> cases hstep
    exact h

/-! ## Without the wired thread -/

theorem quiet_step {maxMsg : Nat} {s s' : DfuNode} {event : DfuEvent} (h : Flagged s.ring)
    (hevent : event.isWired = false) (hstep : dfuStep maxMsg s event = some s') :
    s'.wired = s.wired ∧ s'.calls = s.calls := by
  cases event with
  | ring event =>
    obtain ⟨ring, -, rfl⟩ := Option.map_eq_some_iff.mp hstep
    exact ⟨rfl, rfl⟩
  | meshCallback state =>
    simp only [dfuStep] at hstep
    split at hstep
    · rename_i hserving
      cases hstep
      refine ⟨rfl, ?_⟩
      dsimp only
      rw [show s.ring.flag = true from h.trans hserving]
      exact List.append_nil _
    · cases hstep
  | callback | act => cases hevent

theorem quiet_run {maxMsg : Nat} {s s' : DfuNode} {events : List DfuEvent} (h : Flagged s.ring)
    (hevents : ∀ event ∈ events, event.isWired = false) (hrun : run (dfuStep maxMsg) s events = some s') :
    Flagged s'.ring ∧ s'.wired = s.wired ∧ s'.calls = s.calls := by
  induction events generalizing s with
  | nil =>
    cases Option.some.inj hrun
    exact ⟨h, rfl, rfl⟩
  | cons event rest ih =>
    obtain ⟨next, hnext, hrest⟩ := run_cons_eq_some.mp hrun
    rw [List.forall_mem_cons] at hevents
    obtain ⟨hwired, hcalls⟩ := quiet_step h hevents.1 hnext
    obtain ⟨hflagged, hwired', hcalls'⟩ := ih (flagged_dfu s event next h hnext) hevents.2 hrest
    exact ⟨hflagged, hwired'.trans hwired, hcalls'.trans hcalls⟩

theorem flagged_init : Flagged RingState.init := rfl

theorem callback_calls {maxMsg : Nat} {s last : DfuNode} {state : DfuState} {between after : List DfuEvent}
    (h : Flagged s.ring) (hbetween : ∀ event ∈ between, event.isWired = false)
    (hafter : ∀ event ∈ after, event.isWired = false)
    (hrun : run (dfuStep maxMsg) s (.callback state :: between ++ .act :: after) = some last) :
    last.calls = s.calls ++ (dfuStatus s.ring.flag state).toList := by
  obtain ⟨loaded, hload, hrest⟩ := run_cons_eq_some.mp hrun
  obtain ⟨ready, hready, hrest⟩ := run_append_eq_some.mp hrest
  obtain ⟨acted, hact, hrest⟩ := run_cons_eq_some.mp hrest
  have hloaded := flagged_dfu s _ loaded h hload
  simp only [dfuStep] at hload
  split at hload <;> cases hload
  obtain ⟨hflagged, hwired, hcalls⟩ := quiet_run hloaded hbetween hready
  have hacted := flagged_dfu ready _ acted hflagged hact
  simp only [dfuStep, hwired] at hact
  cases hact
  rw [(quiet_run hacted hafter hrest).2.2]
  exact congrArg (· ++ (dfuStatus s.ring.flag state).toList) hcalls

/-- Every interleaving of the wired callbacks with the mesh server: behind the
last COMPLETE or ERROR the mesh is not left quiesced, exactly if that callback
found no mesh request being served, or the mesh not quiesced. -/
theorem wired_dfu_resumes_iff (maxMsg : Nat) {before between after : List DfuEvent} {final : DfuState}
    {s last : DfuNode} (hfinal : final = .complete ∨ final = .error)
    (hbetween : ∀ event ∈ between, event.isWired = false) (hafter : ∀ event ∈ after, event.isWired = false)
    (hbefore : run (dfuStep maxMsg) .init before = some s)
    (hrun : run (dfuStep maxMsg) s (.callback final :: between ++ .act :: after) = some last) :
    Resumed last.calls ↔ s.ring.flag = false ∨ Resumed s.calls := by
  have hflagged : Flagged s.ring :=
    run_invariant _ (fun s event s' h (_ : True) => flagged_dfu s event s' h) flagged_init (along_true _ _) hbefore
  rw [callback_calls hflagged hbetween hafter hrun]
  cases hflag : s.ring.flag with
  | true => simp [dfuStatus]
  | false =>
    have hcall : dfuStatus false final = some false := by rcases hfinal with rfl | rfl <;> rfl
    rw [hcall]
    exact iff_of_true (resumed_append_false _) (.inl rfl)

def meshRequest : List DfuEvent :=
  [.ring (.frame ⟨.zero, tVersion 512, 0⟩), .ring .reserve, .ring .copy, .ring .commit, .ring .submit, .ring .start,
    .ring .check, .ring .bind, .ring .serve]

def wiredImage : List DfuEvent := [.callback .erasing, .act, .callback .receiving, .act] ++ meshRequest

theorem wired_dfu_resumes_unserved : ∃ s last, run (dfuStep 512) .init (wiredImage ++ [.ring .finish]) = some s ∧
    run (dfuStep 512) s (.callback .complete :: [] ++ .act :: []) = some last ∧
      (Resumed last.calls ↔ s.ring.flag = false ∨ Resumed s.calls) := by
  obtain ⟨s, hs⟩ : ∃ s, run (dfuStep 512) .init (wiredImage ++ [.ring .finish]) = some s := ⟨_, rfl⟩
  obtain ⟨last, hlast⟩ : ∃ last, run (dfuStep 512) s (.callback .complete :: [] ++ .act :: []) = some last := by
    cases hs
    exact ⟨_, rfl⟩
  exact ⟨s, last, hs, hlast, wired_dfu_resumes_iff 512 (.inl rfl) (by simp) (by simp) hs hlast⟩

/-- The last chunk is written while the mesh server serves a request. -/
theorem wired_dfu_stays_quiesced :
    ∃ last, run (dfuStep 512) .init (wiredImage ++ [.callback .complete, .act, .ring .finish]) = some last ∧
      last.calls = [true, true] ∧ ¬ Resumed last.calls :=
  ⟨_, rfl, rfl, by decide⟩

end DectMesh.Mesh9p
