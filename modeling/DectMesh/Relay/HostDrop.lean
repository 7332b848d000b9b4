import DectMesh.Relay.LinkLog

/-! The USB and the BLE session of the relay on their one `mesh_client` and its
one session with the 9151, and what a USB session that drops takes from BLE. A
reset of the client aborts every outstanding request, and a Tversion clears the
9151's fid table. -/
namespace DectMesh.Relay

open DectMesh.Lib

/-- The session pool of `fw_9p_init`, with `on_disconnect`, and that of `main`. -/
inductive Pool where
  | usb
  | ble
  deriving DecidableEq

/-- The link, the requests outstanding on `mesh_client`, and the conversations
whose ctl fids are open on the 9151. `dropping` is a `mesh_host_disconnected`
between its reset and its section. -/
structure Shared where
  link : Link
  requests : List (Pool × Nat)
  convs : List (Pool × Nat)
  dropping : Bool

def Shared.init : Shared := ⟨RelayState.init.link, [], [], false⟩

inductive SharedEvent where
  | send (pool : Pool) (request : Nat)
  | answered (pool : Pool) (request : Nat)
  | clone (pool : Pool) (conv : Nat)
  | clunk (pool : Pool) (conv : Nat)
  | ensure (h : Handshake)
  | down
  | reset
  | unlink
  deriving DecidableEq

/-- The two statements of `mesh_host_disconnected` are `reset` and `unlink`; only
the USB pool calls it. -/
def sharedStep (s : Shared) : SharedEvent → Option Shared
  | .send pool request =>
      if (pool, request) ∈ s.requests then none else some { s with requests := (pool, request) :: s.requests }
  | .answered pool request =>
      if (pool, request) ∈ s.requests then some { s with requests := s.requests.erase (pool, request) } else none
  | .clone pool conv =>
      if (pool, conv) ∈ s.convs then none else some { s with convs := (pool, conv) :: s.convs }
  | .clunk pool conv =>
      if (pool, conv) ∈ s.convs then some { s with convs := s.convs.erase (pool, conv) } else none
  | .ensure h =>
      some { s with
        link := (meshEnsureAttached h s.link).2
        convs := if h.Versions s.link then [] else s.convs }
  | .down => some { s with link := s.link.drop }
  | .reset => if s.dropping then none else some { s with requests := [], dropping := true }
  | .unlink => if s.dropping then some { s with link := s.link.reset, dropping := false } else none

/-! ## What a drop takes -/

def Keeps (pool : Pool) (before after : List (Pool × Nat)) : Prop := ∀ entry ∈ before, entry.1 = pool → entry ∈ after

/-- History: what the BLE session has sent without an answer, and cloned without
a clunk or a Tversion since; and whether a Tversion is due to a USB drop, which
made a versioned link unversioned. -/
structure BleLog where
  unanswered : List Nat
  held : List Nat
  due : Bool
  deriving DecidableEq

def BleLog.init : BleLog := ⟨[], [], false⟩

def BleLog.note (s : Shared) (event : SharedEvent) (log : BleLog) : BleLog where
  unanswered :=
    match event with
    | .send .ble request => request :: log.unanswered
    | .answered .ble request => log.unanswered.erase request
    | _ => log.unanswered
  held :=
    match event with
    | .clone .ble conv => conv :: log.held
    | .clunk .ble conv => log.held.erase conv
    | .ensure h => if h.Versions s.link then [] else log.held
    | _ => log.held
  due := !((sharedStep s event).getD s).link.versioned && (log.due || (event = .unlink && s.link.versioned))

/-- The statements of a USB drop, and a handshake on a link that it left
unversioned. -/
def SharedEvent.ofDrop (due : Bool) : SharedEvent → Bool
  | .reset | .unlink => true
  | .ensure _ => due
  | _ => false

/-- A USB drop takes nothing from the BLE session: no request that it has
outstanding and no conversation is gone behind the step. -/
def BleSpared (t : Shared × BleLog) (event : SharedEvent) : Prop :=
  ∀ s' ∈ sharedStep t.1 event, event.ofDrop t.2.due = true →
    Keeps .ble t.1.requests s'.requests ∧ Keeps .ble t.1.convs s'.convs

/-- The BLE session awaits no answer at the reset of a USB drop, and holds no
conversation at the Tversion that the drop calls for. -/
def BleAway (t : Shared × BleLog) : SharedEvent → Prop
  | .reset => t.2.unanswered = []
  | .ensure h => h.Versions t.1.link → t.2.due = true → t.2.held = []
  | _ => True

instance (pool : Pool) (before after : List (Pool × Nat)) : Decidable (Keeps pool before after) :=
  inferInstanceAs (Decidable (∀ entry ∈ before, _ → _))

instance (t : Shared × BleLog) (event : SharedEvent) : Decidable (BleSpared t event) :=
  inferInstanceAs (Decidable (∀ s' ∈ sharedStep t.1 event, _ → _))

instance (t : Shared × BleLog) : (event : SharedEvent) → Decidable (BleAway t event)
  | .reset => inferInstanceAs (Decidable (_ = _))
  | .ensure _ => inferInstanceAs (Decidable (_ → _ → _))
  | .send _ _ | .answered _ _ | .clone _ _ | .clunk _ _ | .down | .unlink => isTrue trivial

/-! ## What the session has is what it did -/

def ownedBy (pool : Pool) (all : List (Pool × Nat)) : List Nat :=
  (all.filter fun entry => entry.1 = pool).map Prod.snd

variable {pool other : Pool} {all : List (Pool × Nat)} {n : Nat}

theorem ownedBy_cons_own : ownedBy pool ((pool, n) :: all) = n :: ownedBy pool all := by simp [ownedBy]

theorem ownedBy_cons_other (h : other ≠ pool) : ownedBy pool ((other, n) :: all) = ownedBy pool all := by
  simp [ownedBy, h]

theorem ownedBy_erase_own : ownedBy pool (all.erase (pool, n)) = (ownedBy pool all).erase n := by
  induction all with
  | nil => rfl
  | cons entry rest ih =>
    obtain ⟨owner, m⟩ := entry
    by_cases howner : owner = pool
    · subst howner
      by_cases hm : m = n
      · rw [hm, List.erase_cons_head, ownedBy_cons_own, List.erase_cons_head]
      · rw [List.erase_cons_tail (by simpa using hm), ownedBy_cons_own, ownedBy_cons_own, ih,
          List.erase_cons_tail (by simpa using hm)]
    · rw [List.erase_cons_tail (by simp [howner]), ownedBy_cons_other howner, ownedBy_cons_other howner, ih]

theorem ownedBy_erase_other (h : other ≠ pool) : ownedBy pool (all.erase (other, n)) = ownedBy pool all := by
  induction all with
  | nil => rfl
  | cons entry rest ih =>
    by_cases heq : entry = (other, n)
    · rw [heq, List.erase_cons_head, ownedBy_cons_other h]
    · rw [List.erase_cons_tail (by simpa using heq)]
      obtain ⟨owner, m⟩ := entry
      by_cases howner : owner = pool
      · rw [howner, ownedBy_cons_own, ownedBy_cons_own, ih]
      · rw [ownedBy_cons_other howner, ownedBy_cons_other howner, ih]

theorem usb_ne_ble : Pool.usb ≠ .ble := nofun

theorem keeps_nil_iff : Keeps pool all [] ↔ ownedBy pool all = [] := by
  unfold Keeps ownedBy
  rw [List.map_eq_nil_iff, List.filter_eq_nil_iff]
  simp

theorem keeps_refl : Keeps pool all all := fun _ hentry _ => hentry

structure Logged (t : Shared × BleLog) : Prop where
  requests : t.2.unanswered = ownedBy .ble t.1.requests
  convs : t.2.held = ownedBy .ble t.1.convs

theorem logged_init : Logged (.init, .init) := ⟨rfl, rfl⟩

theorem logged_step (t : Shared × BleLog) (event : SharedEvent) (t' : Shared × BleLog) (h : Logged t)
    (haway : BleAway t event) (hrun : recording sharedStep BleLog.note t event = some t') : Logged t' := by
  obtain ⟨s, log⟩ := t
  obtain ⟨s', log'⟩ := t'
  obtain ⟨hstep, rfl⟩ := recording_eq_some.mp hrun
  obtain ⟨hrequests, hconvs⟩ := h
  cases event with
  | send sender request =>
    simp only [sharedStep] at hstep
    split at hstep <;> cases hstep
    refine ⟨?_, hconvs⟩
    cases sender with
    | usb => exact hrequests.trans (ownedBy_cons_other usb_ne_ble).symm
    | ble => exact (congrArg (request :: ·) hrequests).trans ownedBy_cons_own.symm
  | answered sender request =>
    simp only [sharedStep] at hstep
    split at hstep <;> cases hstep
    refine ⟨?_, hconvs⟩
    cases sender with
    | usb => exact hrequests.trans (ownedBy_erase_other usb_ne_ble).symm
    | ble => exact (congrArg (·.erase request) hrequests).trans ownedBy_erase_own.symm
  | clone owner conv =>
    simp only [sharedStep] at hstep
    split at hstep <;> cases hstep
    refine ⟨hrequests, ?_⟩
    cases owner with
    | usb => exact hconvs.trans (ownedBy_cons_other usb_ne_ble).symm
    | ble => exact (congrArg (conv :: ·) hconvs).trans ownedBy_cons_own.symm
  | clunk owner conv =>
    simp only [sharedStep] at hstep
    split at hstep <;> cases hstep
    refine ⟨hrequests, ?_⟩
    cases owner with
    | usb => exact hconvs.trans (ownedBy_erase_other usb_ne_ble).symm
    | ble => exact (congrArg (·.erase conv) hconvs).trans ownedBy_erase_own.symm
  | ensure h =>
    cases hstep
    refine ⟨hrequests, ?_⟩
    dsimp only [BleLog.note]
    split
    · rfl
    · exact hconvs
  | down =>
    cases hstep
    exact ⟨hrequests, hconvs⟩
  | reset =>
    simp only [sharedStep] at hstep
    split at hstep <;> cases hstep
    exact ⟨haway, hconvs⟩
  | unlink =>
    simp only [sharedStep] at hstep
    split at hstep <;> cases hstep
    exact ⟨hrequests, hconvs⟩

theorem away_iff_spared (t : Shared × BleLog) (event : SharedEvent) (t' : Shared × BleLog) (h : Logged t)
    (hrun : recording sharedStep BleLog.note t event = some t') : BleAway t event ↔ BleSpared t event := by
  obtain ⟨s, log⟩ := t
  obtain ⟨s', log'⟩ := t'
  have hstep := (recording_eq_some.mp hrun).1
  obtain ⟨hrequests, hconvs⟩ := h
  have hspared : BleSpared (s, log) event ↔ (event.ofDrop log.due = true →
      Keeps .ble s.requests s'.requests ∧ Keeps .ble s.convs s'.convs) := by
    unfold BleSpared
    rw [hstep]
    simp
  rw [hspared]
  cases event with
  | reset =>
    simp only [sharedStep] at hstep
    split at hstep <;> cases hstep
    change log.unanswered = [] ↔ _
    rw [show log.unanswered = _ from hrequests, ← keeps_nil_iff]
    exact ⟨fun hnone _ => ⟨hnone, keeps_refl⟩, fun h => (h rfl).1⟩
  | ensure hs =>
    cases hstep
    change (hs.Versions s.link → log.due = true → log.held = []) ↔ _
    rw [show log.held = _ from hconvs, ← keeps_nil_iff]
    by_cases hversions : hs.Versions s.link
    · rw [if_pos hversions]
      exact ⟨fun h hdue => ⟨keeps_refl, h hversions hdue⟩, fun h _ hdue => (h hdue).2⟩
    · rw [if_neg hversions]
      exact ⟨fun _ _ => ⟨keeps_refl, keeps_refl⟩, fun _ h => absurd h hversions⟩
  | unlink =>
    simp only [sharedStep] at hstep
    split at hstep <;> cases hstep
    exact iff_of_true trivial fun _ => ⟨keeps_refl, keeps_refl⟩
  | send | answered | clone | clunk | down => exact iff_of_true trivial nofun

def bleDone : List SharedEvent :=
  [.ensure ⟨none, true, some 1⟩, .clone .ble 0, .send .ble 7, .clone .usb 1, .send .usb 8, .answered .ble 7,
    .reset, .unlink, .clunk .ble 0, .send .ble 9, .ensure ⟨none, true, some 1⟩, .answered .ble 9]

/-- BLE reads from a conversation when the USB session drops. -/
def bleReading : List SharedEvent :=
  [.ensure ⟨none, true, some 1⟩, .clone .ble 0, .send .ble 7, .reset, .unlink, .ensure ⟨none, true, some 1⟩]

/-- BLE holds a conversation through the drop and the handshake behind it. -/
def bleHolding : List SharedEvent :=
  [.ensure ⟨none, true, some 1⟩, .clone .ble 0, .reset, .unlink, .ensure ⟨none, true, some 1⟩]

end DectMesh.Relay
