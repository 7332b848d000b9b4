import DectMesh.Relay.LinkLog

/-! The root fids that the relay's Tattaches leave on the 9151. A root fid is
never clunked: only a Tversion, or a reboot of the 9151, ends it. -/
namespace DectMesh.Relay

open DectMesh.Lib

inductive SessionEvent where
  | relay (event : Event)
  | reboot
  deriving DecidableEq

def sessionStep (chunk : Nat) (s : RelayState) : SessionEvent → Option RelayState
  | .relay event => step chunk s event
  | .reboot => some s

def LinkEntry.hold (held : List Nat) : LinkEntry → List Nat
  | .reattach (some root) | .attach (some root) => root :: held
  | .version true => []
  | _ => held

def noteRoots (s : RelayState) (event : SessionEvent) (held : List Nat) : List Nat :=
  match event with
  | .relay event => (event.entries s.link).foldl LinkEntry.hold held
  | .reboot => []

def Handshake.Rejoins (h : Handshake) (link : Link) : Prop :=
  link.attached = false ∧ link.versioned = true ∧ h.reattach ≠ none

instance (h : Handshake) (link : Link) : Decidable (h.Rejoins link) := inferInstanceAs (Decidable (_ ∧ _))

/-- A re-Tattach succeeds only on a session that has lost its root fid. -/
def RootLost (s : RelayState × List Nat) : SessionEvent → Prop
  | .relay event => ∀ h, event.handshake = some h → h.Rejoins s.1.link → s.2 = []
  | .reboot => True

theorem sends_hold {h : Handshake} {link : Link} (held : List Nat) :
    (h.sends link).foldl LinkEntry.hold held =
      if link.attached then held
      else match if link.versioned then h.reattach else none with
        | some root => root :: held
        | none => if h.version then h.attach.toList else held := by
  unfold Handshake.sends Handshake.negotiation
  cases link.attached with
  | true => rfl
  | false =>
    cases link.versioned with
    | false =>
      cases h.version with
      | false => rfl
      | true => cases h.attach <;> rfl
    | true =>
      cases h.reattach with
      | some root => rfl
      | none =>
        cases h.version with
        | false => rfl
        | true => cases h.attach <;> rfl

theorem sends_bounded {h : Handshake} {link : Link} {held : List Nat} (hheld : held.length ≤ 1)
    (hlost : h.Rejoins link → held = []) : ((h.sends link).foldl LinkEntry.hold held).length ≤ 1 := by
  rw [sends_hold]
  split
  · exact hheld
  · rename_i hdown
    split
    · rename_i root hroot
      split at hroot
      · rename_i hversioned
        rw [hlost ⟨Bool.eq_false_iff.mpr hdown, hversioned, by simp [hroot]⟩]
        exact Nat.le_refl 1
      · cases hroot
    · split
      · cases h.attach with
        | none => exact Nat.zero_le 1
        | some root => exact Nat.le_refl 1
      · exact hheld

/-- The old root fid stays beside the new one. -/
theorem sends_unbounded {h : Handshake} {link : Link} {held : List Nat} (hrejoins : h.Rejoins link)
    (hheld : held ≠ []) : 1 < ((h.sends link).foldl LinkEntry.hold held).length := by
  obtain ⟨hdown, hversioned, hsome⟩ := hrejoins
  obtain ⟨root, hroot⟩ := Option.ne_none_iff_exists'.mp hsome
  rw [sends_hold, hdown, hversioned, hroot]
  exact Nat.succ_lt_succ (List.length_pos_iff.mpr hheld)

theorem noteRoots_relay (s : RelayState) (event : Event) (held : List Nat) :
    noteRoots s (.relay event) held = match event.handshake with
      | some h => (h.sends s.link).foldl LinkEntry.hold held
      | none => held := by
  unfold noteRoots
  dsimp only
  unfold Event.entries
  cases event.handshake with
  | some h => rfl
  | none =>
    dsimp only
    split <;> rfl

def OneRoot (t : RelayState × List Nat) : Prop := t.2.length ≤ 1

instance (t : RelayState × List Nat) : Decidable (OneRoot t) := inferInstanceAs (Decidable (_ ≤ _))

theorem oneRoot_kept {chunk : Nat} (t : RelayState × List Nat) (event : SessionEvent) (t' : RelayState × List Nat)
    (hone : OneRoot t) (hlost : RootLost t event)
    (hstep : recording (sessionStep chunk) noteRoots t event = some t') : OneRoot t' := by
  obtain ⟨-, hheld⟩ := recording_eq_some.mp hstep
  unfold OneRoot
  rw [hheld]
  cases event with
  | reboot => exact Nat.zero_le 1
  | relay event =>
    rw [noteRoots_relay]
    split
    · rename_i h hsome
      exact sends_bounded hone (hlost h hsome)
    · exact hone

theorem oneRoot_broken {chunk : Nat} (t : RelayState × List Nat) (event : SessionEvent)
    (t' : RelayState × List Nat) (_hone : OneRoot t) (hlost : ¬ RootLost t event)
    (hstep : recording (sessionStep chunk) noteRoots t event = some t') : ¬ OneRoot t' := by
  obtain ⟨-, hheld⟩ := recording_eq_some.mp hstep
  unfold OneRoot
  rw [hheld]
  cases event with
  | reboot => exact absurd trivial hlost
  | relay event =>
    unfold RootLost at hlost
    push Not at hlost
    obtain ⟨h, hsome, hrejoins, hheld⟩ := hlost
    rw [noteRoots_relay, hsome]
    exact Nat.not_le.mpr (sends_unbounded hrejoins hheld)

/-- Every run of the relay's threads and the 9151: there is never more than one
root fid on the session exactly if no re-Tattach succeeds on a session that still
holds one. -/
theorem root_fids_bounded_iff (chunk : Nat) {events : List SessionEvent} {last : RelayState × List Nat}
    (hrun : run (recording (sessionStep chunk) noteRoots) (.init, []) events = some last) :
    (∀ t, Visits (recording (sessionStep chunk) noteRoots) (.init, []) events t → OneRoot t) ↔
      Along (recording (sessionStep chunk) noteRoots) RootLost (.init, []) events :=
  visits_iff_along (fun _ hone => hone) oneRoot_kept oneRoot_broken (Nat.zero_le 1) hrun

def rewalkRebooted : List SessionEvent :=
  [.relay (.begin 0 .read), .relay (.host 0 (.handshake ⟨none, true, some 1⟩)), .reboot,
    .relay (.host 0 .failed), .relay (.host 0 (.handshake ⟨some 2, false, none⟩))]

theorem root_fids_bounded_rebooted :
    (∀ t, Visits (recording (sessionStep 384) noteRoots) (.init, []) rewalkRebooted t → OneRoot t) ↔
      Along (recording (sessionStep 384) noteRoots) RootLost (.init, []) rewalkRebooted := by
  obtain ⟨last, hrun⟩ :
      ∃ last, run (recording (sessionStep 384) noteRoots) (.init, []) rewalkRebooted = some last := ⟨_, rfl⟩
  exact root_fids_bounded_iff 384 hrun

def rewalkMissing : List SessionEvent :=
  [.relay (.begin 0 .read), .relay (.host 0 (.handshake ⟨none, true, some 1⟩)), .relay (.host 0 .failed),
    .relay (.host 0 (.handshake ⟨some 2, false, none⟩))]

theorem root_fids_leak :
    ¬ ∀ t, Visits (recording (sessionStep 384) noteRoots) (.init, []) rewalkMissing t → OneRoot t := by
  intro hall
  have htwo : ∃ s, Visits (recording (sessionStep 384) noteRoots) (.init, []) rewalkMissing (s, [2, 1]) :=
    ⟨_, rewalkMissing, List.prefix_rfl, rfl⟩
  obtain ⟨s, hvisit⟩ := htwo
  exact Nat.not_succ_le_self 1 (hall _ hvisit)

end DectMesh.Relay
