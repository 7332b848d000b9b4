import DectMesh.Relay.Tunnel

/-! The nested session against the conversation under it. `mesh9p_remote_down` and
`fw_write_mesh_peer` clear `mesh9p_attached` in one section and disconnect in
another, and a redial can come between the two. -/
namespace DectMesh.Relay

open DectMesh.Lib

/-- With no call between its sections: what is attached is connected, to the peer
that is selected. -/
def Matched (s : Tunnel) : Prop :=
  s.dial = .idle → s.leaving = 0 → s.attached = true →
    s.transport.connected = true ∧ s.transport.peer = s.peer

instance (s : Tunnel) : Decidable (Matched s) := inferInstanceAs (Decidable (_ → _ → _ → _ ∧ _))

/-- No redial is taken down by a call that began before it. -/
structure NotOvertaken (s : Tunnel) (event : TunnelEvent) : Prop where
  /-- The last pending disconnect finds nothing attached. -/
  disconnect : event = .disconnect → s.leaving = 1 → s.attached = false
  /-- A dial attaches with its conversation still there, or with a disconnect yet
  to come. -/
  attach : ∀ root, event = .dialAttach (some root) → s.transport.connected = true ∨ 0 < s.leaving

/-- Past `aether_conv_transport_connect`. -/
def Dial.connected : Dial → Bool
  | .version | .attach => true
  | _ => false

structure Selected (s : Tunnel) : Prop where
  idle : s.attached = true → s.dial = .idle
  up : s.attached = true → s.transport.connected = true ∨ 0 < s.leaving
  peer : s.attached = true ∨ s.dial.connected = true → s.transport.connected = true → s.transport.peer = s.peer

theorem selected_init : Selected .init := ⟨nofun, nofun, fun _ h => absurd h (by decide)⟩

theorem Selected.matched {s : Tunnel} (h : Selected s) : Matched s := by
  intro _ hleaving hattached
  have hup := (h.up hattached).resolve_right (by omega)
  exact ⟨hup, h.peer (.inl hattached) hup⟩

theorem Selected.same {s s' : Tunnel} (h : Selected s) (hattached : s'.attached = s.attached)
    (hdial : s'.dial = s.dial) (hleaving : s'.leaving = s.leaving) (htransport : s'.transport = s.transport)
    (hpeer : s'.peer = s.peer) : Selected s' := by
  constructor
  · rw [hattached, hdial]
    exact h.idle
  · rw [hattached, htransport, hleaving]
    exact h.up
  · rw [hattached, hdial, htransport, hpeer]
    exact h.peer

theorem Selected.dialing {s s' : Tunnel} (h : Selected s) (hbusy : s.dial ≠ .idle)
    (hattached : s'.attached = s.attached)
    (hpeer : s'.dial.connected = true → s'.transport.connected = true → s'.transport.peer = s'.peer) :
    Selected s' := by
  have hdown : ¬ s'.attached = true := by
    rw [hattached]
    exact fun hup => hbusy (h.idle hup)
  exact ⟨fun hup => absurd hup hdown, fun hup => absurd hup hdown, fun hup => hpeer (hup.resolve_left hdown)⟩

/-- The conversation that a dial keeps or publishes is the one with the selected
peer. -/
theorem selected_dial {s s' : Tunnel} {event : TunnelEvent} (h : Selected s) (hgood : NotOvertaken s event)
    (hstep : dialStep s event = some s') : Selected s' := by
  cases dialStep_move hstep with
  | unneeded => exact h
  | call _ hcall =>
    have hdown : ¬ s.attached = true := fun hup => hcall (.inr hup)
    exact ⟨fun hup => absurd hup hdown, fun hup => absurd hup hdown, fun hup => hup.elim
      (fun hup => absurd hup hdown) nofun⟩
  | keep _ hdial hsame => exact h.dialing (by simp [hdial]) rfl fun _ _ => hsame.2
  | publish _ _ _ hdial => exact h.dialing (by simp [hdial]) rfl fun _ _ => rfl
  | version hdial =>
    have hpeer := h.peer (.inr (by rw [hdial]; rfl))
    exact h.dialing (by simp [hdial]) rfl fun _ => hpeer
  | attach root hdial =>
    have hpeer := h.peer (.inr (by rw [hdial]; rfl))
    exact ⟨fun _ => rfl, fun _ => hgood.attach root rfl, fun _ => hpeer⟩
  | link _ _ hdial | noLink _ hdial | redial _ hdial | drop _ hdial | clone _ _ hdial | noClone _ hdial
  | data _ _ _ _ hdial | noData _ _ hdial | connect _ _ _ hdial | noConnect _ _ _ hdial | noVersion hdial
  | noAttach hdial =>
    exact h.dialing (by simp [hdial]) rfl nofun

theorem selected_step (s : Tunnel) (event : TunnelEvent) (s' : Tunnel) (h : Selected s)
    (hgood : NotOvertaken s event) (hstep : tunnelStep s event = some s') : Selected s' := by
  cases event with
  | ensure | linkDown | reset | unlink =>
    cases hstep
    exact h.same rfl rfl rfl rfl rfl
  | pumpTake | pumpWrite | pumpEnd =>
    simp only [tunnelStep, pumpStep] at hstep
    split at hstep <;> cases hstep
    exact h.same rfl rfl rfl rfl rfl
  | peerWrite | downCall =>
    simp only [tunnelStep, leaveStep] at hstep
    split at hstep
    · rename_i hdial
      cases hstep
      exact ⟨nofun, nofun, fun hup => by simp [hdial, Dial.connected] at hup⟩
    · cases hstep
  | disconnect =>
    simp only [tunnelStep, leaveStep] at hstep
    split at hstep
    · cases hstep
    · rename_i hleaving
      cases hstep
      refine ⟨h.idle, fun hup => .inr ?_, fun _ => nofun⟩
      have hlast : s.leaving ≠ 1 := fun hone => by
        rw [hgood.disconnect rfl hone] at hup
        cases hup
      show 0 < s.leaving - 1
      omega
  | rootCall | dialLink | dialCheck | dialDrop | dialClone | dialData | dialConnect | dialPublish | dialVersion |
    dialAttach => exact selected_dial h hgood hstep

theorem matched_broken (s : Tunnel) (event : TunnelEvent) (s' : Tunnel) (h : Selected s)
    (hbad : ¬ NotOvertaken s event) (hstep : tunnelStep s event = some s') : ¬ Matched s' := by
  intro hmatched
  apply hbad
  constructor
  · rintro rfl hone
    simp only [tunnelStep, leaveStep, hone] at hstep
    cases hstep
    by_contra hup
    rw [Bool.not_eq_false] at hup
    exact absurd (hmatched (h.idle hup) rfl hup).1 (by simp [Transport.disconnect])
  · rintro root rfl
    simp only [tunnelStep, dialStep] at hstep
    split at hstep
    · cases hstep
      by_contra hdown
      push Not at hdown
      exact hdown.1 (hmatched rfl (by simpa using hdown.2) rfl).1
    · cases hstep

/-- Every run of peer writes, dials and downs of any threads: the attachment
matches the selected peer in every state with no call between its sections,
exactly if no last pending disconnect comes behind a redial that attached, and no
redial attaches behind the last pending disconnect that took its conversation. -/
theorem attachment_matches_iff {events : List TunnelEvent} {last : Tunnel}
    (hrun : run tunnelStep .init events = some last) :
    (∀ s, Visits tunnelStep .init events s → Matched s) ↔ Along tunnelStep NotOvertaken .init events :=
  visits_iff_along (fun _ h => h.matched) selected_step matched_broken selected_init hrun

def dialAndDown : List TunnelEvent := dialing ++ [.downCall, .disconnect]

theorem attachment_matches_down :
    (∀ s, Visits tunnelStep .init dialAndDown s → Matched s) ↔ Along tunnelStep NotOvertaken .init dialAndDown := by
  obtain ⟨last, hrun⟩ : ∃ last, run tunnelStep .init dialAndDown = some last := ⟨_, rfl⟩
  exact attachment_matches_iff hrun

/-- The peer is selected, another thread dials it, and then the write
disconnects. -/
def dialBetween : List TunnelEvent :=
  [.peerWrite [0x33, 0x30, 0x3a, 0x30, 0x30], .rootCall, .dialLink ⟨none, true, some 1⟩, .dialCheck, .dialDrop,
    .dialClone (some 2), .dialData (some (0, 3)), .dialConnect true, .dialPublish, .dialVersion true,
    .dialAttach (some 4), .disconnect]

theorem attached_without_conversation :
    ∃ s, Visits tunnelStep .init dialBetween s ∧ ¬ Matched s ∧ s.attached = true ∧ s.transport.connected = false :=
  ⟨_, ⟨dialBetween, List.prefix_rfl, rfl⟩, by decide, rfl, rfl⟩

end DectMesh.Relay
