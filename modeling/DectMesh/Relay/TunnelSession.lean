import DectMesh.Lib.History
import DectMesh.Relay.Tunnel

/-! The fids of the tunnel against the session of the client that carries it: a
reset of `mesh_client` and a Tversion end the session, whatever the transport
still holds of it. -/
namespace DectMesh.Relay

open DectMesh.Lib

def TunnelEvent.Ends (event : TunnelEvent) (link : Link) : Prop :=
  match event with
  | .reset => True
  | .ensure h | .dialLink h => h.Versions link
  | _ => False

instance (event : TunnelEvent) (link : Link) : Decidable (event.Ends link) := by
  unfold TunnelEvent.Ends
  split <;> infer_instance

def noteStray (s : Tunnel) (event : TunnelEvent) (stray : List Fid) : List Fid :=
  if event = .pumpWrite then stray ++ s.pump.toList.filter fun fid => fid.session ≠ s.session else stray

def Transport.Opened (t : Transport) (session : Nat) : Prop :=
  ∃ ctl data, t.ctlFid = some ctl ∧ t.dataFid = some data ∧ ctl.session = session ∧ data.session = session

/-- A connected transport has fids of the current session, and the pump has
written to no others. -/
def Tied (t : Tunnel × List Fid) : Prop :=
  (t.1.transport.connected = true → t.1.transport.Opened t.1.session) ∧ t.2 = []

/-- The session outlives what is opened in it. -/
structure SessionKept (t : Tunnel × List Fid) (event : TunnelEvent) : Prop where
  ends : event.Ends t.1.link → t.1.transport.connected = false
  /-- It has not ended since the dial opened its fids. -/
  publish : event = .dialPublish → ∀ ctl data conv, t.1.dial = .publish ctl data conv →
    ctl.session = t.1.session ∧ data.session = t.1.session
  /-- It has not ended since the pump's cycle took its fid. -/
  write : event = .pumpWrite → ∀ fid, t.1.pump = some fid → fid.session = t.1.session

/-! ## What a step does to the session and the conversation -/

/-- A step that leaves the session leaves the conversation, drops it, or publishes
a new one. -/
def CarrierMove (s : Tunnel) (event : TunnelEvent) (s' : Tunnel) : Prop :=
  if event.Ends s.link then s'.transport = s.transport ∧ s'.session = s.session + 1
  else s'.session = s.session ∧
    (event ≠ .dialPublish ∧ (s'.transport = s.transport ∨ s'.transport = s.transport.disconnect) ∨
      event = .dialPublish ∧ ∃ ctl data conv, s.dial = .publish ctl data conv ∧
        s'.transport = ⟨some ctl, some data, some conv, true, s.peer⟩)

theorem CarrierMove.stay {s s' : Tunnel} {event : TunnelEvent} (hends : ¬ event.Ends s.link)
    (hpublish : event ≠ .dialPublish) (hsession : s'.session = s.session)
    (htransport : s'.transport = s.transport ∨ s'.transport = s.transport.disconnect) : CarrierMove s event s' := by
  rw [CarrierMove, if_neg hends]
  exact ⟨hsession, .inl ⟨hpublish, htransport⟩⟩

/-- A handshake ends the session exactly if it sends a Tversion. -/
theorem CarrierMove.handshake {s s' : Tunnel} {event : TunnelEvent} {h : Handshake}
    (hends : event.Ends s.link ↔ h.Versions s.link) (hpublish : event ≠ .dialPublish)
    (hsession : s'.session = if h.Versions s.link then s.session + 1 else s.session)
    (htransport : s'.transport = s.transport) : CarrierMove s event s' := by
  by_cases hversions : h.Versions s.link
  · rw [CarrierMove, if_pos (hends.mpr hversions)]
    exact ⟨htransport, hsession.trans (if_pos hversions)⟩
  · apply CarrierMove.stay (mt hends.mp hversions) hpublish
    · exact hsession.trans (if_neg hversions)
    · exact .inl htransport

theorem dialStep_carrier {s s' : Tunnel} {event : TunnelEvent} (h : dialStep s event = some s') :
    CarrierMove s event s' := by
  cases dialStep_move h with
  | link hs | noLink hs => exact .handshake (h := hs) Iff.rfl (by simp) rfl rfl
  | publish ctl data conv hdial =>
    rw [CarrierMove, if_neg (show ¬ TunnelEvent.dialPublish.Ends s.link from id)]
    exact ⟨rfl, .inr ⟨rfl, ctl, data, conv, hdial, rfl⟩⟩
  | drop => exact .stay id (by simp) rfl (.inr rfl)
  | _ => exact .stay id (by simp) rfl (.inl rfl)

theorem tunnelStep_carrier {s s' : Tunnel} {event : TunnelEvent} (h : tunnelStep s event = some s') :
    CarrierMove s event s' := by
  cases event with
  | ensure hs =>
    cases h
    exact .handshake (h := hs) Iff.rfl (by simp) rfl rfl
  | reset =>
    cases h
    exact ⟨rfl, rfl⟩
  | linkDown | unlink =>
    cases h
    exact .stay id (by simp) rfl (.inl rfl)
  | peerWrite | downCall =>
    simp only [tunnelStep, leaveStep] at h
    split at h
    · cases h
      exact .stay id (by simp) rfl (.inl rfl)
    · cases h
  | disconnect =>
    simp only [tunnelStep, leaveStep] at h
    split at h
    · cases h
    · cases h
      exact .stay id (by simp) rfl (.inr rfl)
  | pumpTake =>
    simp only [tunnelStep, pumpStep] at h
    split at h
    · cases h
      exact .stay id (by simp) rfl (.inl rfl)
    · cases h
  | pumpWrite | pumpEnd =>
    simp only [tunnelStep, pumpStep] at h
    split at h
    · cases h
    · cases h
      exact .stay id (by simp) rfl (.inl rfl)
  | rootCall | dialLink | dialCheck | dialDrop | dialClone | dialData | dialConnect | dialPublish | dialVersion |
    dialAttach => exact dialStep_carrier h

/-! ## The session is kept exactly if the fids are -/

theorem tied_kept (t : Tunnel × List Fid) (event : TunnelEvent) (t' : Tunnel × List Fid) (htied : Tied t)
    (hgood : SessionKept t event) (hstep : recording tunnelStep noteStray t event = some t') : Tied t' := by
  obtain ⟨hmove, hstray⟩ := recording_eq_some.mp hstep
  replace hmove := tunnelStep_carrier hmove
  constructor
  · intro hup
    unfold CarrierMove at hmove
    split at hmove
    · rename_i hends
      rw [hmove.1, hgood.ends hends] at hup
      cases hup
    · obtain ⟨hsession, ⟨-, htransport | htransport⟩ | ⟨hpublish, ctl, data, conv, hdial, htransport⟩⟩ := hmove
      · rw [htransport] at hup ⊢
        rw [hsession]
        exact htied.1 hup
      · rw [htransport] at hup
        cases hup
      · rw [htransport, hsession]
        exact ⟨ctl, data, rfl, rfl, hgood.publish hpublish ctl data conv hdial⟩
  · rw [hstray]
    unfold noteStray
    split
    · rename_i hwrite
      rw [htied.2, List.nil_append, List.filter_eq_nil_iff]
      intro fid hfid
      simpa using hgood.write hwrite fid (Option.mem_toList.mp hfid)
    · exact htied.2

theorem tied_broken (t : Tunnel × List Fid) (event : TunnelEvent) (t' : Tunnel × List Fid) (htied : Tied t)
    (hbad : ¬ SessionKept t event) (hstep : recording tunnelStep noteStray t event = some t') : ¬ Tied t' := by
  obtain ⟨hmove, hstray⟩ := recording_eq_some.mp hstep
  replace hmove := tunnelStep_carrier hmove
  intro htied'
  apply hbad
  constructor
  · intro hends
    rw [CarrierMove, if_pos hends] at hmove
    by_contra hup
    rw [Bool.not_eq_false] at hup
    -- the fids are of the old session and of the new one
    obtain ⟨ctl, data, hctl, -, hold, -⟩ := htied.1 hup
    obtain ⟨ctl', data', hctl', -, hnew, -⟩ := htied'.1 (by rw [hmove.1]; exact hup)
    rw [hmove.1, hctl] at hctl'
    cases hctl'
    omega
  · rintro rfl ctl data conv hdial
    obtain ⟨hsession, ⟨hother, -⟩ | ⟨-, ctl', data', conv', hdial', htransport⟩⟩ := hmove
    · exact absurd rfl hother
    · rw [hdial] at hdial'
      cases hdial'
      obtain ⟨ctl', data', hctl', hdata', hopened⟩ := htied'.1 (by rw [htransport])
      rw [htransport] at hctl' hdata'
      cases hctl'
      cases hdata'
      rw [← hsession]
      exact hopened
  · rintro rfl fid hfid
    have hnone := hstray.symm.trans htied'.2
    rw [noteStray, if_pos rfl] at hnone
    have hkept := List.filter_eq_nil_iff.mp (List.append_eq_nil_iff.mp hnone).2 fid (by simp [hfid])
    simpa using hkept

theorem tied_init : Tied (.init, []) := ⟨fun h => absurd h (by decide), rfl⟩

/-- Every run of dials, peer changes, link handshakes, dropped host sessions and
pump cycles: a connected transport has fids of the current carrier session and
the pump writes to no others, exactly if the session never ends while the
transport is connected, between the opening of a dial's fids and their
publication, or between a pump cycle's take of its fid and one of its writes. -/
theorem tunnel_fids_live_iff {events : List TunnelEvent} {last : Tunnel × List Fid}
    (hrun : run (recording tunnelStep noteStray) (.init, []) events = some last) :
    (∀ t, Visits (recording tunnelStep noteStray) (.init, []) events t → Tied t) ↔
      Along (recording tunnelStep noteStray) SessionKept (.init, []) events :=
  visits_iff_along (fun _ h => h) tied_kept tied_broken tied_init hrun

def pumping : List TunnelEvent := [.pumpTake, .pumpWrite, .pumpEnd]

theorem tunnel_fids_live_pumping :
    (∀ t, Visits (recording tunnelStep noteStray) (.init, []) (dialing ++ pumping) t → Tied t) ↔
      Along (recording tunnelStep noteStray) SessionKept (.init, []) (dialing ++ pumping) := by
  obtain ⟨last, hrun⟩ :
      ∃ last, run (recording tunnelStep noteStray) (.init, []) (dialing ++ pumping) = some last := ⟨_, rfl⟩
  exact tunnel_fids_live_iff hrun

/-- The host session drops, the next handshake sends a Tversion, and the pump
writes a request to the fid it had before. -/
theorem tunnel_fids_dead : ∃ t, Visits (recording tunnelStep noteStray) (.init, [])
    (dialing ++ [.reset, .unlink, .ensure ⟨none, true, some 1⟩] ++ pumping) t ∧ ¬ Tied t ∧
      t.1.transport.connected = true ∧ t.2 = [⟨3, 1⟩] := by
  refine ⟨_, ⟨_, List.prefix_rfl, rfl⟩, fun htied => ?_, rfl, rfl⟩
  exact absurd htied.2 (by decide)

end DectMesh.Relay
