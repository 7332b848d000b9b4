import DectMesh.Relay.Steps

/-! Which attachments the auto-confirm check is run on. The monitor runs it
behind a re-attach that it waited for itself, so an attachment that a host
operation made between two of its polls is never checked. -/
namespace DectMesh.Relay

open DectMesh.Lib

/-- From the poll that finds the link down to where the check takes the root. -/
def MonitorPc.mayCheck : MonitorPc → Bool
  | .probe | .testAuto | .testArmed | .check (.statusOpen (.ensure _)) => true
  | _ => false

def RelayState.On (s : RelayState) : Prop := s.gate.autoconfirm = true ∧ s.gate.armed = true

/-- An attachment made with the gate on, current or found by the iteration, has
not been checked. -/
def RelayState.Awaiting (s : RelayState) : Prop :=
  ∃ k ∈ s.past.owed, k ∉ s.past.checked ∧
    (k ∈ s.past.found ∨ (s.link.attached = true ∧ k = s.past.attachment))

def Reattaches (s : RelayState) (e : Event) : Prop :=
  s.link.attached = false ∧ ∃ h ∈ e.handshake, h.succeeds s.link = true

def TurnsOff (s : RelayState) : Event → Prop
  | .auto buf => buf.head? = some 0x30
  | .clunk => s.stream.writing = true ∧ s.gate.stagedValid = false
  | _ => False

/-- While the gate is on, the link is re-attached only where a check of the
monitor is to follow, and until then the gate stays on. -/
def Unraced (s : RelayState) (e : Event) : Prop :=
  (Reattaches s e → s.On → s.monitor.mayCheck = true) ∧ (TurnsOff s e → ¬ s.Awaiting)

instance (s : RelayState) : Decidable s.On := inferInstanceAs (Decidable (_ ∧ _))

instance (s : RelayState) : Decidable s.Awaiting := inferInstanceAs (Decidable (∃ k ∈ _, _))

instance (s : RelayState) (e : Event) : Decidable (Reattaches s e) :=
  inferInstanceAs (Decidable (_ ∧ ∃ h ∈ _, _))

instance (s : RelayState) : (e : Event) → Decidable (TurnsOff s e)
  | .auto _ => inferInstanceAs (Decidable (_ = _))
  | .clunk => inferInstanceAs (Decidable (_ ∧ _))
  | .monitor _ | .begin _ _ | .host _ _ | .remoteRoot _ | .remoteDown | .disconnected | .write _ | .writer _ =>
      inferInstanceAs (Decidable False)

instance (s : RelayState) (e : Event) : Decidable (Unraced s e) :=
  inferInstanceAs (Decidable ((_ → _ → _) ∧ (_ → _)))

/-- Where an attachment awaits its check, the monitor is on the way to it. -/
structure Covered (s : RelayState) : Prop where
  numbered : ∀ k ∈ s.past.owed, k ≤ s.past.attachment
  probing : s.monitor = .probe → s.past.found = []
  checking : ∀ pc, s.monitor = .check pc → ∀ k ∈ s.past.found, k ∈ s.past.checked
  awaiting : s.Awaiting → s.monitor.mayCheck = true ∧ s.On

theorem covered_init : Covered .init where
  numbered := fun _ h => (nomatch h)
  probing := fun h => (nomatch h)
  checking := fun _ h => (nomatch h)
  awaiting := fun ⟨_, h, _⟩ => (nomatch h)

theorem Covered.quiet {s : RelayState} (h : Covered s) (hpc : s.monitor.mayCheck = false) : ¬ s.Awaiting := by
  intro haw
  rw [(h.awaiting haw).1] at hpc
  cases hpc

/-! ## Moves of the link -/

theorem ensure_fresh {s : RelayState} {h : Handshake} (hdown : s.link.attached = false)
    (hok : h.succeeds s.link = true) :
    (s.ensure h).2.past = s.past.attach (s.gate.autoconfirm && s.gate.armed) := if_pos ⟨hdown, hok⟩

theorem ensure_stale {s : RelayState} {h : Handshake}
    (hnot : ¬ (s.link.attached = false ∧ h.succeeds s.link = true)) : (s.ensure h).2.past = s.past :=
  if_neg hnot

theorem ensure_attached (s : RelayState) (h : Handshake) :
    (s.ensure h).2.link.attached = (s.ensure h).1.isSome := (ensureAttached_isSome h s.link).symm

/-- A re-attach leaves nothing to await but itself. -/
theorem awaiting_ensure {s : RelayState} {h : Handshake} (hcov : Covered s)
    (haw : (s.ensure h).2.Awaiting) :
    s.Awaiting ∨ (s.link.attached = false ∧ h.succeeds s.link = true ∧ s.On) := by
  obtain ⟨k, howed, hunchecked, hwhere⟩ := haw
  by_cases hfresh : s.link.attached = false ∧ h.succeeds s.link = true
  · rw [ensure_fresh hfresh.1 hfresh.2] at howed hunchecked hwhere
    by_cases hon : (s.gate.autoconfirm && s.gate.armed) = true
    · exact .inr ⟨hfresh.1, hfresh.2, by simpa [RelayState.On] using hon⟩
    · -- nothing new is owed, and the number is new
      have hold : k ∈ s.past.owed := by
        simp only [Past.attach, if_neg hon] at howed
        exact howed
      have hle := hcov.numbered k hold
      rcases hwhere with hfound | ⟨-, hk⟩
      · exact .inl ⟨k, hold, hunchecked, .inl hfound⟩
      · change k = s.past.attachment + 1 at hk
        omega
  · rw [ensure_stale hfresh] at howed hunchecked hwhere
    refine .inl ⟨k, howed, hunchecked, hwhere.imp_right fun hcur => ⟨?_, hcur.2⟩⟩
    cases hup : s.link.attached with
    | true => rfl
    | false =>
      have hattached : (meshEnsureAttached h s.link).2.attached = true := hcur.1
      rw [(ensureAttached_down hup).1] at hattached
      exact absurd ⟨hup, hattached⟩ hfresh

theorem ensure_numbered {s : RelayState} {h : Handshake} (hcov : Covered s) :
    ∀ k ∈ (s.ensure h).2.past.owed, k ≤ (s.ensure h).2.past.attachment := by
  intro k hk
  by_cases hfresh : s.link.attached = false ∧ h.succeeds s.link = true
  · rw [ensure_fresh hfresh.1 hfresh.2] at hk ⊢
    change k ≤ s.past.attachment + 1
    simp only [Past.attach] at hk
    split at hk
    · rcases List.mem_cons.mp hk with rfl | hk
      · exact Nat.le_refl _
      · exact Nat.le_succ_of_le (hcov.numbered k hk)
    · exact Nat.le_succ_of_le (hcov.numbered k hk)
  · rw [ensure_stale hfresh] at hk ⊢
    exact hcov.numbered k hk

theorem drop_awaiting {s : RelayState} (h : s.drop.Awaiting) : s.Awaiting := by
  obtain ⟨k, howed, hunchecked, hwhere⟩ := h
  refine ⟨k, howed, hunchecked, .inl ?_⟩
  rcases hwhere with hfound | ⟨hup, -⟩
  · exact hfound
  · exact absurd hup (by simp [RelayState.drop])

theorem Covered.ensure {s : RelayState} {h : Handshake} (hcov : Covered s)
    (hgood : s.link.attached = false → h.succeeds s.link = true → s.On → s.monitor.mayCheck = true) :
    Covered (s.ensure h).2 where
  numbered := ensure_numbered hcov
  probing := fun hpc => (ensure_found s h).trans (hcov.probing hpc)
  checking := fun pc hpc k hk => by
    rw [ensure_found] at hk
    rw [ensure_checked]
    exact hcov.checking pc hpc k hk
  awaiting := fun haw => by
    rcases awaiting_ensure hcov haw with hold | ⟨hdown, hok, hon⟩
    · exact hcov.awaiting hold
    · exact ⟨hgood hdown hok hon, hon⟩

theorem Covered.drop {s : RelayState} (hcov : Covered s) : Covered s.drop where
  numbered := hcov.numbered
  probing := hcov.probing
  checking := hcov.checking
  awaiting := fun haw => hcov.awaiting (drop_awaiting haw)

theorem Covered.move {s s' : RelayState} {e : Event} {reply : Reply} (hcov : Covered s)
    (hgood : Unraced s e) (hreply : ∀ h, reply = .handshake h → e.handshake = some h)
    (hmove : LinkMove s reply s') : Covered s' := by
  rcases hmove with rfl | rfl | ⟨h, hh, rfl⟩
  · exact hcov
  · exact hcov.drop
  · exact hcov.ensure fun hdown hok => hgood.1 ⟨hdown, h, hreply h hh, hok⟩

structure CheckView where
  monitor : MonitorPc
  attached : Bool
  autoconfirm : Bool
  armed : Bool
  attachment : Nat
  found : List Nat
  owed : List Nat
  checked : List Nat

def RelayState.checkView (s : RelayState) : CheckView where
  monitor := s.monitor
  attached := s.link.attached
  autoconfirm := s.gate.autoconfirm
  armed := s.gate.armed
  attachment := s.past.attachment
  found := s.past.found
  owed := s.past.owed
  checked := s.past.checked

theorem Covered.view {s s' : RelayState} (hcov : Covered s) (h : s'.checkView = s.checkView) : Covered s' := by
  simp only [RelayState.checkView, CheckView.mk.injEq] at h
  obtain ⟨hmonitor, hattached, hauto, harmed, hattachment, hfound, howed, hchecked⟩ := h
  constructor
  · rw [howed, hattachment]
    exact hcov.numbered
  · rw [hmonitor, hfound]
    exact hcov.probing
  · rw [hmonitor, hfound, hchecked]
    exact hcov.checking
  · unfold RelayState.Awaiting RelayState.On
    rw [howed, hchecked, hfound, hattached, hattachment, hmonitor, hauto, harmed]
    exact hcov.awaiting

/-! ## The steps of the threads -/

theorem covered_host {s s' : RelayState} {host : Nat} {reply : Reply} (hcov : Covered s)
    (hgood : Unraced s (.host host reply)) (h : hostStep s host reply = some s') : Covered s' := by
  obtain ⟨base, pc, hmove, rfl⟩ := hostStep_move h
  exact (hcov.move hgood (fun _ h => by rw [h]; rfl) hmove).view rfl

theorem covered_writer {chunk : Nat} {s s' : RelayState} {reply : Reply} (hcov : Covered s)
    (hgood : Unraced s (.writer reply)) (h : writerStep chunk s reply = some s') : Covered s' := by
  obtain ⟨base, hmove, hwrite⟩ := writerStep_move h
  refine (hcov.move hgood (fun _ h => by rw [h]; rfl) hmove).view ?_
  obtain ⟨stream, writer, image, rfl⟩ | ⟨fid, buf, stream, writer, rfl⟩ := hwrite
  · rfl
  · unfold RelayState.stage
    split <;> rfl

theorem covered_clunk {s s' : RelayState} (hcov : Covered s) (hgood : Unraced s .clunk)
    (h : clunkStep s = some s') : Covered s' := by
  rcases clunkStep_cases h with rfl | ⟨hwriting, rfl⟩
  · exact hcov
  · refine ⟨hcov.numbered, hcov.probing, hcov.checking, fun haw => ?_⟩
    have hon := hcov.awaiting haw
    refine ⟨hon.1, hon.2.1, ?_⟩
    cases hvalid : s.gate.stagedValid with
    | true => exact hvalid
    | false => exact absurd haw (hgood.2 ⟨hwriting, hvalid⟩)

theorem covered_auto {s : RelayState} {buf : List UInt8} (hcov : Covered s)
    (hgood : Unraced s (.auto buf)) : Covered { s with gate := s.gate.toggle buf } := by
  refine ⟨hcov.numbered, hcov.probing, hcov.checking, fun haw => ?_⟩
  have hon := hcov.awaiting haw
  refine ⟨hon.1, ?_⟩
  unfold Gate.toggle
  split
  · exact absurd haw (hgood.2 rfl)
  · exact ⟨rfl, hon.2.2⟩
  · exact hon.2

theorem Covered.idle {s : RelayState} (hnumbered : ∀ k ∈ s.past.owed, k ≤ s.past.attachment)
    (hprobe : s.monitor ≠ .probe) (hcheck : ∀ pc, s.monitor ≠ .check pc) (hnone : ¬ s.Awaiting) :
    Covered s where
  numbered := hnumbered
  probing := fun h => absurd h hprobe
  checking := fun pc h => absurd h (hcheck pc)
  awaiting := fun h => absurd h hnone

theorem Covered.goto_check {s : RelayState} (hcov : Covered s)
    (hchecked : ∀ k ∈ s.past.found, k ∈ s.past.checked) (hnone : ¬ s.Awaiting) (pc : CheckPc) :
    Covered (s.goto (.check pc)) where
  numbered := hcov.numbered
  probing := fun h => (nomatch h)
  checking := fun _ _ => hchecked
  awaiting := fun h => absurd h hnone

theorem Covered.goto_sleep {s : RelayState} (hcov : Covered s) (hnone : ¬ s.Awaiting) :
    Covered (s.goto .sleep) :=
  .idle hcov.numbered (fun h => nomatch h) (fun _ h => nomatch h) hnone

/-- Down and with its attachments checked, an iteration has nothing to await. -/
theorem not_awaiting_of_down {s : RelayState} (hchecked : ∀ k ∈ s.past.found, k ∈ s.past.checked)
    (hdown : s.link.attached = false) : ¬ s.Awaiting := by
  rintro ⟨k, -, hunchecked, hfound | ⟨hup, -⟩⟩
  · exact hunchecked (hchecked k hfound)
  · rw [hdown] at hup
    cases hup

theorem statusOpen_quiet {s s' : RelayState} {pc : OpenPc} {reply : Reply} {next : OpenNext}
    (hcov : Covered s) (hpc : s.monitor = .check (.statusOpen pc))
    (h : s.openStep pc reply = some (next, s')) (hnext : ∀ attempt root, next ≠ .go (.walk attempt root)) :
    ¬ s'.Awaiting := by
  have hchecked := hcov.checking _ hpc
  unfold RelayState.openStep at h
  split at h
  · rename_i attempt hs
    split at h
    · cases h
      exact absurd rfl (hnext _ _)
    · rename_i s1 heq
      cases h
      have hdown : (s.ensure hs).2.link.attached = false := by
        rw [ensure_attached, heq]
        rfl
      have hnone : ¬ (s.ensure hs).2.Awaiting := not_awaiting_of_down (by simpa using hchecked) hdown
      rw [heq] at hnone
      exact hnone
  · cases h
    exact hcov.quiet (by rw [hpc]; rfl)
  · cases h
    exact not_awaiting_of_down hchecked rfl
  · cases h
    exact hcov.quiet (by rw [hpc]; rfl)
  · cases h
    exact hcov.quiet (by rw [hpc]; rfl)
  · cases h

theorem covered_statusOpen {s s' : RelayState} {pc : OpenPc} {reply : Reply} (hcov : Covered s)
    (hgood : Unraced s (.monitor reply)) (hpc : s.monitor = .check (.statusOpen pc))
    (h : checkStep s (.statusOpen pc) reply = some s') : Covered s' := by
  obtain ⟨⟨next, s1⟩, hopen, rfl⟩ := Option.map_eq_some_iff.mp h
  have hmove := openStep_move hopen
  have hcov1 : Covered s1 := hcov.move hgood (fun _ h => by rw [h]; rfl) hmove
  obtain ⟨-, -, hfound, hkept, -⟩ := hmove.kept
  have hchecked : ∀ k ∈ s1.past.found, k ∈ s1.past.checked := by
    rw [hfound, hkept]
    exact hcov.checking _ hpc
  have hquiet := statusOpen_quiet hcov hpc hopen
  cases next with
  | go pc' =>
    cases pc' with
    | walk attempt root =>
      -- the root is that of the current attachment
      refine ⟨hcov1.numbered, fun h => (nomatch h), fun _ _ k hk => .tail _ (hchecked k hk), ?_⟩
      rintro ⟨k, -, hunchecked, hk | ⟨-, rfl⟩⟩
      · exact absurd (.tail _ (hchecked k hk)) hunchecked
      · exact absurd (.head _) hunchecked
    | ensure | opens => exact hcov1.goto_check hchecked (hquiet fun _ _ h => nomatch h) _
  | opened fid => exact hcov1.goto_check hchecked (hquiet fun _ _ h => nomatch h) _
  | failed => exact hcov1.goto_sleep (hquiet fun _ _ h => nomatch h)

theorem covered_confirmOpen {s s' : RelayState} {text : List UInt8} {pc : OpenPc} {reply : Reply}
    (hcov : Covered s) (hgood : Unraced s (.monitor reply)) (hpc : s.monitor = .check (.confirmOpen text pc))
    (h : checkStep s (.confirmOpen text pc) reply = some s') : Covered s' := by
  obtain ⟨⟨next, s1⟩, hopen, rfl⟩ := Option.map_eq_some_iff.mp h
  have hmove := openStep_move hopen
  have hcov1 : Covered s1 := hcov.move hgood (fun _ h => by rw [h]; rfl) hmove
  obtain ⟨hmonitor, -, hfound, hkept, -⟩ := hmove.kept
  have hchecked : ∀ k ∈ s1.past.found, k ∈ s1.past.checked := by
    rw [hfound, hkept]
    exact hcov.checking _ hpc
  have hquiet : ¬ s1.Awaiting := hcov1.quiet (by rw [hmonitor, hpc]; rfl)
  cases next <;> exact hcov1.goto_check hchecked hquiet _

theorem covered_check {s s' : RelayState} {pc : CheckPc} {reply : Reply} (hcov : Covered s)
    (hgood : Unraced s (.monitor reply)) (hpc : s.monitor = .check pc) (h : checkStep s pc reply = some s') :
    Covered s' := by
  have hchecked := hcov.checking pc hpc
  cases pc with
  | statusOpen pc => exact covered_statusOpen hcov hgood hpc h
  | confirmOpen text pc => exact covered_confirmOpen hcov hgood hpc h
  | statusRead fid =>
    have hquiet := hcov.quiet (by rw [hpc]; rfl)
    obtain ⟨bytes, -, rfl⟩ | ⟨-, rfl⟩ := checkStep_statusRead h
    · exact hcov.goto_check hchecked hquiet _
    · exact hcov.goto_sleep hquiet
  | compare text =>
    have hquiet := hcov.quiet (by rw [hpc]; rfl)
    cases checkStep_compare h
    unfold Gate.decide
    split
    · split
      · exact hcov.goto_check hchecked hquiet _
      · exact hcov.goto_check hchecked hquiet _
    · split
      · exact hcov.goto_check hchecked hquiet _
      · exact hcov.goto_sleep hquiet
  | confirmWrite text fid =>
    obtain ⟨confirm, -, rfl⟩ := checkStep_confirmWrite h
    exact hcov.goto_check hchecked (hcov.quiet (by rw [hpc]; rfl)) _
  | disarm text confirm =>
    cases checkStep_disarm h
    exact .idle hcov.numbered (fun h => nomatch h) (fun _ h => nomatch h) (hcov.quiet (by rw [hpc]; rfl))

theorem covered_monitor {s s' : RelayState} {reply : Reply} (hcov : Covered s)
    (hgood : Unraced s (.monitor reply)) (h : monitorStep s reply = some s') : Covered s' := by
  unfold monitorStep at h
  split at h
  · rename_i hpc
    have hquiet := hcov.quiet (by rw [hpc]; rfl)
    split at h <;> cases h
    · rename_i hup
      refine .idle hcov.numbered (fun h => nomatch h) (fun _ h => nomatch h) ?_
      rintro ⟨k, howed, hunchecked, hk | hk⟩
      · exact hquiet ⟨k, howed, hunchecked, .inr ⟨hup, List.mem_singleton.mp hk⟩⟩
      · exact hquiet ⟨k, howed, hunchecked, .inr hk⟩
    · rename_i hdown
      refine ⟨hcov.numbered, fun _ => rfl, fun _ h => (nomatch h), ?_⟩
      rintro ⟨k, -, -, hk | ⟨hup, -⟩⟩
      · cases hk
      · exact absurd hup hdown
  · rename_i hs hpc
    have hcov1 : Covered (s.ensure hs).2 :=
      hcov.move hgood (fun _ h => by rw [h]; rfl) (.inr (.inr ⟨hs, rfl, rfl⟩))
    have hattached := ensure_attached s hs
    split at h
    · rename_i root s1 heq
      rw [heq] at hcov1 hattached
      cases h
      have hon : ∀ k ∈ s1.past.owed, k ∉ s1.past.checked → k = s1.past.attachment → s1.On :=
        fun k howed hunchecked hk => (hcov1.awaiting ⟨k, howed, hunchecked, .inr ⟨hattached, hk⟩⟩).2
      refine ⟨hcov1.numbered, fun h => (nomatch h), fun _ h => (nomatch h), ?_⟩
      rintro ⟨k, howed, hunchecked, hk | ⟨-, hk⟩⟩
      · exact ⟨rfl, hon k howed hunchecked (List.mem_singleton.mp hk)⟩
      · exact ⟨rfl, hon k howed hunchecked hk⟩
    · rename_i s1 heq
      cases h
      have hfound : s1.past.found = [] := by
        have hkept := ensure_found s hs
        rw [heq, hcov.probing hpc] at hkept
        exact hkept
      rw [heq] at hcov1 hattached
      refine hcov1.goto_sleep (not_awaiting_of_down ?_ hattached)
      rw [hfound]
      exact fun _ hk => nomatch hk
  · rename_i hpc
    cases h
    split
    · exact ⟨hcov.numbered, fun h => (nomatch h), fun _ h => (nomatch h),
        fun haw => ⟨rfl, (hcov.awaiting haw).2⟩⟩
    · rename_i hoff
      exact hcov.goto_sleep fun haw => hoff (hcov.awaiting haw).2.1
  · rename_i hpc
    split at h <;> cases h
    · refine ⟨hcov.numbered, fun h => (nomatch h), fun _ _ k hk => List.mem_append_left _ hk, ?_⟩
      rintro ⟨k, howed, hunchecked, hwhere⟩
      have hnot : k ∉ s.past.checked := fun hk => hunchecked (List.mem_append_right _ hk)
      exact ⟨rfl, (hcov.awaiting ⟨k, howed, hnot, hwhere⟩).2⟩
    · rename_i hoff
      exact hcov.goto_sleep fun haw => hoff (hcov.awaiting haw).2.2
  · rename_i pc hpc
    exact covered_check hcov hgood hpc h
  · rename_i hpc
    cases h
    exact .idle hcov.numbered (fun h => nomatch h) (fun _ h => nomatch h) (hcov.quiet (by rw [hpc]; rfl))
  · cases h

theorem covered_step {chunk : Nat} {s s' : RelayState} {e : Event} (hcov : Covered s) (hgood : Unraced s e)
    (h : step chunk s e = some s') : Covered s' := by
  cases e with
  | monitor reply => exact covered_monitor hcov hgood h
  | begin host op =>
    simp only [step] at h
    split at h <;> cases h
    exact hcov.view rfl
  | host host reply => exact covered_host hcov hgood h
  | remoteRoot hs =>
    cases h
    exact hcov.ensure fun hdown hok => hgood.1 ⟨hdown, hs, rfl, hok⟩
  | remoteDown =>
    cases h
    exact hcov.drop
  | disconnected =>
    cases h
    exact hcov.drop.view rfl
  | auto buf =>
    cases h
    exact covered_auto hcov hgood
  | write buf =>
    obtain ⟨stream, writer, rfl⟩ := writeStart_move h
    exact hcov.view rfl
  | writer reply => exact covered_writer hcov hgood h
  | clunk => exact covered_clunk hcov hgood h

/-- Every run in which the link is re-attached under an armed gate only where
the monitor's check is to follow: an iteration that found an attachment made
under an armed gate ends with the check run on it. -/
theorem auto_confirm_not_skipped {chunk : Nat} {events : List Event} {s : RelayState}
    (hgood : Along (step chunk) Unraced .init events) (hrun : run (step chunk) .init events = some s)
    (hend : s.monitor = .sleep) : ∀ k ∈ s.past.found, k ∈ s.past.owed → k ∈ s.past.checked := by
  intro k hfound howed
  have hcov := run_invariant Covered (fun _ _ _ hcov hgood h => covered_step hcov hgood h)
    covered_init hgood hrun
  by_contra hunchecked
  exact hcov.quiet (by rw [hend]; rfl) ⟨k, howed, hunchecked, .inl hfound⟩

/-- A host read that attaches the link behind a reboot while the monitor's own
re-attach waits for it: the check runs. -/
theorem auto_confirm_beside_host_read :
    ∃ s, run (step 2048) .init
        (stageEvents ++ rebootEvents ++
          [.monitor .none, .begin 1 .read, .host 1 (.handshake ⟨some 2, false, none⟩),
            .monitor (.handshake ⟨none, false, none⟩), .monitor .none, .monitor .none] ++
          checkEvents ++ [.monitor (.done 1), .monitor .none]) = some s ∧
      2 ∈ s.past.found ∧ 2 ∈ s.past.checked := by
  obtain ⟨s, hrun, hend, hfound, howed⟩ : ∃ s, run (step 2048) .init
      (stageEvents ++ rebootEvents ++
        [.monitor .none, .begin 1 .read, .host 1 (.handshake ⟨some 2, false, none⟩),
          .monitor (.handshake ⟨none, false, none⟩), .monitor .none, .monitor .none] ++
        checkEvents ++ [.monitor (.done 1), .monitor .none]) = some s ∧
      s.monitor = .sleep ∧ 2 ∈ s.past.found ∧ 2 ∈ s.past.owed := ⟨_, rfl, by decide +kernel⟩
  exact ⟨s, hrun, hfound, auto_confirm_not_skipped (by decide +kernel) hrun hend 2 hfound howed⟩

/-- A host read that attaches the link behind a reboot before the monitor polls:
the poll finds the link up, and the check is not run. -/
theorem host_read_skips_auto_confirm :
    ¬ ∀ (events : List Event) (s : RelayState), run (step 2048) .init events = some s →
      s.monitor = .sleep → ∀ k ∈ s.past.found, k ∈ s.past.owed → k ∈ s.past.checked := by
  intro hclaim
  have hchecked := hclaim
    (stageEvents ++ rebootEvents ++
      [.begin 1 .read, .host 1 (.handshake ⟨some 2, false, none⟩), .monitor .none])
    _ rfl (by decide +kernel) 2 (by decide +kernel) (by decide +kernel)
  revert hchecked
  decide +kernel

end DectMesh.Relay
