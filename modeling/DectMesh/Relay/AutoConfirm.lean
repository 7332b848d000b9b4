import DectMesh.Relay.Steps

/-! When the auto-confirm gate sends and when it is disarmed. The gate is armed
for the image whose stream was closed last, while the staged version is that of
the stream begun last. -/
namespace DectMesh.Relay

open DectMesh.Lib

/-- `dev/confirm` is being written on the check's behalf: the status reported
the last finalised image, unconfirmed. -/
def SendsRightly (s : RelayState) : Prop :=
  ∀ text fid, s.monitor = .check (.confirmWrite text fid) →
    ∃ version, s.past.finalised = some version ∧ Status.ofText text = some ⟨version, false⟩

/-- A reason to disarm the gate of an image: it has been confirmed, or was
already, or another image runs unconfirmed. -/
def MayDisarm (staged : Version) (text : List UInt8) (confirm : Confirm) : Prop :=
  confirm = .written ∨ Status.ofText text = some ⟨staged, true⟩ ∨
    ∃ status ∈ Status.ofText text, status.confirmed = false ∧ status.version ≠ staged

def ClearsRightly (chunk : Nat) (s : RelayState) (e : Event) : Prop :=
  ∀ s', step chunk s e = some s' → s.gate.armed = true → s'.gate.armed = false →
    ∃ text confirm staged, s.monitor = .check (.disarm text confirm) ∧
      s.past.finalised = some staged ∧ MayDisarm staged text confirm

def MonitorPc.decided : MonitorPc → Bool
  | .check (.confirmOpen _ _) | .check (.confirmWrite _ _) | .check (.disarm _ _) => true
  | _ => false

/-- The monitor compares a status text that says both things with the version of
the last finalised image, unless the outcome is to wait; and its confirm write
did not fail. -/
def MonitorOrderly (s : RelayState) : Prop :=
  match s.monitor with
  | .check (.compare text) =>
      (runningConfirmed text = true ∧ runningVersion text ≠ s.gate.staged) ∨
        ((Status.ofText text).isSome = true ∧ ∀ version ∈ s.past.begun, s.past.finalised = some version)
  | .check (.disarm _ confirm) => confirm ≠ .failed
  | _ => True

/-- A stream is closed while no check has decided, with the header that its
first write carried on the 9151, and with a header if the gate is armed. -/
def ClunkOrderly (s : RelayState) : Prop :=
  s.stream.writing = true → s.monitor.decided = false ∧ (s.gate.armed = true → s.gate.stagedValid = true) ∧
    (s.gate.stagedValid = true → headerVersion s.past.image = some s.gate.staged)

instance (staged : Version) (text : List UInt8) (confirm : Confirm) : Decidable (MayDisarm staged text confirm) :=
  inferInstanceAs (Decidable (_ ∨ _ ∨ ∃ status ∈ _, _))

instance (s : RelayState) : Decidable (MonitorOrderly s) := by
  unfold MonitorOrderly
  split <;> infer_instance

instance (s : RelayState) : Decidable (ClunkOrderly s) := inferInstanceAs (Decidable (_ → _ ∧ _ ∧ _))

def Orderly (s : RelayState) : Event → Prop
  | .monitor _ => MonitorOrderly s
  | .clunk => ClunkOrderly s
  | _ => True

instance (s : RelayState) : (e : Event) → Decidable (Orderly s e)
  | .monitor _ => inferInstanceAs (Decidable (MonitorOrderly s))
  | .clunk => inferInstanceAs (Decidable (ClunkOrderly s))
  | .begin _ _ | .host _ _ | .remoteRoot _ | .remoteDown | .disconnected | .auto _ | .write _ | .writer _ =>
      inferInstanceAs (Decidable True)

def Justified (finalised : Option Version) : CheckPc → Prop
  | .confirmOpen text _ | .confirmWrite text _ =>
      ∃ version, finalised = some version ∧ Status.ofText text = some ⟨version, false⟩
  | .disarm text .notSent => ∃ version, finalised = some version ∧ MayDisarm version text .notSent
  | _ => True

/-- The gate is armed for the last finalised image, and the check acts on what
was reported of it. -/
structure Sound (s : RelayState) : Prop where
  armed : s.gate.armed = true →
    ∃ version, s.past.finalised = some version ∧ s.gate.staged = s.past.begun.getD version
  checking : ∀ pc, s.monitor = .check pc → s.gate.armed = true
  justified : ∀ pc, s.monitor = .check pc → Justified s.past.finalised pc

theorem sound_init : Sound .init where
  armed := fun h => (nomatch h)
  checking := fun _ h => (nomatch h)
  justified := fun _ h => (nomatch h)

structure GateView where
  monitor : MonitorPc
  armed : Bool
  staged : Version
  begun : Option Version
  finalised : Option Version

def RelayState.gateView (s : RelayState) : GateView where
  monitor := s.monitor
  armed := s.gate.armed
  staged := s.gate.staged
  begun := s.past.begun
  finalised := s.past.finalised

theorem Sound.same {s s' : RelayState} (hs : Sound s) (h : s'.gateView = s.gateView) : Sound s' := by
  simp only [RelayState.gateView, GateView.mk.injEq] at h
  obtain ⟨hmonitor, harmed, hstaged, hbegun, hfinalised⟩ := h
  constructor
  · rw [harmed, hfinalised, hstaged, hbegun]
    exact hs.armed
  · rw [hmonitor, harmed]
    exact hs.checking
  · rw [hmonitor, hfinalised]
    exact hs.justified

theorem LinkMove.gateView {s s' : RelayState} {reply : Reply} (h : LinkMove s reply s') :
    s'.gateView = s.gateView := by
  obtain ⟨hmonitor, hgate, -, -, hbegun, hfinalised⟩ := h.kept
  unfold RelayState.gateView
  rw [hmonitor, hgate, hbegun, hfinalised]

/-- A stream that carries a header takes the staged version over. -/
theorem Sound.stage {s : RelayState} (h : Sound s) (fid : Nat) (buf : List UInt8) : Sound (s.stage fid buf) := by
  unfold RelayState.stage
  split
  · rename_i version hheader
    refine ⟨fun harmed => ?_, h.checking, h.justified⟩
    obtain ⟨finalised, hfinalised, -⟩ := h.armed harmed
    exact ⟨finalised, hfinalised, rfl⟩
  · exact h.same rfl

theorem sound_writer {chunk : Nat} {s s' : RelayState} {reply : Reply} (hs : Sound s)
    (h : writerStep chunk s reply = some s') : Sound s' := by
  obtain ⟨base, hmove, hwrite⟩ := writerStep_move h
  have hbase := hs.same hmove.gateView
  obtain ⟨stream, writer, image, rfl⟩ | ⟨fid, buf, stream, writer, rfl⟩ := hwrite
  · exact hbase.same rfl
  · exact (hbase.stage fid buf).same rfl

theorem Sound.finalise {s : RelayState} (h : Sound s) (hwriting : s.stream.writing = true)
    (hgood : ClunkOrderly s) : Sound s.finalise := by
  obtain ⟨hdecided, hvalid, hheader⟩ := hgood hwriting
  refine ⟨fun harmed => ⟨s.gate.staged, hheader harmed, rfl⟩, fun pc hpc => hvalid (h.checking pc hpc),
    fun pc hpc => ?_⟩
  -- the check has not come to its comparison
  change s.monitor = .check pc at hpc
  rw [hpc] at hdecided
  cases pc with
  | statusOpen | statusRead | compare => trivial
  | confirmOpen | confirmWrite | disarm => cases hdecided

theorem sound_clunk {s s' : RelayState} (hs : Sound s) (hgood : ClunkOrderly s)
    (h : clunkStep s = some s') : Sound s' := by
  rcases clunkStep_cases h with rfl | ⟨hwriting, rfl⟩
  · exact hs
  · exact hs.finalise hwriting hgood

theorem Sound.goto {s : RelayState} (h : Sound s) (pc : MonitorPc)
    (hcheck : ∀ check, pc = .check check → s.gate.armed = true ∧ Justified s.past.finalised check) :
    Sound (s.goto pc) where
  armed := h.armed
  checking := fun check hpc => (hcheck check hpc).1
  justified := fun check hpc => (hcheck check hpc).2

theorem Sound.statusNext {s : RelayState} (h : Sound s) (harmed : s.gate.armed = true) (next : OpenNext) :
    Sound (s.statusNext next) := by
  have hcheck : ∀ pc : OpenPc, Sound (s.goto (.check (.statusOpen pc))) := fun pc =>
    h.goto _ fun check heq => by cases heq; exact ⟨harmed, trivial⟩
  cases next with
  | go pc =>
    cases pc with
    | walk attempt root => exact (hcheck (.walk attempt root)).same rfl
    | ensure | opens => exact hcheck _
  | opened fid => exact h.goto _ fun check heq => by cases heq; exact ⟨harmed, trivial⟩
  | failed => exact h.goto _ fun check heq => nomatch heq

theorem Sound.confirmNext {s : RelayState} {text : List UInt8} {pc : OpenPc} (h : Sound s)
    (harmed : s.gate.armed = true) (hjust : Justified s.past.finalised (.confirmOpen text pc))
    (next : OpenNext) : Sound (s.confirmNext text next) := by
  cases next with
  | go | opened => exact h.goto _ fun check heq => by cases heq; exact ⟨harmed, hjust⟩
  | failed => exact h.goto _ fun check heq => by cases heq; exact ⟨harmed, trivial⟩

/-- The comparison with the last finalised version justifies what follows it. -/
theorem decide_justified {gate : Gate} {text : List UInt8} {status : Status} {version : Version} {check : CheckPc}
    (htext : Status.ofText text = some status) (hstaged : gate.staged = version)
    (h : gate.decide text = .check check) : Justified (some version) check := by
  obtain ⟨hversion, hconfirmed⟩ := Status.ofText_read htext
  obtain ⟨running, confirmed⟩ := status
  unfold Gate.decide at h
  rw [hversion, hconfirmed, hstaged] at h
  dsimp only at h
  split at h
  · rename_i hno
    subst hno
    split at h <;> cases h
    · rename_i heq
      subst heq
      exact ⟨_, rfl, htext⟩
    · rename_i hne
      exact ⟨version, rfl, .inr (.inr ⟨_, htext, rfl, hne⟩)⟩
  · rename_i hyes
    split at h <;> cases h
    rename_i heq
    subst heq
    refine ⟨_, rfl, .inr (.inl ?_)⟩
    rw [htext, eq_true_of_ne_false hyes]

theorem sound_check {s s' : RelayState} {pc : CheckPc} {reply : Reply} (hs : Sound s)
    (hgood : MonitorOrderly s) (hpc : s.monitor = .check pc) (h : checkStep s pc reply = some s') : Sound s' := by
  have harmed := hs.checking pc hpc
  have hjust := hs.justified pc hpc
  unfold MonitorOrderly at hgood
  rw [hpc] at hgood
  cases pc with
  | statusOpen pc =>
    obtain ⟨⟨next, s1⟩, hopen, rfl⟩ := Option.map_eq_some_iff.mp h
    have hsame := (openStep_move hopen).gateView
    exact (hs.same hsame).statusNext ((congrArg GateView.armed hsame).trans harmed) next
  | confirmOpen text pc =>
    obtain ⟨⟨next, s1⟩, hopen, rfl⟩ := Option.map_eq_some_iff.mp h
    have hsame := (openStep_move hopen).gateView
    rw [← show s1.past.finalised = s.past.finalised from congrArg GateView.finalised hsame] at hjust
    exact (hs.same hsame).confirmNext ((congrArg GateView.armed hsame).trans harmed) hjust next
  | statusRead fid =>
    obtain ⟨bytes, -, rfl⟩ | ⟨-, rfl⟩ := checkStep_statusRead h
    · exact hs.goto _ fun check heq => by cases heq; exact ⟨harmed, trivial⟩
    · exact hs.goto _ fun check heq => nomatch heq
  | compare text =>
    cases checkStep_compare h
    refine hs.goto _ fun check heq => ⟨harmed, ?_⟩
    obtain ⟨finalised, hfinalised, hstaged⟩ := hs.armed harmed
    rcases hgood with ⟨hyes, hne⟩ | ⟨htext, hbegun⟩
    · simp [Gate.decide, hyes, hne] at heq
    · obtain ⟨status, htext⟩ := Option.isSome_iff_exists.mp htext
      rw [hfinalised] at hbegun ⊢
      refine decide_justified htext ?_ heq
      cases hb : s.past.begun with
      | none => rw [hstaged, hb]; rfl
      | some version => rw [hstaged, hb]; exact (Option.some.inj (hbegun version hb)).symm
  | confirmWrite text fid =>
    obtain ⟨confirm, hsent, rfl⟩ := checkStep_confirmWrite h
    refine hs.goto _ fun check heq => ?_
    cases heq
    refine ⟨harmed, ?_⟩
    cases confirm with
    | notSent => exact absurd rfl hsent
    | failed | written => trivial
  | disarm text confirm =>
    cases checkStep_disarm h
    exact ⟨fun h => (nomatch h), fun _ h => (nomatch h), fun _ h => (nomatch h)⟩

theorem sound_monitor {s s' : RelayState} {reply : Reply} (hs : Sound s) (hgood : MonitorOrderly s)
    (h : monitorStep s reply = some s') : Sound s' := by
  unfold monitorStep at h
  split at h
  · split at h <;> cases h
    · exact (hs.goto .sleep fun check heq => nomatch heq).same rfl
    · exact (hs.goto .probe fun check heq => nomatch heq).same rfl
  · rename_i hs' hpc
    have hs1 := hs.same (LinkMove.gateView (.inr (.inr ⟨hs', rfl, rfl⟩)))
    split at h <;> rename_i heq <;> rw [heq] at hs1 <;> cases h
    · exact (hs1.goto .testAuto fun check heq => nomatch heq).same rfl
    · exact hs1.goto .sleep fun check heq => nomatch heq
  · cases h
    split
    · exact hs.goto _ fun check heq => nomatch heq
    · exact hs.goto _ fun check heq => nomatch heq
  · split at h <;> cases h
    · rename_i harmed
      have hstart : Sound (s.goto (.check (.statusOpen (.ensure 0)))) :=
        hs.goto _ fun check heq => by cases heq; exact ⟨harmed, trivial⟩
      exact hstart.same rfl
    · exact hs.goto _ fun check heq => nomatch heq
  · rename_i pc hpc
    exact sound_check hs hgood hpc h
  · cases h
    exact hs.goto _ fun check heq => nomatch heq
  · cases h

theorem sound_step {chunk : Nat} {s s' : RelayState} {e : Event} (hs : Sound s) (hgood : Orderly s e)
    (h : step chunk s e = some s') : Sound s' := by
  cases e with
  | monitor reply => exact sound_monitor hs hgood h
  | begin host op =>
    simp only [step] at h
    split at h <;> cases h
    exact hs.same rfl
  | host host reply =>
    obtain ⟨base, pc, hmove, rfl⟩ := hostStep_move h
    exact (hs.same hmove.gateView).same rfl
  | remoteRoot hs' =>
    cases h
    exact hs.same (LinkMove.gateView (.inr (.inr ⟨hs', rfl, rfl⟩)))
  | remoteDown | disconnected =>
    cases h
    exact hs.same rfl
  | auto buf =>
    cases h
    unfold Gate.toggle
    split <;> exact hs.same rfl
  | write buf =>
    obtain ⟨stream, writer, rfl⟩ := writeStart_move h
    exact hs.same rfl
  | writer reply => exact sound_writer hs h
  | clunk => exact sound_clunk hs hgood h

/-! ## What clears the flag -/

theorem statusNext_gate (s : RelayState) (next : OpenNext) : (s.statusNext next).gate = s.gate := by
  unfold RelayState.statusNext
  split <;> rfl

theorem confirmNext_gate (s : RelayState) (text : List UInt8) (next : OpenNext) :
    (s.confirmNext text next).gate = s.gate := by
  unfold RelayState.confirmNext
  split <;> rfl

/-- The check's last step alone touches the gate. -/
theorem checkStep_gate {s s' : RelayState} {pc : CheckPc} {reply : Reply}
    (hpc : ∀ text confirm, pc ≠ .disarm text confirm) (h : checkStep s pc reply = some s') :
    s'.gate = s.gate := by
  cases pc with
  | statusOpen pc =>
    obtain ⟨⟨next, s1⟩, hopen, rfl⟩ := Option.map_eq_some_iff.mp h
    exact (statusNext_gate s1 next).trans (openStep_move hopen).kept.2.1
  | confirmOpen text pc =>
    obtain ⟨⟨next, s1⟩, hopen, rfl⟩ := Option.map_eq_some_iff.mp h
    exact (confirmNext_gate s1 text next).trans (openStep_move hopen).kept.2.1
  | statusRead fid =>
    obtain ⟨bytes, -, rfl⟩ | ⟨-, rfl⟩ := checkStep_statusRead h <;> rfl
  | compare text =>
    cases checkStep_compare h
    rfl
  | confirmWrite text fid =>
    obtain ⟨confirm, -, rfl⟩ := checkStep_confirmWrite h
    rfl
  | disarm text confirm => exact absurd rfl (hpc text confirm)

theorem monitorStep_gate {s s' : RelayState} {reply : Reply}
    (hpc : ∀ text confirm, s.monitor ≠ .check (.disarm text confirm)) (h : monitorStep s reply = some s') :
    s'.gate = s.gate := by
  unfold monitorStep at h
  split at h
  · split at h <;> cases h <;> rfl
  · rename_i hs hprobe
    have hgate : (s.ensure hs).2.gate = s.gate := rfl
    split at h <;> rename_i heq <;> rw [heq] at hgate <;> cases h <;> exact hgate
  · cases h
    rfl
  · split at h <;> cases h <;> rfl
  · rename_i pc hcheck
    exact checkStep_gate (fun text confirm heq => hpc text confirm (by rw [hcheck, heq])) h
  · cases h
    rfl
  · cases h

/-- Only two steps change the flag: the close of a stream, and the check's last. -/
theorem armed_changed {chunk : Nat} {s s' : RelayState} {e : Event} (h : step chunk s e = some s')
    (hchanged : s'.gate.armed ≠ s.gate.armed) :
    (e = .clunk ∧ s.stream.writing = true ∧ s'.gate.armed = s.gate.stagedValid) ∨
      ∃ text confirm reply, e = .monitor reply ∧ s.monitor = .check (.disarm text confirm) ∧
        s'.gate.armed = false := by
  cases e with
  | monitor reply =>
    by_contra hnot
    refine hchanged (congrArg Gate.armed (monitorStep_gate (fun text confirm hpc => ?_) h))
    refine hnot (.inr ⟨text, confirm, reply, rfl, hpc, ?_⟩)
    simp only [step, monitorStep, hpc] at h
    cases checkStep_disarm h
    rfl
  | begin host op =>
    simp only [step] at h
    split at h <;> cases h
    exact absurd rfl hchanged
  | host host reply =>
    obtain ⟨base, pc, hmove, rfl⟩ := hostStep_move h
    exact absurd (congrArg GateView.armed hmove.gateView) hchanged
  | remoteRoot | remoteDown | disconnected =>
    cases h
    exact absurd rfl hchanged
  | auto buf =>
    cases h
    refine absurd ?_ hchanged
    change (s.gate.toggle buf).armed = s.gate.armed
    unfold Gate.toggle
    split <;> rfl
  | write buf =>
    obtain ⟨stream, writer, rfl⟩ := writeStart_move h
    exact absurd rfl hchanged
  | writer reply =>
    obtain ⟨base, hmove, hwrite⟩ := writerStep_move h
    refine absurd (Eq.trans ?_ (congrArg GateView.armed hmove.gateView)) hchanged
    obtain ⟨stream, writer, image, rfl⟩ | ⟨fid, buf, stream, writer, rfl⟩ := hwrite
    · rfl
    · unfold RelayState.stage
      split <;> rfl
  | clunk =>
    rcases clunkStep_cases h with rfl | ⟨hwriting, rfl⟩
    · exact absurd rfl hchanged
    · exact .inl ⟨rfl, hwriting, rfl⟩

theorem armed_cleared {chunk : Nat} {s s' : RelayState} {e : Event} (h : step chunk s e = some s')
    (harmed : s.gate.armed = true) (hclear : s'.gate.armed = false) :
    (e = .clunk ∧ s.stream.writing = true ∧ s.gate.stagedValid = false) ∨
      ∃ text confirm reply, e = .monitor reply ∧ s.monitor = .check (.disarm text confirm) := by
  have hchanged : s'.gate.armed ≠ s.gate.armed := by
    rw [harmed, hclear]
    decide
  rcases armed_changed h hchanged with ⟨rfl, hwriting, hvalid⟩ | ⟨text, confirm, reply, rfl, hpc, -⟩
  · exact .inl ⟨rfl, hwriting, hvalid ▸ hclear⟩
  · exact .inr ⟨text, confirm, reply, rfl, hpc⟩

theorem armed_set {chunk : Nat} {s s' : RelayState} {e : Event} (h : step chunk s e = some s')
    (hidle : s.gate.armed = false) (harmed : s'.gate.armed = true) : e = .clunk ∧ s.stream.writing = true := by
  have hchanged : s'.gate.armed ≠ s.gate.armed := by
    rw [hidle, harmed]
    decide
  rcases armed_changed h hchanged with ⟨rfl, hwriting, -⟩ | ⟨text, confirm, reply, -, -, hclear⟩
  · exact ⟨rfl, hwriting⟩
  · rw [hclear] at harmed
    cases harmed

theorem Sound.sendsRightly {s : RelayState} (h : Sound s) : SendsRightly s :=
  fun _ _ hpc => h.justified _ hpc

theorem Sound.clearsRightly {chunk : Nat} {s : RelayState} {e : Event} (h : Sound s) (hgood : Orderly s e) :
    ClearsRightly chunk s e := by
  intro s' hstep harmed hclear
  obtain ⟨rfl, hwriting, hvalid⟩ | ⟨text, confirm, reply, rfl, hpc⟩ := armed_cleared hstep harmed hclear
  · have hstaged := (hgood hwriting).2.1 harmed
    rw [hvalid] at hstaged
    cases hstaged
  · obtain ⟨staged, hfinalised, -⟩ := h.armed harmed
    refine ⟨text, confirm, staged, hpc, hfinalised, ?_⟩
    have hjust := h.justified _ hpc
    change MonitorOrderly s at hgood
    unfold MonitorOrderly at hgood
    rw [hpc] at hgood
    cases confirm with
    | notSent =>
      obtain ⟨version, hversion, hmay⟩ := hjust
      cases Option.some.inj (hversion.symm.trans hfinalised)
      exact hmay
    | failed => exact absurd rfl hgood
    | written => exact .inl rfl

/-- Every orderly run: the relay writes `dev/confirm` on its own only for the
last finalised image, reported running and unconfirmed, and the gate is
disarmed only for a reason. -/
theorem auto_confirm_gate_sound {chunk : Nat} {events : List Event}
    (hgood : Along (step chunk) Orderly .init events) :
    Along (step chunk) (fun s e => SendsRightly s ∧ ClearsRightly chunk s e) .init events ∧
      ∀ s, run (step chunk) .init events = some s → SendsRightly s :=
  ⟨along_of_invariant (fun _ _ _ hs hgood h => sound_step hs hgood h)
      (fun _ _ hs hgood => ⟨hs.sendsRightly, hs.clearsRightly hgood⟩) sound_init hgood,
    fun _ hrun => (run_invariant Sound (fun _ _ _ hs hgood h => sound_step hs hgood h)
      sound_init hgood hrun).sendsRightly⟩

/-- An image is streamed, the 9151 reboots into it, and the check sends the
confirm write for it. -/
theorem auto_confirm_sends_for_staged :
    ∃ s, run (step 2048) .init (stageEvents ++ rebootEvents ++ relinkEvents ++ checkEvents) = some s ∧
      s.monitor = .check (.confirmWrite sampleStatus 8) ∧
      ∃ version, s.past.finalised = some version ∧ Status.ofText sampleStatus = some ⟨version, false⟩ := by
  obtain ⟨s, hrun, hmonitor⟩ : ∃ s,
      run (step 2048) .init (stageEvents ++ rebootEvents ++ relinkEvents ++ checkEvents) = some s ∧
        s.monitor = .check (.confirmWrite sampleStatus 8) := ⟨_, rfl, by decide +kernel⟩
  exact ⟨s, hrun, hmonitor, (auto_confirm_gate_sound (by decide +kernel)).2 s hrun sampleStatus 8 hmonitor⟩

/-- The write of `dev/confirm` fails, and the gate is disarmed all the same. -/
theorem failed_confirm_disarms_gate :
    ¬ ∀ events : List Event,
      Along (step 2048) (fun s e => SendsRightly s ∧ ClearsRightly 2048 s e) .init events := by
  intro hclaim
  obtain ⟨s, hrun, hmonitor, harmed, hfinalised⟩ : ∃ s, run (step 2048) .init
      (stageEvents ++ rebootEvents ++ relinkEvents ++ checkEvents ++ [.monitor .failed]) = some s ∧
      s.monitor = .check (.disarm sampleStatus .failed) ∧ s.gate.armed = true ∧
      s.past.finalised = some ⟨1, 2, 3⟩ := ⟨_, rfl, by decide +kernel⟩
  have hclears := (along_last (hclaim (_ ++ [.monitor .none])) hrun).2
  have hstep : step 2048 s (.monitor .none) = some (s.disarm.goto .sleep) := by
    simp [step, monitorStep, hmonitor, checkStep]
  obtain ⟨text, confirm, staged, hpc, hstaged, hmay⟩ := hclears _ hstep harmed rfl
  cases hmonitor.symm.trans hpc
  cases hfinalised.symm.trans hstaged
  revert hmay
  decide +kernel

end DectMesh.Relay
