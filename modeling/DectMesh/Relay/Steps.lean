import DectMesh.Relay.Threads

/-! What the steps of the relay's threads do to the shared state. -/
namespace DectMesh.Relay

/-! ## The link -/

@[simp] theorem ensure_found (s : RelayState) (h : Handshake) : (s.ensure h).2.past.found = s.past.found := by
  unfold RelayState.ensure
  dsimp only
  split <;> rfl

@[simp] theorem ensure_checked (s : RelayState) (h : Handshake) :
    (s.ensure h).2.past.checked = s.past.checked := by
  unfold RelayState.ensure
  dsimp only
  split <;> rfl

def Event.handshake : Event → Option Handshake
  | .monitor (.handshake h) | .host _ (.handshake h) | .writer (.handshake h) | .remoteRoot h => some h
  | _ => none

def LinkMove (s : RelayState) (reply : Reply) (s' : RelayState) : Prop :=
  s' = s ∨ s' = s.drop ∨ ∃ h, reply = .handshake h ∧ s' = (s.ensure h).2

theorem openStep_move {s s' : RelayState} {pc : OpenPc} {reply : Reply} {next : OpenNext}
    (h : s.openStep pc reply = some (next, s')) : LinkMove s reply s' := by
  unfold RelayState.openStep at h
  split at h
  · rename_i attempt hs
    refine .inr (.inr ⟨hs, rfl, ?_⟩)
    split at h <;> rename_i heq <;> cases h <;> rw [heq]
  · cases h
    exact .inl rfl
  · cases h
    exact .inr (.inl rfl)
  · cases h
    exact .inl rfl
  · cases h
    exact .inl rfl
  · cases h

theorem LinkMove.kept {s s' : RelayState} {reply : Reply} (h : LinkMove s reply s') :
    s'.monitor = s.monitor ∧ s'.gate = s.gate ∧ s'.past.found = s.past.found ∧
      s'.past.checked = s.past.checked ∧ s'.past.begun = s.past.begun ∧
      s'.past.finalised = s.past.finalised := by
  rcases h with rfl | rfl | ⟨hs, -, rfl⟩
  · exact ⟨rfl, rfl, rfl, rfl, rfl, rfl⟩
  · exact ⟨rfl, rfl, rfl, rfl, rfl, rfl⟩
  · unfold RelayState.ensure
    dsimp only
    split <;> exact ⟨rfl, rfl, rfl, rfl, rfl, rfl⟩

theorem LinkMove.stream {s s' : RelayState} {reply : Reply} (h : LinkMove s reply s') :
    s'.stream = s.stream ∧ s'.writer = s.writer := by
  rcases h with rfl | rfl | ⟨hs, -, rfl⟩
  · exact ⟨rfl, rfl⟩
  · exact ⟨rfl, rfl⟩
  · exact ⟨rfl, rfl⟩

/-! ## The check -/

section

variable {s s' : RelayState} {reply : Reply} {text : List UInt8} {fid : Nat}

theorem checkStep_statusRead (h : checkStep s (.statusRead fid) reply = some s') :
    (∃ bytes, reply = .data bytes ∧ s' = s.goto (.check (.compare (cString bytes)))) ∨
      (reply = .failed ∧ s' = s.goto .sleep) := by
  cases reply with
  | data bytes =>
    simp only [checkStep] at h
    split at h <;> cases h
    exact .inl ⟨bytes, rfl, rfl⟩
  | failed => exact .inr ⟨rfl, (Option.some.inj h).symm⟩
  | none | handshake | fid | done => cases h

theorem checkStep_compare (h : checkStep s (.compare text) reply = some s') :
    s' = s.goto (s.gate.decide text) := by
  cases reply with
  | none => exact (Option.some.inj h).symm
  | handshake | failed | fid | done | data => cases h

theorem checkStep_confirmWrite (h : checkStep s (.confirmWrite text fid) reply = some s') :
    ∃ confirm, confirm ≠ .notSent ∧ s' = s.goto (.check (.disarm text confirm)) := by
  cases reply with
  | done count => exact ⟨.written, (fun h => nomatch h), (Option.some.inj h).symm⟩
  | failed => exact ⟨.failed, (fun h => nomatch h), (Option.some.inj h).symm⟩
  | none | handshake | fid | data => cases h

theorem checkStep_disarm {confirm : Confirm} (h : checkStep s (.disarm text confirm) reply = some s') :
    s' = s.disarm.goto .sleep := by
  cases reply with
  | none => exact (Option.some.inj h).symm
  | handshake | failed | fid | done | data => cases h

end

/-! ## The host -/

theorem hostStep_move {s s' : RelayState} {host : Nat} {reply : Reply}
    (h : hostStep s host reply = some s') :
    ∃ base pc, LinkMove s reply base ∧ s' = base.setHost host pc := by
  unfold hostStep at h
  split at h
  · obtain ⟨⟨next, base⟩, hopen, rfl⟩ := Option.map_eq_some_iff.mp h
    exact ⟨base, _, openStep_move hopen, rfl⟩
  · rename_i op fid hhost
    have hdone : ∃ base pc, LinkMove s reply base ∧
        (if op.expectReset then s.drop else s).setHost host none = base.setHost host pc := by
      split
      · exact ⟨_, none, .inr (.inl rfl), rfl⟩
      · exact ⟨_, none, .inl rfl, rfl⟩
    split at h <;> cases h <;> exact hdone
  · cases h

/-! ## The image stream -/

def WriteMove (s s' : RelayState) : Prop :=
  (∃ stream writer image,
    s' = { s with stream := stream, writer := writer, past := { s.past with image := image } }) ∨
  ∃ fid buf stream writer, s' = { s.stage fid buf with stream := stream, writer := writer }

theorem writeLoop_move (s : RelayState) (buf : List UInt8) (done : Nat) :
    ∃ stream writer, s.writeLoop buf done = { s with stream := stream, writer := writer } := by
  unfold RelayState.writeLoop
  split
  · exact ⟨_, _, rfl⟩
  · exact ⟨_, _, rfl⟩

theorem writerStep_move {chunk : Nat} {s s' : RelayState} {reply : Reply}
    (h : writerStep chunk s reply = some s') : ∃ base, LinkMove s reply base ∧ WriteMove base s' := by
  unfold writerStep at h
  split at h
  · obtain ⟨⟨next, base⟩, hopen, rfl⟩ := Option.map_eq_some_iff.mp h
    rename_i buf pc hwriter
    refine ⟨base, openStep_move hopen, ?_⟩
    cases next with
    | go => exact .inl ⟨_, _, _, rfl⟩
    | opened fid =>
      obtain ⟨stream, writer, heq⟩ := writeLoop_move (base.stage fid buf) buf 0
      exact .inr ⟨fid, buf, stream, writer, heq⟩
    | failed => exact .inl ⟨_, _, _, rfl⟩
  · rename_i buf done n hwriter
    refine ⟨s, .inl rfl, .inl ?_⟩
    dsimp only at h
    split at h <;> cases h
    · exact ⟨_, _, _, rfl⟩
    · obtain ⟨stream, writer, heq⟩ := writeLoop_move (s.accept ((buf.drop done).take n)) buf (done + n)
      exact ⟨stream, writer, _, heq⟩
  · cases h
    exact ⟨s, .inl rfl, .inl ⟨_, _, _, rfl⟩⟩
  · cases h

theorem writerStep_cases {chunk : Nat} {s s' : RelayState} {reply : Reply} (h : writerStep chunk s reply = some s') :
    (∃ buf pc next base, s.writer = some (.opens buf pc) ∧ s.openStep pc reply = some (next, base) ∧
      s' = base.writeNext buf next) ∨
    (∃ buf done n, s.writer = some (.chunks buf done) ∧ reply = .done n ∧
      s' = if n < min (buf.length - done) chunk then (s.accept ((buf.drop done).take n)).writeDone (done + n)
        else (s.accept ((buf.drop done).take n)).writeLoop buf (done + n)) ∨
    ∃ buf done, s.writer = some (.chunks buf done) ∧ reply = .failed ∧
      s' = { s with stream := { s.stream with writing := false }, writer := none } := by
  unfold writerStep at h
  split at h
  · rename_i buf pc hwriter
    obtain ⟨⟨next, base⟩, hopen, rfl⟩ := Option.map_eq_some_iff.mp h
    exact .inl ⟨buf, pc, next, base, hwriter, hopen, rfl⟩
  · rename_i buf done n hwriter
    exact .inr (.inl ⟨buf, done, n, hwriter, rfl, (Option.some.inj h).symm⟩)
  · rename_i buf done hwriter
    exact .inr (.inr ⟨buf, done, hwriter, rfl, (Option.some.inj h).symm⟩)
  · cases h

theorem openStep_opened {s base : RelayState} {pc : OpenPc} {reply : Reply} {fid : Nat}
    (h : s.openStep pc reply = some (.opened fid, base)) :
    pc = .opens fid ∧ (∃ count, reply = .done count) ∧ base = s := by
  unfold RelayState.openStep at h
  split at h
  · split at h <;> cases h
  · cases h
  · split at h <;> cases h
  · cases h
    exact ⟨rfl, ⟨_, rfl⟩, rfl⟩
  · cases h
  · cases h

theorem writeStart_move {s s' : RelayState} {buf : List UInt8} (h : writeStart s buf = some s') :
    ∃ stream writer, s' = { s with stream := stream, writer := writer } := by
  unfold writeStart at h
  split at h <;> cases h
  split
  · exact writeLoop_move s buf 0
  · exact ⟨_, _, rfl⟩

def Event.streams : Event → Bool
  | .write _ | .writer _ | .clunk => true
  | _ => false

theorem checkStep_stream {s s' : RelayState} {pc : CheckPc} {reply : Reply} (h : checkStep s pc reply = some s') :
    s'.stream = s.stream ∧ s'.writer = s.writer := by
  cases pc with
  | statusOpen pc =>
    obtain ⟨⟨next, base⟩, hopen, rfl⟩ := Option.map_eq_some_iff.mp h
    have hbase := (openStep_move hopen).stream
    cases next with
    | go pc => cases pc <;> exact hbase
    | opened | failed => exact hbase
  | confirmOpen text pc =>
    obtain ⟨⟨next, base⟩, hopen, rfl⟩ := Option.map_eq_some_iff.mp h
    have hbase := (openStep_move hopen).stream
    cases next <;> exact hbase
  | statusRead fid =>
    rcases checkStep_statusRead h with ⟨bytes, -, rfl⟩ | ⟨-, rfl⟩ <;> exact ⟨rfl, rfl⟩
  | compare text =>
    rw [checkStep_compare h]
    exact ⟨rfl, rfl⟩
  | confirmWrite text fid =>
    obtain ⟨confirm, -, rfl⟩ := checkStep_confirmWrite h
    exact ⟨rfl, rfl⟩
  | disarm text confirm =>
    rw [checkStep_disarm h]
    exact ⟨rfl, rfl⟩

theorem monitorStep_stream {s s' : RelayState} {reply : Reply} (h : monitorStep s reply = some s') :
    s'.stream = s.stream ∧ s'.writer = s.writer := by
  unfold monitorStep at h
  split at h
  · split at h <;> cases h <;> exact ⟨rfl, rfl⟩
  · split at h <;> rename_i heq <;> cases h <;>
      exact ⟨(congrArg (fun p => p.2.stream) heq).symm, (congrArg (fun p => p.2.writer) heq).symm⟩
  · cases h
    exact ⟨rfl, rfl⟩
  · split at h <;> cases h <;> exact ⟨rfl, rfl⟩
  · exact checkStep_stream h
  · cases h
    exact ⟨rfl, rfl⟩
  · cases h

/-- No other event touches the image stream. -/
theorem step_stream {chunk : Nat} {s s' : RelayState} {event : Event} (h : step chunk s event = some s')
    (hother : event.streams = false) : s'.stream = s.stream ∧ s'.writer = s.writer := by
  cases event with
  | monitor reply => exact monitorStep_stream h
  | begin host op =>
    simp only [step] at h
    split at h <;> cases h
    exact ⟨rfl, rfl⟩
  | host host reply =>
    obtain ⟨base, pc, hmove, rfl⟩ := hostStep_move h
    exact hmove.stream
  | remoteRoot | remoteDown | disconnected | auto =>
    cases Option.some.inj h
    exact ⟨rfl, rfl⟩
  | write | writer | clunk => cases hother

theorem clunkStep_idle {s s' : RelayState} (h : clunkStep s = some s') :
    s.writer = none ∧ s' = if s.stream.writing then s.finalise else s := by
  unfold clunkStep at h
  split at h
  · rename_i hidle
    exact ⟨hidle, (Option.some.inj h).symm⟩
  · cases h

theorem clunkStep_cases {s s' : RelayState} (h : clunkStep s = some s') :
    s' = s ∨ (s.stream.writing = true ∧ s' = s.finalise) := by
  rw [(clunkStep_idle h).2]
  split
  · rename_i hwriting
    exact .inr ⟨hwriting, rfl⟩
  · exact .inl rfl

end DectMesh.Relay
