import DectMesh.Relay.AutoConfirm
import DectMesh.Relay.Offsets

/-! Whose stream it is. `dev/fw9151` is served to several sessions, and the
stream state is one set of globals: any fid of the file that is clunked closes
the stream, any session that writes adds to it. -/
namespace DectMesh.Relay

open DectMesh.Lib

structure Client where
  session : Nat
  fid : Nat
  deriving DecidableEq

inductive FileEvent where
  | opens (c : Client)
  | read (c : Client) (host : Nat)
  | write (c : Client) (buf : List UInt8)
  | clunk (c : Client)
  | inner (event : Event)

structure Served where
  relay : RelayState
  fids : List Client

def Served.init : Served := ⟨.init, []⟩

def Event.onFile : Event → Bool
  | .begin _ .read | .write _ | .clunk => true
  | _ => false

def fileStep (chunk : Nat) (s : Served) : FileEvent → Option Served
  | .opens c => if c ∈ s.fids then none else some { s with fids := c :: s.fids }
  | .read c host =>
      if c ∈ s.fids then (step chunk s.relay (.begin host .read)).map fun relay => { s with relay := relay } else none
  | .write c buf =>
      if c ∈ s.fids then (step chunk s.relay (.write buf)).map fun relay => { s with relay := relay } else none
  | .clunk c =>
      if c ∈ s.fids then (step chunk s.relay .clunk).map fun relay => ⟨relay, s.fids.erase c⟩ else none
  | .inner event =>
      if event.onFile then none else (step chunk s.relay event).map fun relay => { s with relay := relay }

/-- History: who wrote last, and whose write began the stream that is open. -/
structure Origin where
  writer : Option Client
  owner : Option Client

def Origin.init : Origin := ⟨none, none⟩

def RelayState.sending (s : RelayState) : Bool :=
  match s.writer with
  | some (.chunks _ _) => true
  | _ => false

/-- A stream ends when its owner's fid is clunked, or with a write that fails. -/
def Origin.note (s : Served) (e : FileEvent) (h : Origin) : Origin :=
  match e with
  | .write c _ => { h with writer := some c }
  | .clunk c => if h.owner = some c then { h with owner := none } else h
  | .inner (.writer .failed) => if s.relay.sending then { h with owner := none } else h
  | .inner event => if opensRemote s.relay event then { h with owner := h.writer } else h
  | _ => h

def FileEvent.clunked : FileEvent → Option Client
  | .clunk c => some c
  | _ => none

/-- The step ends the stream, as the relay clunks the 9151's firmware fid, or it
arms auto-confirm. -/
def Finalises (s s' : RelayState) : Prop :=
  (s.stream.writing = true ∧ s'.stream.writing = false) ∨ (s.gate.armed = false ∧ s'.gate.armed = true)

def OneSession (s : Served × Origin) : FileEvent → Prop
  | .inner (.writer _) =>
      s.1.relay.sending = true → s.2.owner.isSome = true ∧ s.2.writer.map Client.session = s.2.owner.map Client.session
  | _ => True

/-- The stream is ended and auto-confirm armed only with the clunk of the fid
whose write began it, and it is of one session. -/
def OwnerOnly (chunk : Nat) (s : Served × Origin) (e : FileEvent) : Prop :=
  (∀ s' ∈ fileStep chunk s.1 e, Finalises s.1.relay s'.relay → ∃ c ∈ e.clunked, s.2.owner = some c) ∧ OneSession s e

/-- While a stream is open, no other fid of the file is clunked, no other
session writes, and no sub-write fails. -/
def Undisturbed (s : Served × Origin) (e : FileEvent) : Prop :=
  match e with
  | .write c _ => ∀ owner ∈ s.2.owner, c.session = owner.session
  | .clunk c => ∀ owner ∈ s.2.owner, c = owner
  | .inner (.writer reply) => s.1.relay.sending = true → reply ≠ .failed
  | _ => True

instance (s s' : RelayState) : Decidable (Finalises s s') := inferInstanceAs (Decidable (_ ∧ _ ∨ _ ∧ _))

instance (s : Served × Origin) : (e : FileEvent) → Decidable (OneSession s e)
  | .inner (.writer _) => inferInstanceAs (Decidable (_ → _ ∧ _))
  | .inner (.monitor _) | .inner (.begin _ _) | .inner (.host _ _) | .inner (.remoteRoot _) | .inner .remoteDown
  | .inner .disconnected | .inner (.auto _) | .inner (.write _) | .inner .clunk | .opens _ | .read _ _ | .write _ _
  | .clunk _ => isTrue trivial

instance (chunk : Nat) (s : Served × Origin) (e : FileEvent) : Decidable (OwnerOnly chunk s e) :=
  inferInstanceAs (Decidable ((∀ s' ∈ fileStep chunk s.1 e, _ → ∃ c ∈ e.clunked, _) ∧ _))

instance (s : Served × Origin) : (e : FileEvent) → Decidable (Undisturbed s e)
  | .write _ _ => inferInstanceAs (Decidable (∀ owner ∈ _, _))
  | .clunk _ => inferInstanceAs (Decidable (∀ owner ∈ _, _))
  | .inner (.writer _) => inferInstanceAs (Decidable (_ → _))
  | .inner (.monitor _) | .inner (.begin _ _) | .inner (.host _ _) | .inner (.remoteRoot _) | .inner .remoteDown
  | .inner .disconnected | .inner (.auto _) | .inner (.write _) | .inner .clunk | .opens _ | .read _ _ =>
      isTrue trivial

/-! ## The owner of an open stream -/

variable {chunk : Nat}

/-- The stream has an owner while it is open, and a call in progress is of the
owner's session, or opens the stream. -/
structure Owned (s : RelayState) (h : Origin) : Prop where
  owner : s.stream.writing = h.owner.isSome
  opening : ∀ buf pc, s.writer = some (.opens buf pc) → s.stream.writing = false ∧ h.writer.isSome = true
  inside : s.sending = true → s.stream.writing = true ∧ h.writer.map Client.session = h.owner.map Client.session

theorem owned_start : Owned .init .init := ⟨rfl, nofun, nofun⟩

theorem Owned.same {s s' : RelayState} {h : Origin} (howned : Owned s h) (hstream : s'.stream = s.stream)
    (hwriter : s'.writer = s.writer) : Owned s' h := by
  obtain ⟨howner, hopening, hinside⟩ := howned
  refine ⟨?_, ?_, ?_⟩
  · rw [hstream]
    exact howner
  · rw [hstream, hwriter]
    exact hopening
  · rw [RelayState.sending, hstream, hwriter]
    exact hinside

theorem Owned.idle {s : RelayState} {h : Origin} (howner : s.stream.writing = h.owner.isSome)
    (hidle : s.writer = none) : Owned s h := by
  refine ⟨howner, fun buf pc hwriter => ?_, fun hsending => ?_⟩
  · rw [hidle] at hwriter
    cases hwriter
  · rw [RelayState.sending, hidle] at hsending
    cases hsending

theorem owned_loop {s : RelayState} {h : Origin} (howner : s.stream.writing = h.owner.isSome)
    (hwriting : s.stream.writing = true) (hsame : h.writer.map Client.session = h.owner.map Client.session)
    (buf : List UInt8) (done : Nat) : Owned (s.writeLoop buf done) h := by
  unfold RelayState.writeLoop
  split
  · exact ⟨howner, nofun, fun _ => ⟨hwriting, hsame⟩⟩
  · exact ⟨howner, nofun, nofun⟩

theorem owned_write {s s' : RelayState} {h : Origin} {c : Client} {buf : List UInt8} (howned : Owned s h)
    (hgood : ∀ owner ∈ h.owner, c.session = owner.session) (hstep : writeStart s buf = some s') :
    Owned s' { h with writer := some c } := by
  unfold writeStart at hstep
  split at hstep
  · cases hstep
    split
    · rename_i hwriting
      have howner := howned.owner
      rw [hwriting] at howner
      obtain ⟨owner, hsome⟩ := Option.isSome_iff_exists.mp howner.symm
      apply owned_loop
      · exact howned.owner
      · exact hwriting
      · simp only [hsome, Option.map_some, hgood owner hsome]
    · rename_i hwriting
      exact ⟨howned.owner, fun _ _ _ => ⟨Bool.not_eq_true _ ▸ hwriting, rfl⟩, nofun⟩
  · cases hstep

theorem opensRemote_opened {s base : RelayState} {buf : List UInt8} {pc : OpenPc} {reply : Reply} {next : OpenNext}
    (hwriter : s.writer = some (.opens buf pc)) (hopen : s.openStep pc reply = some (next, base))
    (hopens : opensRemote s (.writer reply) = true) : ∃ fid, next = .opened fid := by
  unfold opensRemote at hopens
  split at hopens
  · rename_i count hreply
    cases hreply
    rw [hwriter] at hopens
    split at hopens
    · rename_i fid hpc
      cases hpc
      cases hopen
      exact ⟨fid, rfl⟩
    · cases hopens
  · cases hopens

theorem sending_iff {s : RelayState} : s.sending = true ↔ ∃ buf done, s.writer = some (.chunks buf done) := by
  unfold RelayState.sending
  constructor
  · intro h
    split at h
    · rename_i hwriter
      exact ⟨_, _, hwriter⟩
    · cases h
  · rintro ⟨buf, done, hwriter⟩
    rw [hwriter]

theorem owned_writer {s s' : Served} {h : Origin} {reply : Reply} (howned : Owned s.relay h)
    (hstep : writerStep chunk s.relay reply = some s'.relay) :
    Owned s'.relay (Origin.note s (.inner (.writer reply)) h) := by
  rcases writerStep_cases hstep with ⟨buf, pc, next, base, hwriter, hopen, heq⟩ | ⟨buf, done, n, hwriter, rfl, heq⟩ |
    ⟨buf, done, hwriter, rfl, heq⟩
  · -- the call is opening the remote file
    obtain ⟨hclosed, hsome⟩ := howned.opening buf pc hwriter
    obtain ⟨hstream, -⟩ := (openStep_move hopen).stream
    have hsending : s.relay.sending = false := by
      rw [RelayState.sending, hwriter]
    have hnote : (∀ fid, next ≠ .opened fid) → Origin.note s (.inner (.writer reply)) h = h := by
      intro hnext
      have hopens : opensRemote s.relay (.writer reply) = false := by
        by_contra htrue
        obtain ⟨fid, heq⟩ := opensRemote_opened hwriter hopen (Bool.not_eq_false _ ▸ htrue)
        exact hnext fid heq
      cases reply with
      | failed => simp only [Origin.note, hsending, Bool.false_eq_true, if_false]
      | _ => simp only [Origin.note, hopens, Bool.false_eq_true, if_false]
    have hbase : base.stream.writing = h.owner.isSome := by
      rw [hstream]
      exact howned.owner
    rw [heq]
    cases next with
    | opened fid =>
      obtain ⟨rfl, ⟨count, rfl⟩, rfl⟩ := openStep_opened hopen
      have hopens : opensRemote s.relay (.writer (.done count)) = true := by rw [opensRemote, hwriter]
      have hwriting : (s.relay.stage fid buf).stream.writing = true := by
        unfold RelayState.stage
        split <;> rfl
      simp only [Origin.note, hopens, if_true]
      exact owned_loop (by rw [hwriting, hsome]) hwriting rfl buf 0
    | go pc' =>
      rw [hnote]
      · refine ⟨hbase, fun _ _ _ => ⟨hstream ▸ hclosed, hsome⟩, fun hsends => ?_⟩
        obtain ⟨buf', done, hchunks⟩ := sending_iff.mp hsends
        cases hchunks
      · intro fid heq
        cases heq
    | failed =>
      rw [hnote]
      · apply Owned.idle
        · exact hbase
        · rfl
      · intro fid heq
        cases heq
  · obtain ⟨hwriting, hsame⟩ := howned.inside (sending_iff.mpr ⟨buf, done, hwriter⟩)
    have hopens : opensRemote s.relay (.writer (.done n)) = false := by rw [opensRemote, hwriter]
    simp only [Origin.note, hopens, Bool.false_eq_true, if_false]
    rw [heq]
    split
    · apply Owned.idle
      · exact howned.owner
      · rfl
    · apply owned_loop
      · exact howned.owner
      · exact hwriting
      · exact hsame
  · have hsending : s.relay.sending = true := sending_iff.mpr ⟨buf, done, hwriter⟩
    simp only [Origin.note, hsending, if_true]
    rw [heq]
    apply Owned.idle <;> rfl

theorem owned_clunk {s s' : RelayState} {h : Origin} {c : Client} (howned : Owned s h)
    (hgood : ∀ owner ∈ h.owner, c = owner) (hstep : clunkStep s = some s') :
    Owned s' (if h.owner = some c then { h with owner := none } else h) := by
  obtain ⟨hidle, rfl⟩ := clunkStep_idle hstep
  cases howner : h.owner with
  | none =>
    have hclosed := howned.owner
    rw [howner, Option.isSome_none] at hclosed
    rw [hclosed, if_neg nofun, if_neg nofun]
    exact howned
  | some owner =>
    have hopen := howned.owner
    rw [howner, Option.isSome_some] at hopen
    rw [hopen, if_pos rfl, hgood owner howner, if_pos rfl]
    apply Owned.idle
    · rfl
    · exact hidle

theorem owned_file (s : Served) (h : Origin) (e : FileEvent) (s' : Served) (howned : Owned s.relay h)
    (hgood : Undisturbed (s, h) e) (hstep : fileStep chunk s e = some s') : Owned s'.relay (Origin.note s e h) := by
  cases e with
  | opens c =>
    simp only [fileStep] at hstep
    split at hstep <;> cases hstep
    exact howned
  | read c host =>
    simp only [fileStep] at hstep
    split at hstep
    · obtain ⟨relay, hrelay, rfl⟩ := Option.map_eq_some_iff.mp hstep
      obtain ⟨hstream, hwriter⟩ := step_stream hrelay rfl
      exact howned.same hstream hwriter
    · cases hstep
  | write c buf =>
    simp only [fileStep] at hstep
    split at hstep
    · obtain ⟨relay, hrelay, rfl⟩ := Option.map_eq_some_iff.mp hstep
      exact owned_write howned hgood hrelay
    · cases hstep
  | clunk c =>
    simp only [fileStep] at hstep
    split at hstep
    · obtain ⟨relay, hrelay, rfl⟩ := Option.map_eq_some_iff.mp hstep
      exact owned_clunk howned hgood hrelay
    · cases hstep
  | inner event =>
    simp only [fileStep] at hstep
    split at hstep
    · cases hstep
    · rename_i hinner
      obtain ⟨relay, hrelay, rfl⟩ := Option.map_eq_some_iff.mp hstep
      cases event with
      | writer reply => exact owned_writer howned hrelay
      | write | clunk => exact absurd rfl hinner
      | monitor | begin | host | remoteRoot | remoteDown | disconnected | auto =>
        obtain ⟨hstream, hwriter⟩ := step_stream hrelay rfl
        exact howned.same hstream hwriter

/-! ## What ends a stream -/

theorem writeLoop_stream (s : RelayState) (buf : List UInt8) (done : Nat) :
    (s.writeLoop buf done).stream.writing = s.stream.writing := by
  unfold RelayState.writeLoop
  split <;> rfl

/-- A stream ends with a close of the file, or with a sub-write that fails. -/
theorem stream_ended {s s' : RelayState} {event : Event} (h : step chunk s event = some s')
    (hopen : s.stream.writing = true) (hclosed : s'.stream.writing = false) :
    event = .clunk ∨ (event = .writer .failed ∧ s.sending = true) := by
  have hchanged : s'.stream.writing ≠ s.stream.writing := by
    rw [hopen, hclosed]
    decide
  cases event with
  | clunk => exact .inl rfl
  | write buf =>
    refine absurd ?_ hchanged
    simp only [step, writeStart] at h
    split at h
    · cases h
      exact writeLoop_stream s buf 0
    · cases h
  | writer reply =>
    rcases writerStep_cases h with ⟨buf, pc, next, base, -, hopen', heq⟩ | ⟨buf, done, n, -, -, heq⟩ |
      ⟨buf, done, hwriter, rfl, -⟩
    · -- opening the file does not close the stream
      obtain ⟨hstream, -⟩ := (openStep_move hopen').stream
      rw [heq] at hclosed hchanged
      cases next with
      | go | failed => exact absurd (congrArg Stream.writing hstream) hchanged
      | opened fid =>
        rw [RelayState.writeNext, writeLoop_stream] at hclosed
        unfold RelayState.stage at hclosed
        split at hclosed <;> cases hclosed
    · refine absurd ?_ hchanged
      rw [heq]
      split
      · rfl
      · exact writeLoop_stream _ _ _
    · exact .inr ⟨rfl, sending_iff.mpr ⟨buf, done, hwriter⟩⟩
  | monitor | begin | host | remoteRoot | remoteDown | disconnected | auto =>
    exact absurd (congrArg Stream.writing (step_stream h rfl).1) hchanged

/-- A step that ends the stream or arms the gate is a close of an open stream,
or a sub-write that fails. -/
theorem Finalises.cause {s s' : RelayState} {event : Event} (hfinal : Finalises s s')
    (h : step chunk s event = some s') :
    (event = .clunk ∧ s.stream.writing = true) ∨ (event = .writer .failed ∧ s.sending = true) := by
  rcases hfinal with ⟨hopen, hclosed⟩ | ⟨hidle, harmed⟩
  · exact (stream_ended h hopen hclosed).imp_left fun heq => ⟨heq, hopen⟩
  · exact .inl (armed_set h hidle harmed)

theorem Finalises.irrefl (s : RelayState) : ¬ Finalises s s := by
  rintro (⟨hopen, hclosed⟩ | ⟨hidle, harmed⟩)
  · rw [hopen] at hclosed
    cases hclosed
  · rw [hidle] at harmed
    cases harmed

theorem Owned.oneSession {s : Served} {h : Origin} (howned : Owned s.relay h) (e : FileEvent) :
    OneSession (s, h) e := by
  cases e with
  | inner event =>
    cases event with
    | writer reply =>
      intro hsending
      obtain ⟨hwriting, hsame⟩ := howned.inside hsending
      exact ⟨howned.owner ▸ hwriting, hsame⟩
    | _ => trivial
  | _ => trivial

theorem Owned.finaliser {s s' : Served} {h : Origin} (howned : Owned s.relay h) {e : FileEvent}
    (hgood : Undisturbed (s, h) e) (hstep : fileStep chunk s e = some s') (hfinal : Finalises s.relay s'.relay) :
    ∃ c ∈ e.clunked, h.owner = some c := by
  cases e with
  | opens c =>
    simp only [fileStep] at hstep
    split at hstep <;> cases hstep
    exact absurd hfinal (Finalises.irrefl s.relay)
  | read c host =>
    simp only [fileStep] at hstep
    split at hstep
    · obtain ⟨relay, hrelay, rfl⟩ := Option.map_eq_some_iff.mp hstep
      rcases hfinal.cause hrelay with ⟨heq, -⟩ | ⟨heq, -⟩ <;> cases heq
    · cases hstep
  | write c buf =>
    simp only [fileStep] at hstep
    split at hstep
    · obtain ⟨relay, hrelay, rfl⟩ := Option.map_eq_some_iff.mp hstep
      rcases hfinal.cause hrelay with ⟨heq, -⟩ | ⟨heq, -⟩ <;> cases heq
    · cases hstep
  | clunk c =>
    simp only [fileStep] at hstep
    split at hstep
    · obtain ⟨relay, hrelay, rfl⟩ := Option.map_eq_some_iff.mp hstep
      rcases hfinal.cause hrelay with ⟨-, hwriting⟩ | ⟨heq, -⟩
      · rw [howned.owner] at hwriting
        obtain ⟨owner, howner⟩ := Option.isSome_iff_exists.mp hwriting
        exact ⟨c, rfl, by rw [howner, hgood owner howner]⟩
      · cases heq
    · cases hstep
  | inner event =>
    simp only [fileStep] at hstep
    split at hstep
    · cases hstep
    · rename_i hinner
      obtain ⟨relay, hrelay, rfl⟩ := Option.map_eq_some_iff.mp hstep
      rcases hfinal.cause hrelay with ⟨rfl, -⟩ | ⟨rfl, hsending⟩
      · exact absurd rfl hinner
      · exact absurd rfl (hgood hsending)

theorem Owned.ownerOnly {s : Served} {h : Origin} (howned : Owned s.relay h) {e : FileEvent}
    (hgood : Undisturbed (s, h) e) : OwnerOnly chunk (s, h) e :=
  ⟨fun _ hstep hfinal => howned.finaliser hgood hstep hfinal, howned.oneSession e⟩

/-- While no other fid of the file is clunked under an open stream, no other
session writes and no sub-write fails, the stream is ended and auto-confirm armed
only with the clunk of the fid whose write began it, and it is of one session. -/
theorem ota_stream_owned {events : List FileEvent}
    (hgood : Along (recording (fileStep chunk) Origin.note) Undisturbed (.init, .init) events) :
    Along (recording (fileStep chunk) Origin.note) (OwnerOnly chunk) (.init, .init) events :=
  recording_along owned_file (fun _ _ _ howned hgood => howned.ownerOnly hgood) owned_start hgood

def streamEvents : List FileEvent :=
  [.opens ⟨0, 1⟩, .write ⟨0, 1⟩ [7], .inner (.writer (.handshake ⟨none, true, some 1⟩)), .inner (.writer (.fid 5)),
    .inner (.writer (.done 0)), .inner (.writer (.done 1))]

/-- It closes its file. -/
theorem ota_stream_closed_by_writer :
    Along (recording (fileStep 2048) Origin.note) (OwnerOnly 2048) (.init, .init) (streamEvents ++ [.clunk ⟨0, 1⟩]) :=
  ota_stream_owned (by decide +kernel)

/-- Another session reads the status and clunks its fid: the stream is closed
and its first byte is the image. -/
theorem ota_status_read_finalises : ¬ ∀ events : List FileEvent,
    Along (recording (fileStep 2048) Origin.note) (OwnerOnly 2048) (.init, .init) events := by
  intro hclaim
  have hclosed := hclaim (streamEvents ++ [.opens ⟨1, 1⟩, .read ⟨1, 1⟩ 0,
    .inner (.host 0 (.handshake ⟨none, false, none⟩)), .inner (.host 0 (.fid 6)), .inner (.host 0 (.done 0)),
    .inner (.host 0 (.data [0x69])), .clunk ⟨1, 1⟩])
  revert hclosed
  decide +kernel

end DectMesh.Relay
