import DectMesh.Lib.History
import DectMesh.Relay.Steps

/-! Offsets of the image stream. `fw9151_write` has no use for the offset that
a write brings and counts its own, from 0 when it opens the remote file. -/
namespace DectMesh.Relay

open DectMesh.Lib

structure HostEvent where
  event : Event
  off : Nat

def hostEventStep (chunk : Nat) (s : RelayState) (e : HostEvent) : Option RelayState := step chunk s e.event

def loopReturns (buf : List UInt8) (done : Nat) : Option (Option Nat) :=
  if done < buf.length then none else some (some done)

/-- What `fw9151_write` returns in a step: a count, or `none` inside for an
error. It does not return in every step. -/
def writeReturns (chunk : Nat) (s : RelayState) : Event → Option (Option Nat)
  | .write buf => if s.stream.writing then loopReturns buf 0 else none
  | .writer reply =>
      match s.writer, reply with
      | some (.opens buf pc), reply =>
          match s.openStep pc reply with
          | some (.opened _, _) => loopReturns buf 0
          | some (.failed, _) => some none
          | _ => none
      | some (.chunks buf done), .done n =>
          if n < min (buf.length - done) chunk then some (some (done + n)) else loopReturns buf (done + n)
      | some (.chunks _ _), .failed => some none
      | _, _ => none
  | _ => none

/-- The sub-write of a step: where in the call's buffer it begins, the offset in
its Twrite, and its bytes. -/
def subWrite (chunk : Nat) (s : RelayState) : Event → Option (Nat × Nat × List UInt8)
  | .writer _ =>
      match s.writer with
      | some (.chunks buf done) => some (done, s.stream.woff + done, (buf.drop done).take chunk)
      | _ => none
  | _ => none

/-- History of the host: the offset of the write in progress, where the writes
that succeeded ended, and the offsets of those that returned an error. A close
of the file begins it anew. -/
structure HostWrites where
  current : Nat
  ended : Nat
  failed : List Nat

def HostWrites.init : HostWrites := ⟨0, 0, []⟩

def HostWrites.returned (h : HostWrites) : Option (Option Nat) → HostWrites
  | some (some count) => { h with ended := h.current + count }
  | some none => { h with failed := h.current :: h.failed }
  | none => h

def HostWrites.note (chunk : Nat) (s : RelayState) (e : HostEvent) (h : HostWrites) : HostWrites :=
  match e.event with
  | .write _ => { h with current := e.off }.returned (writeReturns chunk s e.event)
  | .clunk => { h with ended := 0, failed := [] }
  | event => h.returned (writeReturns chunk s event)

def Continues (s : RelayState × HostWrites) (e : HostEvent) : Prop :=
  match e.event with
  | .write _ => e.off = s.2.ended ∨ e.off ∈ s.2.failed
  | _ => True

/-- Every byte is written on the 9151 at the offset it has for the host. -/
def Faithful (chunk : Nat) (s : RelayState × HostWrites) (e : HostEvent) : Prop :=
  (subWrite chunk s.1 e.event).all fun (start, remote, _) => remote = s.2.current + start

def opensRemote (s : RelayState) : Event → Bool
  | .writer (.done _) =>
      match s.writer with
      | some (.opens _ (.opens _)) => true
      | _ => false
  | _ => false

/-- A write that finds a stream open starts where the successful ones ended, one
that opens the remote file starts at 0. -/
def FromStart (s : RelayState × HostWrites) (e : HostEvent) : Prop :=
  match e.event with
  | .write _ => s.1.stream.writing = true → e.off = s.2.ended
  | event => opensRemote s.1 event = true → s.2.current = 0

instance (s : RelayState × HostWrites) (e : HostEvent) : Decidable (Continues s e) :=
  match h : e.event with
  | .write _ => decidable_of_iff (e.off = s.2.ended ∨ e.off ∈ s.2.failed) (by rw [Continues, h])
  | .monitor _ | .begin _ _ | .host _ _ | .remoteRoot _ | .remoteDown | .disconnected | .auto _ | .writer _ | .clunk =>
      isTrue (by rw [Continues, h]; trivial)

instance (chunk : Nat) (s : RelayState × HostWrites) (e : HostEvent) : Decidable (Faithful chunk s e) :=
  inferInstanceAs (Decidable (_ = _))

instance (s : RelayState × HostWrites) (e : HostEvent) : Decidable (FromStart s e) :=
  match h : e.event with
  | .write _ => decidable_of_iff (s.1.stream.writing = true → e.off = s.2.ended) (by rw [FromStart, h])
  | .monitor _ | .begin _ _ | .host _ _ | .remoteRoot _ | .remoteDown | .disconnected | .auto _ | .writer _ | .clunk =>
      decidable_of_iff (opensRemote s.1 e.event = true → s.2.current = 0) (by rw [FromStart, h])

/-! ## The two offsets -/

variable {chunk : Nat}

/-- The proxy's offset is the host's: that of the write in progress, and between
two writes where the last one ended. -/
structure SameOffset (s : RelayState) (h : HostWrites) : Prop where
  opening : ∀ buf pc, s.writer = some (.opens buf pc) → s.stream.writing = false
  inside : ∀ buf done, s.writer = some (.chunks buf done) → s.stream.woff = h.current
  between : s.writer = none → s.stream.writing = true → s.stream.woff = h.ended

theorem sameOffset_init : SameOffset .init .init := ⟨nofun, nofun, nofun⟩

theorem sameOffset_loop {s : RelayState} {h : HostWrites} (hsame : s.stream.woff = h.current) (buf : List UInt8)
    (done : Nat) : SameOffset (s.writeLoop buf done) (h.returned (loopReturns buf done)) := by
  unfold RelayState.writeLoop loopReturns
  split
  · refine ⟨nofun, fun _ _ _ => hsame, nofun⟩
  · refine ⟨nofun, nofun, fun _ _ => ?_⟩
    simp only [RelayState.writeDone, HostWrites.returned, hsame]

theorem sameOffset_write {s s' : RelayState} {h : HostWrites} {buf : List UInt8} {off : Nat} (hsame : SameOffset s h)
    (hfrom : s.stream.writing = true → off = h.ended) (hstep : writeStart s buf = some s') :
    SameOffset s' ({ h with current := off }.returned (writeReturns chunk s (.write buf))) := by
  unfold writeStart at hstep
  split at hstep
  · rename_i hidle
    cases hstep
    simp only [writeReturns]
    split
    · rename_i hwriting
      apply sameOffset_loop
      rw [hsame.between hidle hwriting, hfrom hwriting]
    · rename_i hwriting
      exact ⟨fun _ _ _ => Bool.not_eq_true _ ▸ hwriting, nofun, nofun⟩
  · cases hstep

theorem sameOffset_writer {s s' : RelayState} {h : HostWrites} {reply : Reply} (hsame : SameOffset s h)
    (hfrom : opensRemote s (.writer reply) = true → h.current = 0) (hstep : writerStep chunk s reply = some s') :
    SameOffset s' (h.returned (writeReturns chunk s (.writer reply))) := by
  rcases writerStep_cases hstep with ⟨buf, pc, next, base, hwriter, hopen, rfl⟩ | ⟨buf, done, n, hwriter, rfl, rfl⟩ |
    ⟨buf, done, hwriter, rfl, rfl⟩
  · have hclosed : base.stream.writing = false := by
      rw [(openStep_move hopen).stream.1]
      exact hsame.opening buf pc hwriter
    simp only [writeReturns, hwriter, hopen]
    cases next with
    | go pc' => exact ⟨fun _ _ _ => hclosed, nofun, nofun⟩
    | failed =>
      refine ⟨nofun, nofun, fun _ hwriting => ?_⟩
      rw [RelayState.writeNext, hclosed] at hwriting
      cases hwriting
    | opened fid =>
      obtain ⟨rfl, ⟨count, rfl⟩, rfl⟩ := openStep_opened hopen
      apply sameOffset_loop
      rw [hfrom (by rw [opensRemote, hwriter])]
      unfold RelayState.stage
      split <;> rfl
  · have hinside := hsame.inside buf done hwriter
    simp only [writeReturns, hwriter]
    split
    · refine ⟨nofun, nofun, fun _ _ => ?_⟩
      simp only [RelayState.writeDone, RelayState.accept, HostWrites.returned, hinside]
    · apply sameOffset_loop
      exact hinside
  · exact ⟨nofun, nofun, nofun⟩

theorem sameOffset_clunk {s s' : RelayState} {h : HostWrites} (hstep : clunkStep s = some s') : SameOffset s' h := by
  obtain ⟨hidle, rfl⟩ := clunkStep_idle hstep
  have hidle' : (if s.stream.writing then s.finalise else s).writer = none := by
    split <;> exact hidle
  refine ⟨fun _ _ hwriter => ?_, fun _ _ hwriter => ?_, fun _ hwriting => ?_⟩
  · rw [hidle'] at hwriter
    cases hwriter
  · rw [hidle'] at hwriter
    cases hwriter
  · split at hwriting
    · cases hwriting
    · rename_i hclosed
      exact absurd hwriting hclosed

theorem sameOffset_step (s : RelayState) (h : HostWrites) (e : HostEvent) (s' : RelayState) (hsame : SameOffset s h)
    (hfrom : FromStart (s, h) e) (hstep : hostEventStep chunk s e = some s') :
    SameOffset s' (HostWrites.note chunk s e h) := by
  obtain ⟨event, off⟩ := e
  cases event with
  | write buf => exact sameOffset_write hsame hfrom hstep
  | writer reply => exact sameOffset_writer hsame hfrom hstep
  | clunk => exact sameOffset_clunk hstep
  | monitor | begin | host | remoteRoot | remoteDown | disconnected | auto =>
    obtain ⟨hstream, hwriter⟩ := step_stream hstep rfl
    refine ⟨?_, ?_, ?_⟩
    · rw [hstream, hwriter]
      exact hsame.opening
    · rw [hstream, hwriter]
      exact hsame.inside
    · rw [hstream, hwriter]
      exact hsame.between

theorem SameOffset.faithful {s : RelayState} {h : HostWrites} (hsame : SameOffset s h) (e : HostEvent) :
    Faithful chunk (s, h) e := by
  obtain ⟨event, off⟩ := e
  unfold Faithful
  cases event with
  | writer reply =>
    simp only [subWrite]
    split
    · rename_i buf done hwriter
      simp only [Option.all_some, hsame.inside buf done hwriter, decide_true]
    · rfl
  | _ => rfl

/-- While a write that opens the remote file starts at 0, and one that finds it
open where the successful writes ended, every byte is written where the host
put it. -/
theorem ota_offsets_kept {events : List HostEvent}
    (hfrom : Along (recording (hostEventStep chunk) (HostWrites.note chunk)) FromStart (.init, .init) events) :
    Along (recording (hostEventStep chunk) (HostWrites.note chunk)) (Faithful chunk) (.init, .init) events :=
  recording_along sameOffset_step (fun _ _ e hsame _ => hsame.faithful e) sameOffset_init hfrom

def openEvents : List HostEvent :=
  [⟨.writer (.handshake ⟨none, true, some 1⟩), 0⟩, ⟨.writer (.fid 5), 0⟩, ⟨.writer (.done 0), 0⟩]

/-- Two writes, the second cut short and continued. -/
theorem ota_offsets_short_write :
    Along (recording (hostEventStep 2048) (HostWrites.note 2048)) (Faithful 2048) (.init, .init)
      ([⟨.write [1, 2], 0⟩] ++ openEvents ++
        [⟨.writer (.done 2), 0⟩, ⟨.write [3, 4], 2⟩, ⟨.writer (.done 1), 0⟩, ⟨.write [4], 3⟩,
          ⟨.writer (.done 1), 0⟩]) :=
  ota_offsets_kept (by decide +kernel)

/-- The second write fails on the 9151, and the host sends it again: the remote
file is opened anew, and byte 1 is written at offset 0. -/
theorem ota_retry_moves_bytes : ¬ ∀ events : List HostEvent,
    Along (recording (hostEventStep 2048) (HostWrites.note 2048)) Continues (.init, .init) events →
      Along (recording (hostEventStep 2048) (HostWrites.note 2048)) (Faithful 2048) (.init, .init) events := by
  intro hclaim
  have hkept := hclaim
    ([⟨.write [1], 0⟩] ++ openEvents ++
      [⟨.writer (.done 1), 0⟩, ⟨.write [2], 1⟩, ⟨.writer .failed, 0⟩, ⟨.write [2], 1⟩] ++ openEvents ++
      [⟨.writer (.done 1), 0⟩]) (by decide +kernel)
  revert hkept
  decide +kernel

end DectMesh.Relay
