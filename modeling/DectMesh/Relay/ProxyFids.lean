import DectMesh.Lib.Handles
import DectMesh.Lib.History
import DectMesh.Relay.Steps

/-! The fids that the relay's proxied operations have on the 9151. An operation
walks to its file, opens it, does its one read or write and clunks the fid; the
image stream keeps its own fid open between two writes. Operations of several
threads interleave on the one client. -/
namespace DectMesh.Relay

open DectMesh.Lib

inductive Holder where
  | monitor
  | host (host : Nat)
  | stream
  deriving DecidableEq

def OpenPc.fid : OpenPc → Option Nat
  | .opens fid => some fid
  | _ => none

def CheckPc.fid : CheckPc → Option Nat
  | .statusOpen pc | .confirmOpen _ pc => pc.fid
  | .statusRead fid | .confirmWrite _ fid => some fid
  | .compare _ | .disarm _ _ => none

def MonitorPc.fid : MonitorPc → Option Nat
  | .check pc => pc.fid
  | _ => none

def HostPc.fid : HostPc → Option Nat
  | .opens _ pc => pc.fid
  | .io _ fid => some fid

/-- `fw9151_wfid` while `fw9151_writing`, or the fid that is about to become it. -/
def RelayState.streamFid (s : RelayState) : Option Nat :=
  match s.writer with
  | some (.opens _ pc) => pc.fid
  | _ => if s.stream.writing then some s.stream.wfid else none

def RelayState.fidOf (s : RelayState) : Holder → Option Nat
  | .monitor => s.monitor.fid
  | .host host => (s.hosts host).bind HostPc.fid
  | .stream => s.streamFid

/-! ## What a step takes out and gives back -/

def givenFid : Reply → Option Nat
  | .fid n => some n
  | _ => none

def walked : Event → Option Nat
  | .monitor reply | .host _ reply | .writer reply => givenFid reply
  | _ => none

def OpenPc.clunks : OpenPc → Reply → Option Nat
  | .opens fid, .failed => some fid
  | _, _ => none

def CheckPc.clunks : CheckPc → Reply → Option Nat
  | .statusOpen pc, reply | .confirmOpen _ pc, reply => pc.clunks reply
  | .statusRead fid, _ | .confirmWrite _ fid, _ => some fid
  | _, _ => none

def HostPc.clunks : HostPc → Reply → Option Nat
  | .opens _ pc, reply => pc.clunks reply
  | .io _ fid, _ => some fid

/-- The fid that the step clunks, whatever the Tclunk comes to. -/
def clunked (s : RelayState) : Event → Option Nat
  | .monitor reply =>
      match s.monitor with
      | .check pc => pc.clunks reply
      | _ => none
  | .host host reply => (s.hosts host).bind (·.clunks reply)
  | .writer reply =>
      match s.writer, reply with
      | some (.opens _ pc), reply => pc.clunks reply
      | some (.chunks _ _), .failed => some s.stream.wfid
      | _, _ => none
  | .clunk => if s.stream.writing then some s.stream.wfid else none
  | _ => none

def noteFids (s : RelayState) (event : Event) (out : List Nat) : List Nat :=
  settle (walked event) (clunked s event) out

/-- The client gives a walk a fid that is not in use. -/
def FreshFid (t : RelayState × List Nat) (event : Event) : Prop := ∀ fid ∈ walked event, fid ∉ t.2

instance (t : RelayState × List Nat) (event : Event) : Decidable (FreshFid t event) :=
  inferInstanceAs (Decidable (∀ fid ∈ walked event, fid ∉ t.2))

def used (s : RelayState) (event : Event) : Option Nat :=
  match event with
  | .monitor _ => s.monitor.fid
  | .host host _ => (s.hosts host).bind HostPc.fid
  | .writer _ => s.streamFid
  | .clunk => if s.stream.writing then some s.stream.wfid else none
  | _ => none

def OwnFid (t : RelayState × List Nat) (event : Event) : Prop := ∀ fid ∈ used t.1 event, fid ∈ t.2

/-! ## Every step passes fids at one place -/

/-- The stream is not open yet while its file is being opened, and open while
bytes are being sent. -/
def StreamOrderly (s : RelayState) : Prop :=
  (∀ buf pc, s.writer = some (.opens buf pc) → s.stream.writing = false) ∧
    ∀ buf done, s.writer = some (.chunks buf done) → s.stream.writing = true

def OpenNext.fid : OpenNext → Option Nat
  | .go pc => pc.fid
  | .opened fid => some fid
  | .failed => none

theorem openStep_passes {s s' : RelayState} {pc : OpenPc} {reply : Reply} {next : OpenNext}
    (h : s.openStep pc reply = some (next, s')) : Passes pc.fid (givenFid reply) (pc.clunks reply) next.fid := by
  unfold RelayState.openStep at h
  split at h
  · split at h <;> cases h <;> exact .keeps none
  · cases h
    exact .takes _
  · split at h <;> cases h <;> exact .keeps none
  · cases h
    exact .keeps _
  · cases h
    exact .returns _
  · cases h

theorem statusNext_fid (s : RelayState) (next : OpenNext) : (s.statusNext next).monitor.fid = next.fid := by
  cases next with
  | go pc => cases pc <;> rfl
  | opened fid => rfl
  | failed => rfl

theorem confirmNext_fid (s : RelayState) (text : List UInt8) (next : OpenNext) :
    (s.confirmNext text next).monitor.fid = next.fid := by
  cases next <;> rfl

theorem decide_fid (gate : Gate) (text : List UInt8) : (gate.decide text).fid = none := by
  unfold Gate.decide
  split
  · split <;> rfl
  · split <;> rfl

theorem checkStep_passes {s s' : RelayState} {pc : CheckPc} {reply : Reply} (h : checkStep s pc reply = some s') :
    Passes pc.fid (givenFid reply) (pc.clunks reply) s'.monitor.fid := by
  cases pc with
  | statusOpen pc =>
    obtain ⟨⟨next, base⟩, hopen, rfl⟩ := Option.map_eq_some_iff.mp h
    rw [statusNext_fid]
    exact openStep_passes hopen
  | confirmOpen text pc =>
    obtain ⟨⟨next, base⟩, hopen, rfl⟩ := Option.map_eq_some_iff.mp h
    rw [confirmNext_fid]
    exact openStep_passes hopen
  | statusRead fid =>
    rcases checkStep_statusRead h with ⟨bytes, rfl, rfl⟩ | ⟨rfl, rfl⟩ <;> exact .returns fid
  | compare text =>
    have hnone : reply = .none := by
      cases reply with
      | none => rfl
      | handshake | failed | fid | done | data => cases h
    rw [checkStep_compare h, hnone]
    exact (decide_fid s.gate text).symm ▸ Passes.keeps none
  | confirmWrite text fid =>
    have hnot : givenFid reply = none := by
      cases reply with
      | fid n => cases h
      | none | handshake | failed | done | data => rfl
    obtain ⟨confirm, -, rfl⟩ := checkStep_confirmWrite h
    rw [hnot]
    exact .returns fid
  | disarm text confirm =>
    have hnone : reply = .none := by
      cases reply with
      | none => rfl
      | handshake | failed | fid | done | data => cases h
    rw [checkStep_disarm h, hnone]
    exact .keeps none

theorem monitorStep_passes {s s' : RelayState} {reply : Reply} (h : monitorStep s reply = some s') :
    Passes s.monitor.fid (walked (.monitor reply)) (clunked s (.monitor reply)) s'.monitor.fid := by
  unfold monitorStep at h
  unfold clunked walked
  split at h
  · rename_i hmonitor
    rw [hmonitor]
    split at h <;> cases h <;> exact .keeps none
  · rename_i hmonitor
    rw [hmonitor]
    split at h <;> cases h <;> exact .keeps none
  · rename_i hmonitor
    rw [hmonitor]
    cases h
    dsimp only [RelayState.goto]
    split <;> exact .keeps none
  · rename_i hmonitor
    rw [hmonitor]
    split at h <;> cases h <;> exact .keeps none
  · rename_i pc reply hmonitor
    rw [hmonitor]
    exact checkStep_passes h
  · rename_i hmonitor
    rw [hmonitor]
    cases h
    exact .keeps none
  · cases h

theorem setHost_hosts (s : RelayState) (host : Nat) (pc : Option HostPc) : (s.setHost host pc).hosts host = pc :=
  Function.update_self ..

theorem hostOp_next_fid (op : HostOp) (next : OpenNext) : (op.next next).bind HostPc.fid = next.fid := by
  cases next <;> rfl

theorem hostStep_passes {s s' : RelayState} {host : Nat} {reply : Reply} (h : hostStep s host reply = some s') :
    Passes ((s.hosts host).bind HostPc.fid) (walked (.host host reply)) (clunked s (.host host reply))
      ((s'.hosts host).bind HostPc.fid) := by
  unfold hostStep at h
  unfold clunked walked
  dsimp only
  split at h
  · rename_i op pc hhost
    obtain ⟨⟨next, base⟩, hopen, rfl⟩ := Option.map_eq_some_iff.mp h
    rw [hhost, setHost_hosts, hostOp_next_fid]
    exact openStep_passes hopen
  · rename_i op fid hhost
    rw [hhost]
    split at h
    · cases h
      rw [setHost_hosts]
      exact .returns fid
    · cases h
      rw [setHost_hosts]
      exact .returns fid
    · cases h
      rw [setHost_hosts]
      exact .returns fid
    · cases h
  · cases h

theorem writeLoop_fid (s : RelayState) (buf : List UInt8) (done : Nat) :
    (s.writeLoop buf done).streamFid = if s.stream.writing then some s.stream.wfid else none := by
  unfold RelayState.writeLoop
  split <;> rfl

theorem stage_stream (s : RelayState) (fid : Nat) (buf : List UInt8) : (s.stage fid buf).stream = ⟨true, fid, 0⟩ := by
  unfold RelayState.stage
  split <;> rfl

theorem writerStep_passes {chunk : Nat} {s s' : RelayState} {reply : Reply} (horderly : StreamOrderly s)
    (h : writerStep chunk s reply = some s') :
    Passes s.streamFid (walked (.writer reply)) (clunked s (.writer reply)) s'.streamFid := by
  rcases writerStep_cases h with ⟨buf, pc, next, base, hwriter, hopen, rfl⟩ | ⟨buf, done, n, hwriter, rfl, rfl⟩ |
    ⟨buf, done, hwriter, rfl, rfl⟩
  · have hidle : base.stream.writing = false := (openStep_move hopen).stream.1 ▸ horderly.1 buf pc hwriter
    have hnext : (base.writeNext buf next).streamFid = next.fid := by
      cases next with
      | go pc => rfl
      | opened fid =>
        rw [RelayState.writeNext, writeLoop_fid, stage_stream]
        rfl
      | failed => simp [RelayState.writeNext, RelayState.streamFid, hidle, OpenNext.fid]
    rw [hnext]
    dsimp only [RelayState.streamFid, clunked]
    rw [hwriter]
    exact openStep_passes hopen
  · have hopen := horderly.2 buf done hwriter
    have hbefore : s.streamFid = some s.stream.wfid := by
      rw [RelayState.streamFid, hwriter]
      exact if_pos hopen
    have hafter : (if n < min (buf.length - done) chunk then (s.accept ((buf.drop done).take n)).writeDone (done + n)
        else (s.accept ((buf.drop done).take n)).writeLoop buf (done + n)).streamFid = some s.stream.wfid := by
      split
      · exact if_pos hopen
      · rw [writeLoop_fid]
        exact if_pos hopen
    rw [hbefore, hafter]
    dsimp only [clunked]
    rw [hwriter]
    exact .keeps _
  · have hbefore : s.streamFid = some s.stream.wfid := by
      rw [RelayState.streamFid, hwriter]
      exact if_pos (horderly.2 buf done hwriter)
    rw [hbefore]
    dsimp only [clunked]
    rw [hwriter]
    exact .returns _

theorem clunkStep_passes {s s' : RelayState} (h : clunkStep s = some s') :
    Passes s.streamFid none (clunked s .clunk) s'.streamFid := by
  obtain ⟨hidle, rfl⟩ := clunkStep_idle h
  have hbefore : s.streamFid = if s.stream.writing then some s.stream.wfid else none := by
    rw [RelayState.streamFid, hidle]
  rw [hbefore]
  dsimp only [clunked]
  split
  · have hafter : s.finalise.streamFid = none := by
      rw [RelayState.streamFid, show s.finalise.writer = none from hidle]
      rfl
    rw [hafter]
    exact .returns _
  · rename_i hclosed
    rw [hbefore, if_neg hclosed]
    exact .keeps none

theorem writeStart_passes {s s' : RelayState} {buf : List UInt8} (h : writeStart s buf = some s') :
    s'.streamFid = s.streamFid := by
  unfold writeStart at h
  split at h
  · rename_i hidle
    have hbefore : s.streamFid = if s.stream.writing then some s.stream.wfid else none := by
      rw [RelayState.streamFid, hidle]
    cases h
    split
    · rename_i hopen
      rw [writeLoop_fid, hbefore]
    · rename_i hclosed
      rw [hbefore, if_neg hclosed]
      rfl
  · cases h

/-! ## Nobody else's fid -/

theorem LinkMove.fids {s s' : RelayState} {reply : Reply} (h : LinkMove s reply s') : s'.fidOf = s.fidOf := by
  rcases h with rfl | rfl | ⟨hs, -, rfl⟩ <;> funext holder <;> cases holder <;> rfl

theorem goto_fidOf (s : RelayState) (pc : MonitorPc) {holder : Holder} (h : holder ≠ .monitor) :
    (s.goto pc).fidOf holder = s.fidOf holder := by
  cases holder with
  | monitor => exact absurd rfl h
  | host | stream => rfl

theorem statusNext_others (s : RelayState) (next : OpenNext) {holder : Holder} (h : holder ≠ .monitor) :
    (s.statusNext next).fidOf holder = s.fidOf holder := by
  cases next with
  | go pc => cases pc <;> exact goto_fidOf _ _ h
  | opened | failed => exact goto_fidOf _ _ h

theorem checkStep_others {s s' : RelayState} {pc : CheckPc} {reply : Reply} (h : checkStep s pc reply = some s')
    {holder : Holder} (hother : holder ≠ .monitor) : s'.fidOf holder = s.fidOf holder := by
  cases pc with
  | statusOpen pc =>
    obtain ⟨⟨next, base⟩, hopen, rfl⟩ := Option.map_eq_some_iff.mp h
    rw [statusNext_others base next hother, (openStep_move hopen).fids]
  | confirmOpen text pc =>
    obtain ⟨⟨next, base⟩, hopen, rfl⟩ := Option.map_eq_some_iff.mp h
    rw [← (openStep_move hopen).fids]
    cases next <;> exact goto_fidOf _ _ hother
  | statusRead fid =>
    rcases checkStep_statusRead h with ⟨bytes, -, rfl⟩ | ⟨-, rfl⟩ <;> exact goto_fidOf _ _ hother
  | compare text =>
    rw [checkStep_compare h]
    exact goto_fidOf _ _ hother
  | confirmWrite text fid =>
    obtain ⟨confirm, -, rfl⟩ := checkStep_confirmWrite h
    exact goto_fidOf _ _ hother
  | disarm text confirm =>
    rw [checkStep_disarm h]
    exact goto_fidOf s.disarm _ hother

theorem monitorStep_others {s s' : RelayState} {reply : Reply} (h : monitorStep s reply = some s')
    {holder : Holder} (hother : holder ≠ .monitor) : s'.fidOf holder = s.fidOf holder := by
  unfold monitorStep at h
  split at h
  · split at h <;> cases h <;> exact goto_fidOf _ _ hother
  · rename_i hs hmonitor
    have hbase : (s.ensure hs).2.fidOf = s.fidOf := LinkMove.fids (.inr (.inr ⟨hs, rfl, rfl⟩))
    split at h <;> rename_i heq <;> cases h
    all_goals
      rw [heq] at hbase
      rw [← hbase]
      exact goto_fidOf _ _ hother
  · cases h
    exact goto_fidOf _ _ hother
  · split at h <;> cases h <;> exact goto_fidOf _ _ hother
  · exact checkStep_others h hother
  · cases h
    exact goto_fidOf _ _ hother
  · cases h

theorem setHost_others (s : RelayState) (host : Nat) (pc : Option HostPc) {holder : Holder}
    (h : holder ≠ .host host) :
    (s.setHost host pc).fidOf holder = s.fidOf holder := by
  cases holder with
  | monitor | stream => rfl
  | host other =>
    have hne : other ≠ host := fun heq => h (congrArg Holder.host heq)
    have hsame : (s.setHost host pc).hosts other = s.hosts other := Function.update_of_ne hne ..
    exact congrArg (·.bind HostPc.fid) hsame

theorem writerStep_others {chunk : Nat} {s s' : RelayState} {reply : Reply} (h : writerStep chunk s reply = some s')
    {holder : Holder} (hother : holder ≠ .stream) : s'.fidOf holder = s.fidOf holder := by
  obtain ⟨base, hmove, hwrite⟩ := writerStep_move h
  rw [← hmove.fids]
  rcases hwrite with ⟨stream, writer, image, rfl⟩ | ⟨fid, buf, stream, writer, rfl⟩
  · cases holder with
    | monitor | host => rfl
    | stream => exact absurd rfl hother
  · have hstage : (base.stage fid buf).monitor = base.monitor ∧ (base.stage fid buf).hosts = base.hosts := by
      unfold RelayState.stage
      split <;> exact ⟨rfl, rfl⟩
    cases holder with
    | monitor => exact congrArg MonitorPc.fid hstage.1
    | host host => exact congrArg (fun hosts => (hosts host).bind HostPc.fid) hstage.2
    | stream => exact absurd rfl hother

/-! ## The stream -/

theorem writeLoop_orderly {s : RelayState} (buf : List UInt8) (done : Nat) (h : s.stream.writing = true) :
    StreamOrderly (s.writeLoop buf done) := by
  unfold RelayState.writeLoop
  split
  · exact ⟨fun _ _ hwriter => by simp at hwriter, fun _ _ _ => h⟩
  · exact ⟨fun _ _ hwriter => by simp [RelayState.writeDone] at hwriter,
      fun _ _ hwriter => by simp [RelayState.writeDone] at hwriter⟩

theorem orderly_idle {s : RelayState} (h : s.writer = none) : StreamOrderly s :=
  ⟨fun _ _ hwriter => by simp [h] at hwriter, fun _ _ hwriter => by simp [h] at hwriter⟩

theorem writerStep_orderly {chunk : Nat} {s s' : RelayState} {reply : Reply} (horderly : StreamOrderly s)
    (h : writerStep chunk s reply = some s') : StreamOrderly s' := by
  rcases writerStep_cases h with ⟨buf, pc, next, base, hwriter, hopen, rfl⟩ | ⟨buf, done, n, hwriter, -, rfl⟩ |
    ⟨buf, done, -, -, rfl⟩
  · have hidle : base.stream.writing = false := (openStep_move hopen).stream.1 ▸ horderly.1 buf pc hwriter
    cases next with
    | go pc => exact ⟨fun _ _ _ => hidle, fun _ _ hchunks => by simp [RelayState.writeNext] at hchunks⟩
    | opened fid => exact writeLoop_orderly buf 0 (congrArg Stream.writing (stage_stream base fid buf))
    | failed => exact orderly_idle rfl
  · split
    · exact orderly_idle rfl
    · exact writeLoop_orderly buf _ (horderly.2 buf done hwriter)
  · exact orderly_idle rfl

theorem step_orderly {chunk : Nat} {s s' : RelayState} {event : Event} (horderly : StreamOrderly s)
    (h : step chunk s event = some s') : StreamOrderly s' := by
  cases event with
  | write buf =>
    simp only [step, writeStart] at h
    split at h
    · cases h
      split
      · rename_i hopen
        exact writeLoop_orderly buf 0 hopen
      · rename_i hclosed
        exact ⟨fun _ _ _ => Bool.not_eq_true _ ▸ hclosed, fun _ _ hchunks => by simp at hchunks⟩
    · cases h
  | writer reply => exact writerStep_orderly horderly h
  | clunk =>
    obtain ⟨hidle, rfl⟩ := clunkStep_idle h
    split <;> exact orderly_idle hidle
  | monitor | begin | host | remoteRoot | remoteDown | disconnected | auto =>
    obtain ⟨hstream, hwriter⟩ := step_stream h rfl
    rw [StreamOrderly, hstream, hwriter]
    exact horderly

/-! ## Whole runs -/

theorem passStep_same {has has' : Holder → Option Nat} (h : has' = has) : PassStep has has' none none .monitor :=
  ⟨h ▸ .keeps _, fun _ _ => h ▸ rfl⟩

theorem step_passes {chunk : Nat} {s s' : RelayState} {event : Event} (horderly : StreamOrderly s)
    (h : step chunk s event = some s') :
    ∃ holder, PassStep s.fidOf s'.fidOf (walked event) (clunked s event) holder := by
  cases event with
  | monitor reply => exact ⟨.monitor, monitorStep_passes h, fun other hother => monitorStep_others h hother⟩
  | begin host op =>
    simp only [step] at h
    split at h
    · rename_i hidle
      cases h
      refine ⟨.host host, ?_, fun other hother => setHost_others s host _ hother⟩
      rw [RelayState.fidOf, RelayState.fidOf, setHost_hosts, hidle]
      exact .keeps none
    · cases h
  | host host reply =>
    refine ⟨.host host, hostStep_passes h, fun other hother => ?_⟩
    obtain ⟨base, pc, hmove, rfl⟩ := hostStep_move h
    rw [setHost_others base host pc hother, hmove.fids]
  | remoteRoot hs =>
    cases Option.some.inj h
    exact ⟨.monitor, passStep_same (LinkMove.fids (.inr (.inr ⟨hs, rfl, rfl⟩)))⟩
  | remoteDown =>
    cases Option.some.inj h
    exact ⟨.monitor, passStep_same (@LinkMove.fids _ _ .none (.inr (.inl rfl)))⟩
  | disconnected | auto =>
    cases Option.some.inj h
    exact ⟨.monitor, passStep_same (by funext holder; cases holder <;> rfl)⟩
  | write buf =>
    obtain ⟨stream, writer, heq⟩ := writeStart_move h
    refine ⟨.stream, ?_, fun other hother => ?_⟩
    · show Passes s.streamFid none none s'.streamFid
      rw [writeStart_passes h]
      exact .keeps _
    · subst heq
      cases other with
      | monitor | host => rfl
      | stream => exact absurd rfl hother
  | writer reply => exact ⟨.stream, writerStep_passes horderly h, fun other hother => writerStep_others h hother⟩
  | clunk =>
    refine ⟨.stream, clunkStep_passes h, fun other hother => ?_⟩
    rcases clunkStep_cases h with rfl | ⟨-, rfl⟩
    · rfl
    · cases other with
      | monitor | host => rfl
      | stream => exact absurd rfl hother

theorem used_fid {s : RelayState} (horderly : StreamOrderly s) {event : Event} {fid : Nat}
    (hused : used s event = some fid) : ∃ holder, s.fidOf holder = some fid := by
  cases event with
  | monitor => exact ⟨.monitor, hused⟩
  | host host => exact ⟨.host host, hused⟩
  | writer => exact ⟨.stream, hused⟩
  | clunk =>
    refine ⟨.stream, ?_⟩
    obtain ⟨hwriting, hfid⟩ := Option.ite_none_right_eq_some.mp hused
    show s.streamFid = some fid
    unfold RelayState.streamFid
    split
    · rename_i buf pc hwriter
      rw [horderly.1 buf pc hwriter] at hwriting
      cases hwriting
    · rw [if_pos hwriting, hfid]
  | begin | remoteRoot | remoteDown | disconnected | auto | write => cases hused

structure FidsKept (s : RelayState) (out : List Nat) : Prop where
  orderly : StreamOrderly s
  accounted : Accounted s.fidOf out

theorem fidsKept_init : FidsKept .init [] where
  orderly := orderly_idle rfl
  accounted := by
    have hnone : RelayState.init.fidOf = fun _ => none := by funext holder; cases holder <;> rfl
    rw [hnone]
    exact accounted_none

theorem FidsKept.step {chunk : Nat} {s s' : RelayState} {out : List Nat} {event : Event} (h : FidsKept s out)
    (hfresh : FreshFid (s, out) event) (hstep : Relay.step chunk s event = some s') :
    FidsKept s' (noteFids s event out) where
  orderly := step_orderly h.orderly hstep
  accounted := by
    obtain ⟨holder, hpass⟩ := step_passes h.orderly hstep
    exact h.accounted.step hfresh hpass

theorem FidsKept.length_le {s : RelayState} {out : List Nat} (h : FidsKept s out) {busy : List Nat}
    (hbusy : ∀ host, s.hosts host ≠ none → host ∈ busy) : out.length ≤ busy.length + 2 := by
  have hparties : ∀ holder, s.fidOf holder ≠ none → holder ∈ Holder.monitor :: .stream :: busy.map Holder.host := by
    intro holder hholder
    cases holder with
    | monitor | stream => simp
    | host host =>
      have hhost : s.hosts host ≠ none := fun hnone => hholder (by simp [RelayState.fidOf, hnone])
      simpa using hbusy host hhost
  simpa using h.accounted.length_le hparties

/-- In every run, whatever the order of the threads' steps and whatever the RPCs
come to: the fids that are out are those of the operations under way and of the
open stream, none has two owners, and none is used that is not out. -/
theorem proxy_fids_accounted {chunk : Nat} {events : List Event} {s : RelayState} {out : List Nat}
    (hfresh : Along (recording (step chunk) noteFids) FreshFid (.init, []) events)
    (hrun : run (recording (step chunk) noteFids) (.init, []) events = some (s, out)) :
    Accounted s.fidOf out ∧
      (∀ busy : List Nat, (∀ host, s.hosts host ≠ none → host ∈ busy) → out.length ≤ busy.length + 2) ∧
      Along (recording (step chunk) noteFids) OwnFid (.init, []) events := by
  have hstep : ∀ (t : RelayState × List Nat) (event : Event) (t' : RelayState × List Nat), FidsKept t.1 t.2 →
      FreshFid t event → recording (step chunk) noteFids t event = some t' → FidsKept t'.1 t'.2 := by
    rintro ⟨s, out⟩ event ⟨s', out'⟩ hkept hfresh hnext
    obtain ⟨hs, rfl⟩ := recording_eq_some.mp hnext
    exact hkept.step hfresh hs
  have hkept : FidsKept s out := run_invariant (fun t => FidsKept t.1 t.2) hstep fidsKept_init hfresh hrun
  refine ⟨hkept.accounted, fun busy hbusy => hkept.length_le hbusy, ?_⟩
  refine along_of_invariant hstep (fun t event hkept _ fid hused => ?_) fidsKept_init hfresh
  exact (hkept.accounted.out_iff fid).mpr (used_fid hkept.orderly hused)

/-- Two host operations and the monitor's check, one within the other; one Topen
fails. -/
theorem proxy_fids_accounted_interleaved :
    let events : List Event := [.begin 0 .read, .begin 1 .write, .host 0 (.handshake ⟨none, true, some 1⟩),
      .host 1 (.handshake ⟨none, true, some 1⟩), .host 0 (.fid 2), .host 1 (.fid 3), .host 0 (.done 0),
      .host 1 .failed, .begin 1 .confirm]
    ∃ s out, run (recording (step 384) noteFids) (.init, []) events = some (s, out) ∧ out = [2] ∧
      Accounted s.fidOf out ∧
        (∀ busy : List Nat, (∀ host, s.hosts host ≠ none → host ∈ busy) → out.length ≤ busy.length + 2) ∧
        Along (recording (step 384) noteFids) OwnFid (.init, []) events := by
  intro events
  obtain ⟨⟨s, out⟩, hrun, hout⟩ := Option.map_eq_some_iff.mp
    (show (run (recording (step 384) noteFids) (.init, []) events).map (·.2) = some [2] from rfl)
  exact ⟨s, out, hrun, hout, proxy_fids_accounted (by decide) hrun⟩

end DectMesh.Relay
