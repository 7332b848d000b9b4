import DectMesh.Lib.History
import DectMesh.Relay.Steps

/-! The relay's link over whole runs, beside a log of what its handshakes send
and of the host sessions that dropped. Three of the threads, the host's
operations among them, take the link up; walks that fail, the remote tree and
`dev/reboot` take it down. -/
namespace DectMesh.Relay

open DectMesh.Lib

/-- A Tattach that keeps the 9151's fids, a Tversion, the Tattach behind one,
each with what came back, and `mesh_host_disconnected`. -/
inductive LinkEntry where
  | reattach (root : Option Nat)
  | version (answered : Bool)
  | attach (root : Option Nat)
  | hostDown
  deriving DecidableEq

def LinkEntry.isVersion : LinkEntry → Bool
  | .version _ => true
  | _ => false

def LinkEntry.root : LinkEntry → Option Nat
  | .reattach root | .attach root => root
  | _ => none

def Handshake.negotiation (h : Handshake) : List LinkEntry :=
  .version h.version :: if h.version then [.attach h.attach] else []

/-- What a call of `mesh_ensure_attached` sends. -/
def Handshake.sends (h : Handshake) (link : Link) : List LinkEntry :=
  if link.attached then []
  else if link.versioned then
    .reattach h.reattach :: if h.reattach.isSome then [] else h.negotiation
  else h.negotiation

def Handshake.Versions (h : Handshake) (link : Link) : Prop :=
  link.attached = false ∧ (link.versioned = true → h.reattach = none)

instance (h : Handshake) (link : Link) : Decidable (h.Versions link) :=
  inferInstanceAs (Decidable (_ ∧ (_ → _)))

def Event.entries (event : Event) (link : Link) : List LinkEntry :=
  match event.handshake with
  | some h => h.sends link
  | none => if event = .disconnected then [.hostDown] else []

def noteLink (s : RelayState) (event : Event) (log : List LinkEntry) : List LinkEntry :=
  log ++ event.entries s.link

/-! ## What an event does to the link -/

/-- The link after an event: a handshake, a host session that dropped, or at most
a drop. -/
def LinkTurn (link : Link) (event : Event) (link' : Link) : Prop :=
  (∃ h, event.handshake = some h ∧ link' = (meshEnsureAttached h link).2) ∨
    (event = .disconnected ∧ link' = link.reset) ∨
      event.handshake = none ∧ event ≠ .disconnected ∧ (link' = link ∨ link' = link.drop)

def ReplyTurn (link : Link) (reply : Reply) (link' : Link) : Prop :=
  (∃ h, reply = .handshake h ∧ link' = (meshEnsureAttached h link).2) ∨
    (∀ h, reply ≠ .handshake h) ∧ (link' = link ∨ link' = link.drop)

theorem openStep_turn {s s' : RelayState} {pc : OpenPc} {reply : Reply} {next : OpenNext}
    (h : s.openStep pc reply = some (next, s')) : ReplyTurn s.link reply s'.link := by
  unfold RelayState.openStep at h
  split at h
  · rename_i attempt hs
    refine .inl ⟨hs, rfl, ?_⟩
    split at h <;> rename_i heq <;> cases h <;> exact (congrArg (fun p => p.2.link) heq).symm
  · cases h
    exact .inr ⟨by simp, .inl rfl⟩
  · cases h
    exact .inr ⟨by simp, .inr rfl⟩
  · cases h
    exact .inr ⟨by simp, .inl rfl⟩
  · cases h
    exact .inr ⟨by simp, .inl rfl⟩
  · cases h

@[simp] theorem statusNext_link (s : RelayState) (next : OpenNext) : (s.statusNext next).link = s.link := by
  cases next with
  | go pc => cases pc <;> rfl
  | opened | failed => rfl

@[simp] theorem confirmNext_link (s : RelayState) (text : List UInt8) (next : OpenNext) :
    (s.confirmNext text next).link = s.link := by
  cases next <;> rfl

theorem checkStep_turn {s s' : RelayState} {pc : CheckPc} {reply : Reply} (h : checkStep s pc reply = some s') :
    ReplyTurn s.link reply s'.link := by
  unfold checkStep at h
  split at h
  · obtain ⟨⟨next, base⟩, hopen, rfl⟩ := Option.map_eq_some_iff.mp h
    rw [statusNext_link]
    exact openStep_turn hopen
  · split at h <;> cases h
    exact .inr ⟨by simp, .inl rfl⟩
  · cases h
    exact .inr ⟨by simp, .inl rfl⟩
  · cases h
    exact .inr ⟨by simp, .inl rfl⟩
  · obtain ⟨⟨next, base⟩, hopen, rfl⟩ := Option.map_eq_some_iff.mp h
    rw [confirmNext_link]
    exact openStep_turn hopen
  · cases h
    exact .inr ⟨by simp, .inl rfl⟩
  · cases h
    exact .inr ⟨by simp, .inl rfl⟩
  · cases h
    exact .inr ⟨by simp, .inl rfl⟩
  · cases h

theorem monitorStep_turn {s s' : RelayState} {reply : Reply} (h : monitorStep s reply = some s') :
    ReplyTurn s.link reply s'.link := by
  unfold monitorStep at h
  split at h
  · split at h <;> cases h <;> exact .inr ⟨by simp, .inl rfl⟩
  · rename_i hs _
    refine .inl ⟨hs, rfl, ?_⟩
    split at h <;> rename_i heq <;> cases h <;> exact (congrArg (fun p => p.2.link) heq).symm
  · cases h
    exact .inr ⟨by simp, .inl rfl⟩
  · split at h <;> cases h <;> exact .inr ⟨by simp, .inl rfl⟩
  · exact checkStep_turn h
  · cases h
    exact .inr ⟨by simp, .inl rfl⟩
  · cases h

theorem hostStep_turn {s s' : RelayState} {host : Nat} {reply : Reply} (h : hostStep s host reply = some s') :
    ReplyTurn s.link reply s'.link := by
  unfold hostStep at h
  split at h
  · obtain ⟨⟨next, base⟩, hopen, rfl⟩ := Option.map_eq_some_iff.mp h
    show ReplyTurn s.link reply base.link
    exact openStep_turn hopen
  · rename_i op fid hhost
    have hend : ((if op.expectReset then s.drop else s).setHost host none).link = s.link ∨
        ((if op.expectReset then s.drop else s).setHost host none).link = s.link.drop := by
      split
      · exact .inr rfl
      · exact .inl rfl
    split at h <;> cases h <;> exact .inr ⟨by simp, hend⟩
  · cases h

@[simp] theorem writeLoop_link (s : RelayState) (buf : List UInt8) (done : Nat) :
    (s.writeLoop buf done).link = s.link := by
  unfold RelayState.writeLoop
  split <;> rfl

@[simp] theorem stage_link (s : RelayState) (fid : Nat) (buf : List UInt8) : (s.stage fid buf).link = s.link := by
  unfold RelayState.stage
  split <;> rfl

@[simp] theorem writeNext_link (s : RelayState) (buf : List UInt8) (next : OpenNext) :
    (s.writeNext buf next).link = s.link := by
  cases next with
  | go | failed => rfl
  | opened fid => simp [RelayState.writeNext]

theorem writerStep_turn {chunk : Nat} {s s' : RelayState} {reply : Reply}
    (h : writerStep chunk s reply = some s') : ReplyTurn s.link reply s'.link := by
  rcases writerStep_cases h with ⟨buf, pc, next, base, -, hopen, rfl⟩ | ⟨buf, done, n, -, rfl, rfl⟩ |
    ⟨buf, done, -, rfl, rfl⟩
  · rw [writeNext_link]
    exact openStep_turn hopen
  · refine .inr ⟨by simp, .inl ?_⟩
    split
    · rfl
    · exact writeLoop_link _ _ _
  · exact .inr ⟨by simp, .inl rfl⟩

theorem ReplyTurn.event {link link' : Link} {reply : Reply} {event : Event} (h : ReplyTurn link reply link')
    (hhandshake : ∀ hs, event.handshake = some hs ↔ reply = .handshake hs) (hevent : event ≠ .disconnected) :
    LinkTurn link event link' := by
  rcases h with ⟨hs, hreply, hlink⟩ | ⟨hreply, hlink⟩
  · exact .inl ⟨hs, (hhandshake hs).mpr hreply, hlink⟩
  · refine .inr (.inr ⟨?_, hevent, hlink⟩)
    apply Option.eq_none_iff_forall_ne_some.mpr
    intro hs hsome
    exact hreply hs ((hhandshake hs).mp hsome)

theorem step_turn {chunk : Nat} {s s' : RelayState} {event : Event} (h : step chunk s event = some s') :
    LinkTurn s.link event s'.link := by
  cases event with
  | monitor reply =>
    exact (monitorStep_turn h).event (fun hs => by cases reply <;> simp [Event.handshake]) (by simp)
  | host host reply =>
    exact (hostStep_turn h).event (fun hs => by cases reply <;> simp [Event.handshake]) (by simp)
  | writer reply =>
    exact (writerStep_turn h).event (fun hs => by cases reply <;> simp [Event.handshake]) (by simp)
  | begin host op =>
    simp only [step] at h
    split at h <;> cases h
    exact .inr (.inr ⟨rfl, by simp, .inl rfl⟩)
  | remoteRoot hs =>
    cases Option.some.inj h
    exact .inl ⟨hs, rfl, rfl⟩
  | remoteDown =>
    cases Option.some.inj h
    exact .inr (.inr ⟨rfl, by simp, .inr rfl⟩)
  | disconnected =>
    cases Option.some.inj h
    exact .inr (.inl ⟨rfl, rfl⟩)
  | auto buf =>
    cases Option.some.inj h
    exact .inr (.inr ⟨rfl, by simp, .inl rfl⟩)
  | write buf =>
    obtain ⟨stream, writer, rfl⟩ := writeStart_move h
    exact .inr (.inr ⟨rfl, by simp, .inl rfl⟩)
  | clunk =>
    refine .inr (.inr ⟨rfl, by simp, .inl ?_⟩)
    rcases clunkStep_cases h with rfl | ⟨-, rfl⟩ <;> rfl

/-! ## What the log tells -/

def currentRoot (log : List LinkEntry) : Option Nat :=
  log.foldl (fun root e => if e.isVersion then none else e.root.or root) none

def lastVersion (log : List LinkEntry) : Option Bool :=
  log.foldl (fun last e => match e with | .version answered => some answered | _ => last) none

def sinceVersion (log : List LinkEntry) : List LinkEntry :=
  log.foldl (fun since e => if e.isVersion then [] else since ++ [e]) []

/-- Why a Tversion may follow: the link was never versioned, the re-Tattach right
before failed, a host session dropped since the last Tversion, or that one was
not answered. -/
def VersionDue (log : List LinkEntry) : Prop :=
  .version true ∉ log ∨ log.getLast? = some (.reattach none) ∨ .hostDown ∈ sinceVersion log ∨
    lastVersion log = some false

instance (log : List LinkEntry) : Decidable (VersionDue log) := inferInstanceAs (Decidable (_ ∨ _))

@[simp] theorem currentRoot_append (log : List LinkEntry) (e : LinkEntry) :
    currentRoot (log ++ [e]) = if e.isVersion then none else e.root.or (currentRoot log) := by
  simp [currentRoot]

@[simp] theorem lastVersion_version (log : List LinkEntry) (answered : Bool) :
    lastVersion (log ++ [.version answered]) = some answered := by
  simp [lastVersion]

@[simp] theorem sinceVersion_append (log : List LinkEntry) (e : LinkEntry) :
    sinceVersion (log ++ [e]) = if e.isVersion then [] else sinceVersion log ++ [e] := by
  simp [sinceVersion]

/-! ## The invariant -/

structure LinkKept (link : Link) (log : List LinkEntry) : Prop where
  root : link.attached = true → link.versioned = true ∧ currentRoot log = some link.rootFid
  unversioned : link.versioned = false → VersionDue log
  due : ∀ before answered after, log = before ++ .version answered :: after → VersionDue before

theorem linkKept_init : LinkKept RelayState.init.link [] where
  root := fun h => by cases h
  unversioned := fun _ => .inl List.not_mem_nil
  due := fun before _ _ h => by simp at h

theorem due_append {log entries : List LinkEntry}
    (hlog : ∀ before answered after, log = before ++ .version answered :: after → VersionDue before)
    (hentries : ∀ mid answered after, entries = mid ++ .version answered :: after → VersionDue (log ++ mid)) :
    ∀ before answered after, log ++ entries = before ++ .version answered :: after → VersionDue before := by
  intro before answered after h
  rcases List.append_eq_append_iff.mp h with ⟨mid, rfl, hmid⟩ | ⟨mid, hmid, hafter⟩
  · exact hentries mid answered after hmid
  · cases mid with
    | nil =>
      rw [List.append_nil] at hmid
      rw [← hmid, ← List.append_nil log]
      exact hentries [] answered after hafter.symm
    | cons e rest =>
      obtain ⟨rfl, -⟩ := List.cons.inj hafter
      exact hlog before answered rest hmid

/-- An entry that is no Tversion needs no reason. -/
theorem due_other {log : List LinkEntry} {e : LinkEntry} (he : e.isVersion = false)
    (hlog : ∀ before answered after, log = before ++ .version answered :: after → VersionDue before) :
    ∀ before answered after, log ++ [e] = before ++ .version answered :: after → VersionDue before := by
  apply due_append hlog
  intro mid answered after heq
  cases mid with
  | nil =>
    rw [List.nil_append, List.cons.injEq] at heq
    rw [heq.1] at he
    cases he
  | cons e' rest => simp at heq

theorem LinkKept.negotiate {link : Link} {log : List LinkEntry}
    (hdue : ∀ before answered after, log = before ++ .version answered :: after → VersionDue before)
    (hdown : link.attached = false) (hnow : VersionDue log)
    (h : Handshake) : LinkKept (link.negotiate h).2 (log ++ h.negotiation) := by
  have hsent : ∀ before answered after, log ++ h.negotiation = before ++ .version answered :: after →
      VersionDue before := by
    apply due_append hdue
    intro mid answered after heq
    cases mid with
    | nil =>
      rw [List.append_nil]
      exact hnow
    | cons e rest =>
      obtain ⟨-, htail⟩ := List.cons.inj heq
      split at htail
      · cases rest with
        | nil => cases htail
        | cons e' rest' => simp at htail
      · simp at htail
  unfold Link.negotiate
  unfold Handshake.negotiation at hsent ⊢
  cases hversion : h.version with
  | false =>
    rw [hversion] at hsent
    have hunanswered : lastVersion (log ++ [.version false]) = some false := lastVersion_version log false
    exact ⟨fun hup => absurd hup (by simp [hdown]), fun _ => .inr (.inr (.inr hunanswered)), hsent⟩
  | true =>
    rw [hversion] at hsent
    cases hattach : h.attach with
    | none =>
      rw [hattach] at hsent
      exact ⟨fun hup => absurd hup (by simp [hdown]), fun hno => absurd hno (by simp), hsent⟩
    | some root =>
      rw [hattach] at hsent
      refine ⟨fun _ => ⟨rfl, ?_⟩, fun hno => absurd hno (by simp [Link.attach]), hsent⟩
      rw [if_pos rfl, show log ++ [LinkEntry.version true, .attach (some root)] =
        log ++ [.version true] ++ [.attach (some root)] by simp, currentRoot_append]
      rfl

theorem LinkKept.ensure {link : Link} {log : List LinkEntry} (k : LinkKept link log) (h : Handshake) :
    LinkKept (meshEnsureAttached h link).2 (log ++ h.sends link) := by
  unfold meshEnsureAttached Handshake.sends
  by_cases hup : link.attached = true
  · rw [if_pos hup, if_pos hup, List.append_nil]
    exact k
  · rw [if_neg hup, if_neg hup]
    rw [Bool.not_eq_true] at hup
    by_cases hversioned : link.versioned = true
    · rw [if_pos hversioned, if_pos hversioned]
      have hlast (root : Option Nat) : ∀ before answered after,
          log ++ [.reattach root] = before ++ .version answered :: after → VersionDue before :=
        due_other rfl k.due
      cases hre : h.reattach with
      | some root =>
        refine ⟨fun _ => ⟨hversioned, ?_⟩, fun hno => ?_, hlast (some root)⟩
        · exact currentRoot_append log _
        · exact absurd (hversioned.symm.trans hno) (by decide)
      | none =>
        -- the handshake goes on as on a link that was never versioned
        have hnow : VersionDue (log ++ [.reattach none]) := .inr (.inl (by simp))
        have hdown : Link.attached { link with versioned := false } = false := hup
        have hkept := LinkKept.negotiate (hlast none) hdown hnow h
        rw [List.append_assoc] at hkept
        exact hkept
    · rw [if_neg hversioned, if_neg hversioned]
      rw [Bool.not_eq_true] at hversioned
      exact .negotiate k.due hup (k.unversioned hversioned) h

theorem LinkKept.drop {link : Link} {log : List LinkEntry} (k : LinkKept link log) : LinkKept link.drop log :=
  ⟨fun hup => absurd hup (by simp), k.unversioned, k.due⟩

theorem LinkKept.reset {link : Link} {log : List LinkEntry} (k : LinkKept link log) :
    LinkKept link.reset (log ++ [.hostDown]) where
  root := fun hup => absurd hup (by simp [Link.reset])
  unversioned := fun _ => .inr (.inr (.inl (by simp [LinkEntry.isVersion])))
  due := due_other rfl k.due

theorem LinkKept.event {link link' : Link} {event : Event} {log : List LinkEntry} (k : LinkKept link log)
    (h : LinkTurn link event link') : LinkKept link' (log ++ event.entries link) := by
  unfold Event.entries
  rcases h with ⟨hs, hsome, rfl⟩ | ⟨rfl, rfl⟩ | ⟨hnone, hevent, hlink⟩
  · rw [hsome]
    exact k.ensure hs
  · exact k.reset
  · rw [hnone]
    dsimp only
    rw [if_neg hevent, List.append_nil]
    rcases hlink with rfl | rfl
    · exact k
    · exact k.drop

theorem linkKept_step {chunk : Nat} (s : RelayState) (log : List LinkEntry) (event : Event) (s' : RelayState)
    (k : LinkKept s.link log) (h : step chunk s event = some s') : LinkKept s'.link (noteLink s event log) :=
  k.event (step_turn h)

/-- Every run of the relay's threads: an attached link is versioned and its root
fid is that of the latest Tattach that succeeded, with no Tversion sent since;
and every Tversion that was sent was due. -/
theorem link_consistent (chunk : Nat) {events : List Event} {s : RelayState} {log : List LinkEntry}
    (hrun : run (recording (step chunk) noteLink) (.init, []) events = some (s, log)) :
    (s.link.attached = true → s.link.versioned = true ∧ currentRoot log = some s.link.rootFid) ∧
      ∀ before answered after, log = before ++ .version answered :: after → VersionDue before := by
  have hkept : LinkKept s.link log :=
    recording_invariant (fun s log event s' k _ => linkKept_step s log event s' k) linkKept_init
      (along_true _ _) hrun
  exact ⟨hkept.root, hkept.due⟩

/-- The link comes up, a walk fails and the re-Tattach of the repeated walk
succeeds. -/
theorem link_consistent_rewalk :
    let events : List Event := [.begin 0 .read, .host 0 (.handshake ⟨none, true, some 1⟩), .host 0 .failed,
      .host 0 (.handshake ⟨some 2, false, none⟩)]
    ∃ s log, run (recording (step 384) noteLink) (.init, []) events = some (s, log) ∧
      (s.link.attached = true → s.link.versioned = true ∧ currentRoot log = some s.link.rootFid) ∧
        ∀ before answered after, log = before ++ .version answered :: after → VersionDue before := by
  intro events
  obtain ⟨⟨s, log⟩, hrun⟩ : ∃ final, run (recording (step 384) noteLink) (.init, []) events = some final :=
    ⟨_, rfl⟩
  exact ⟨s, log, hrun, link_consistent 384 hrun⟩

/-- A host session drops, the Tversion it calls for is not answered, and the next
handshake sends another one. -/
theorem version_repeated :
    ∃ events s before after,
      run (recording (step 384) noteLink) (.init, []) events = some (s, before ++ .version true :: after) ∧
        .version true ∈ before ∧ (∀ root, .reattach root ∉ before) ∧ .hostDown ∉ sinceVersion before := by
  refine ⟨[.remoteRoot ⟨none, true, some 1⟩, .disconnected, .remoteRoot ⟨none, false, none⟩,
    .remoteRoot ⟨none, true, some 2⟩], _, [.version true, .attach (some 1), .hostDown, .version false],
    [.attach (some 2)], rfl, ?_, ?_, ?_⟩
  · decide
  · simp
  · decide

end DectMesh.Relay
