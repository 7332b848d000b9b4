import DectMesh.Lib.Distinct
import DectMesh.Telemetry.Forwarder
import Mathlib.Data.List.Nodup

/-! The forwarder's table of devices over the cycles: who is in it, and what it
says of each of them, read off the posts that succeeded and the sweeps between
them. -/
namespace DectMesh.Telemetry

open DectMesh.Lib

/-- What happens to the table: a chunk was posted for the serial, or the devices
were aged, at the time of the host's clock. -/
inductive DevEvent where
  | posted (serial : List UInt8) (now : Int)
  | aged (now : Int)
  deriving DecidableEq

structure Forwarder where
  devs : List Dev
  events : List DevEvent

def Dev.age (window now : Int) (d : Dev) : Dev :=
  { d with active := d.active && decide (now - d.last ≤ window) }

def devAge (window now : Int) (s : Forwarder) : Forwarder :=
  ⟨s.devs.map (Dev.age window now), s.events ++ [.aged now]⟩

/-- What a file gives in a cycle: the result of `read_file` or `read_drain`,
`buf` behind it, and what the posts of its chunks return, and when. -/
structure Reading where
  rc : Int
  buf : List UInt8
  curl : Nat → Bool
  clock : Nat → Int

def Reading.accepted (r : Reading) (posts : List Post) : List DevEvent :=
  posts.zipIdx.filterMap fun (post, n) => if r.curl n then some (.posted post.serial (r.clock n)) else none

def forwardReading (r : Reading) (s : Forwarder) : Nat × Forwarder :=
  if 0 < r.rc then
    let f := forwardStream r.curl r.clock r.buf s.devs
    (f.posted, ⟨f.devs, s.events ++ r.accepted f.posts⟩)
  else (0, s)

/-- The line at a cycle's end, and whether the link was called degraded. -/
structure CycleReport where
  total : Nat
  peerChunks : Nat
  active : Nat
  degraded : Bool
  deriving DecidableEq

structure CycleInput where
  relay : Reading
  nine : Reading
  mesh : Reading
  now : Int

/-- `cycle`, with what its reads give. None when the port failed. -/
def forwardCycle (window : Int) (input : CycleInput) (s : Forwarder) : Option CycleReport × Forwarder :=
  if input.relay.rc = -1 then (none, s)
  else
    let (relayed, s) := forwardReading input.relay s
    if input.nine.rc = -1 then (none, s)
    else
      let (nine, s) := forwardReading input.nine s
      if input.mesh.rc = -1 then (none, s)
      else
        let (peerChunks, s) := forwardReading input.mesh s
        let degraded := 0 < input.relay.rc && (input.nine.rc = -2 || input.mesh.rc = -2)
        let s := devAge window input.now s
        (some ⟨relayed + nine + peerChunks, peerChunks, s.devs.countP (·.active), degraded⟩, s)

/-- The window for an interval of so many seconds between the cycles, fewer than
an `int` has room for four times. -/
def silence (interval : Nat) : Int := interval * 4 + 30

/-- The cycles one after the other. The table outlives a port that is opened again. -/
def forwardCycles (window : Int) : List CycleInput → Forwarder → Forwarder
  | [], s => s
  | input :: later, s => forwardCycles window later (forwardCycle window input s).2

/-! ## The table and its history -/

def DevEvent.serial? : DevEvent → Option (List UInt8)
  | .posted serial _ => some serial
  | .aged _ => none

def serialsOf (events : List DevEvent) : List (List UInt8) := events.filterMap DevEvent.serial?

/-- What an entry says. Its time is that of the last chunk, its count that of all
of them, and it is active as long as no sweep since the last chunk found that
too old. -/
structure Dev.Shows (window : Int) (events : List DevEvent) (d : Dev) : Prop where
  chunks : d.chunks = UInt32.ofNat ((serialsOf events).count d.serial)
  last : ∃ past later, events = past ++ .posted d.serial d.last :: later ∧ d.serial ∉ serialsOf later ∧
    (d.active = true ↔ ∀ now, .aged now ∈ later → now - d.last ≤ window)

/-- The table has the first 64 devices that a chunk was posted for, in that order. -/
structure Forwarder.Tracks (window : Int) (s : Forwarder) : Prop where
  serials : s.devs.map Dev.serial = firstDistinct 64 (serialsOf s.events)
  shows : ∀ d ∈ s.devs, d.Shows window s.events

theorem serialsOf_append (events later : List DevEvent) :
    serialsOf (events ++ later) = serialsOf events ++ serialsOf later := List.filterMap_append

theorem serialsOf_posted (serial : List UInt8) (now : Int) : serialsOf [.posted serial now] = [serial] := rfl

theorem serialsOf_aged (now : Int) : serialsOf [.aged now] = [] := rfl

variable {window : Int}

theorem Dev.Shows.seen {events : List DevEvent} {d : Dev} (h : d.Shows window events) (now : Int) :
    (d.seen now).Shows window (events ++ [.posted d.serial now]) where
  chunks := by
    rw [serialsOf_append, serialsOf_posted, List.count_append]
    simp only [Dev.seen, List.count_singleton_self, UInt32.ofNat_add, h.chunks]
    rfl
  last := ⟨events, [], rfl, List.not_mem_nil, by simp [Dev.seen]⟩

theorem Dev.Shows.other {events : List DevEvent} {d : Dev} (h : d.Shows window events) {serial : List UInt8}
    (hother : d.serial ≠ serial) (now : Int) : d.Shows window (events ++ [.posted serial now]) where
  chunks := by
    have hnone : List.count d.serial [serial] = 0 := List.count_eq_zero_of_not_mem (by simpa using hother)
    rw [serialsOf_append, serialsOf_posted, List.count_append, hnone, Nat.add_zero]
    exact h.chunks
  last := by
    obtain ⟨past, later, rfl, hlater, hactive⟩ := h.last
    refine ⟨past, later ++ [.posted serial now], by simp, ?_, ?_⟩
    · rw [serialsOf_append, serialsOf_posted, List.mem_append, List.mem_singleton, not_or]
      exact ⟨hlater, hother⟩
    · simpa using hactive

theorem Dev.Shows.age {events : List DevEvent} {d : Dev} (h : d.Shows window events) (now : Int) :
    (d.age window now).Shows window (events ++ [.aged now]) where
  chunks := by
    rw [serialsOf_append, serialsOf_aged, List.append_nil]
    exact h.chunks
  last := by
    obtain ⟨past, later, rfl, hlater, hactive⟩ := h.last
    refine ⟨past, later ++ [.aged now], by simp [Dev.age], ?_, ?_⟩
    · rw [serialsOf_append, serialsOf_aged, List.append_nil]
      exact hlater
    · simp only [Dev.age, Bool.and_eq_true, decide_eq_true_iff, hactive, List.mem_append, List.mem_singleton,
        DevEvent.aged.injEq]
      constructor
      · rintro ⟨hbefore, hnow⟩ t (ht | rfl)
        · exact hbefore t ht
        · exact hnow
      · exact fun hall => ⟨fun t ht => hall t (.inl ht), hall now (.inr rfl)⟩

theorem Dev.Shows.appears {events : List DevEvent} {serial : List UInt8} (hnew : serial ∉ serialsOf events)
    (now : Int) : (Dev.seen now ⟨serial, 0, 0, false⟩).Shows window (events ++ [.posted serial now]) where
  chunks := by
    rw [serialsOf_append, serialsOf_posted, List.count_append]
    simp [Dev.seen, List.count_eq_zero_of_not_mem hnew]
  last := ⟨events, [], rfl, List.not_mem_nil, by simp [Dev.seen]⟩

/-! ## What the operations keep -/

theorem devSeen_map {serial : List UInt8} (now : Int) (devs : List Dev) :
    (devSeen serial now devs).map Dev.serial = enter 64 serial (devs.map Dev.serial) := by
  unfold devSeen enter
  split
  · rename_i i hi
    obtain ⟨hlt, hserial, -⟩ := List.findIdx?_eq_some_iff_getElem.mp hi
    have hmem : serial ∈ devs.map Dev.serial :=
      List.mem_map.mpr ⟨devs[i], List.getElem_mem hlt, of_decide_eq_true hserial⟩
    rw [if_pos hmem]
    refine List.ext_getElem (by simp) fun k hk _ => ?_
    simp only [List.getElem_map, List.getElem_modify]
    split <;> rfl
  · rename_i hnone
    have hnot : serial ∉ devs.map Dev.serial := by
      intro hmem
      obtain ⟨d, hd, rfl⟩ := List.mem_map.mp hmem
      simpa using List.findIdx?_eq_none_iff.mp hnone d hd
    rw [if_neg hnot, List.length_map]
    split
    · rw [List.map_append]
      rfl
    · rfl

/-- An entry of the table is the one that was brought up to date, another one as
it was, or new. -/
theorem mem_devSeen {serial : List UInt8} {now : Int} {devs : List Dev} (hnodup : (devs.map Dev.serial).Nodup)
    {d : Dev} (h : d ∈ devSeen serial now devs) :
    (∃ before ∈ devs, before.serial = serial ∧ d = before.seen now) ∨ (d ∈ devs ∧ d.serial ≠ serial) ∨
      (serial ∉ devs.map Dev.serial ∧ devs.length < 64 ∧ d = Dev.seen now ⟨serial, 0, 0, false⟩) ∨
      (d ∈ devs ∧ serial ∉ devs.map Dev.serial) := by
  unfold devSeen at h
  split at h
  · rename_i i hi
    obtain ⟨hlt, hserial, -⟩ := List.findIdx?_eq_some_iff_getElem.mp hi
    obtain ⟨k, hk, rfl⟩ := List.mem_iff_getElem.mp h
    rw [List.length_modify] at hk
    rw [List.getElem_modify]
    split
    · subst k
      exact .inl ⟨devs[i], List.getElem_mem hlt, of_decide_eq_true hserial, rfl⟩
    · rename_i hne
      refine .inr (.inl ⟨List.getElem_mem hk, fun hsame => hne ?_⟩)
      rw [← of_decide_eq_true hserial] at hsame
      have hinj := (@List.Nodup.getElem_inj_iff _ _ hnodup i (by simpa using hlt) k (by simpa using hk)).mp
      exact hinj (by simpa using hsame.symm)
  · rename_i hnone
    have hnot : serial ∉ devs.map Dev.serial := by
      intro hmem
      obtain ⟨d, hd, rfl⟩ := List.mem_map.mp hmem
      simpa using List.findIdx?_eq_none_iff.mp hnone d hd
    split at h
    · rename_i hroom
      rcases List.mem_append.mp h with hold | hnew
      · exact .inr (.inr (.inr ⟨hold, hnot⟩))
      · exact .inr (.inr (.inl ⟨hnot, hroom, List.mem_singleton.mp hnew⟩))
    · exact .inr (.inr (.inr ⟨h, hnot⟩))

theorem Forwarder.Tracks.posted {s : Forwarder} (h : s.Tracks window) (serial : List UInt8) (now : Int) :
    Forwarder.Tracks window ⟨devSeen serial now s.devs, s.events ++ [.posted serial now]⟩ where
  serials := by
    dsimp only
    rw [devSeen_map, h.serials, serialsOf_append, serialsOf_posted, firstDistinct_concat]
  shows d hd := by
    have hnodup : (s.devs.map Dev.serial).Nodup := h.serials ▸ firstDistinct_nodup 64 _
    rcases mem_devSeen hnodup hd with ⟨before, hbefore, rfl, rfl⟩ | ⟨hold, hother⟩ | ⟨hnew, hroom, rfl⟩ | ⟨hold, hnew⟩
    · exact (h.shows before hbefore).seen now
    · exact (h.shows d hold).other hother now
    · rw [h.serials, mem_firstDistinct (by rw [← h.serials, List.length_map]; exact hroom)] at hnew
      exact .appears hnew now
    · refine (h.shows d hold).other (fun hsame => hnew ?_) now
      exact hsame ▸ List.mem_map_of_mem hold

theorem Forwarder.Tracks.aged {s : Forwarder} (h : s.Tracks window) (now : Int) :
    (devAge window now s).Tracks window where
  serials := by
    have hkept : (devAge window now s).devs.map Dev.serial = s.devs.map Dev.serial := by
      rw [devAge, List.map_map]
      rfl
    rw [hkept, h.serials, devAge, serialsOf_append, serialsOf_aged, List.append_nil]
  shows d hd := by
    obtain ⟨before, hbefore, rfl⟩ := List.mem_map.mp hd
    exact (h.shows before hbefore).age now

theorem Reading.accepted_concat (r : Reading) (posts : List Post) (post : Post) :
    r.accepted (posts ++ [post]) =
      r.accepted posts ++ if r.curl posts.length then [.posted post.serial (r.clock posts.length)] else [] := by
  unfold Reading.accepted
  rw [List.zipIdx_append, List.filterMap_append, List.zipIdx_singleton, Nat.zero_add]
  split <;> simp [*]

theorem length_serialsOf_accepted (r : Reading) (posts : List Post) :
    (serialsOf (r.accepted posts)).length = (r.accepted posts).length := by
  induction posts using List.reverseRecOn with
  | nil => rfl
  | append_singleton posts post ih =>
    rw [Reading.accepted_concat, serialsOf_append, List.length_append, List.length_append, ih]
    split <;> rfl

structure Forwarding.Tracks (window : Int) (r : Reading) (events : List DevEvent) (f : Forwarding) : Prop where
  table : Forwarder.Tracks window ⟨f.devs, events ++ r.accepted f.posts⟩
  posted : f.posted = (r.accepted f.posts).length

theorem forwardChunk_tracks {r : Reading} {events : List DevEvent} {f : Forwarding} (b64 : List UInt8)
    (h : f.Tracks window r events) : (forwardChunk r.curl r.clock b64 f).Tracks window r events := by
  unfold forwardChunk
  dsimp only
  split
  · exact h
  · split
    · rename_i haccepted
      have hnext := h.table.posted f.serial (r.clock f.posts.length)
      refine ⟨?_, ?_⟩
      · rw [Reading.accepted_concat, if_pos haccepted, ← List.append_assoc]
        exact hnext
      · rw [Reading.accepted_concat, if_pos haccepted, List.length_append, ← h.posted]
        rfl
    · rename_i hrefused
      refine ⟨?_, ?_⟩
      · rw [Reading.accepted_concat, if_neg hrefused, List.append_nil]
        exact h.table
      · rw [Reading.accepted_concat, if_neg hrefused, List.append_nil]
        exact h.posted

theorem forwardLoop_tracks {r : Reading} {events : List DevEvent} {fuel : Nat} {p : List UInt8} {f : Forwarding}
    (h : f.Tracks window r events) : (forwardLoop r.curl r.clock fuel p f).Tracks window r events := by
  induction fuel generalizing p f with
  | zero => exact h
  | succ fuel ih =>
    unfold forwardLoop
    split
    · exact h
    · split
      · exact h
      · rename_i key b hkey
        split
        · exact h
        · rename_i field p hfield
          cases key with
          | mc => exact ih (forwardChunk_tracks field h)
          | dev => exact ih ⟨h.table, h.posted⟩

theorem forwardReading_tracks {s s' : Forwarder} {posted : Nat} {r : Reading} (h : s.Tracks window)
    (hread : forwardReading r s = (posted, s')) :
    s'.Tracks window ∧ (serialsOf s'.events).length = (serialsOf s.events).length + posted := by
  unfold forwardReading at hread
  split at hread
  · have hstart : Forwarding.Tracks window r s.events ⟨[], 0, s.devs, []⟩ := by
      refine ⟨?_, rfl⟩
      rw [show r.accepted [] = [] from rfl, List.append_nil]
      exact h
    have hend : (forwardStream r.curl r.clock r.buf s.devs).Tracks window r s.events := forwardLoop_tracks hstart
    cases hread
    refine ⟨hend.table, ?_⟩
    dsimp only
    rw [serialsOf_append, List.length_append, hend.posted]
    exact congrArg _ (length_serialsOf_accepted r _)
  · cases hread
    exact ⟨h, rfl⟩

structure CycleReport.Tells (window : Int) (input : CycleInput) (before after : Forwarder) (report : CycleReport) :
    Prop where
  total : (serialsOf after.events).length = (serialsOf before.events).length + report.total
  peers : report.peerChunks ≤ report.total
  active : report.active = after.devs.countP (·.active)
  fresh : ∀ d ∈ after.devs, d.active = true → input.now - d.last ≤ window

theorem forwardCycle_tracks {s s' : Forwarder} {input : CycleInput} {report : Option CycleReport}
    (h : s.Tracks window) (hcycle : forwardCycle window input s = (report, s')) :
    s'.Tracks window ∧ ∀ r ∈ report, r.Tells window input s s' := by
  unfold forwardCycle at hcycle
  split at hcycle
  · cases hcycle
    exact ⟨h, by simp⟩
  · generalize hrelay : forwardReading input.relay s = relayed at hcycle
    obtain ⟨relayed, s₁⟩ := relayed
    obtain ⟨h₁, hrelayed⟩ := forwardReading_tracks h hrelay
    dsimp only at hcycle
    split at hcycle
    · cases hcycle
      exact ⟨h₁, by simp⟩
    · generalize hnine : forwardReading input.nine s₁ = nine at hcycle
      obtain ⟨nine, s₂⟩ := nine
      obtain ⟨h₂, hnine⟩ := forwardReading_tracks h₁ hnine
      dsimp only at hcycle
      split at hcycle
      · cases hcycle
        exact ⟨h₂, by simp⟩
      · generalize hmesh : forwardReading input.mesh s₂ = peers at hcycle
        obtain ⟨peers, s₃⟩ := peers
        obtain ⟨h₃, hpeers⟩ := forwardReading_tracks h₂ hmesh
        cases hcycle
        refine ⟨h₃.aged input.now, ?_⟩
        rintro r ⟨⟩
        refine ⟨?_, Nat.le_add_left _ _, rfl, ?_⟩
        · rw [devAge, serialsOf_append, serialsOf_aged, List.append_nil]
          dsimp only
          omega
        · intro d hd hactive
          obtain ⟨old, -, rfl⟩ := List.mem_map.mp hd
          simp only [Dev.age, Bool.and_eq_true, decide_eq_true_iff] at hactive
          exact hactive.2

theorem forwardCycles_tracks {s : Forwarder} (inputs : List CycleInput) (h : s.Tracks window) :
    (forwardCycles window inputs s).Tracks window := by
  induction inputs generalizing s with
  | nil => exact h
  | cons input later ih => exact ih (forwardCycle_tracks h rfl).1

theorem Forwarder.tracks_start : Forwarder.Tracks window ⟨[], []⟩ := ⟨rfl, by simp⟩

/-- After any cycles, whatever the files gave, the posts returned and the clock
said, the table tells the history; and so does the line at the end of the next. -/
theorem devices_tracked (interval : Nat) (inputs : List CycleInput) (input : CycleInput) :
    let window := silence interval
    let s := forwardCycles window inputs ⟨[], []⟩
    s.Tracks window ∧
      ∀ report ∈ (forwardCycle window input s).1, report.Tells window input s (forwardCycle window input s).2 := by
  intro window s
  have hrun : s.Tracks window := forwardCycles_tracks inputs Forwarder.tracks_start
  exact ⟨hrun, (forwardCycle_tracks hrun rfl).2⟩

end DectMesh.Telemetry
