import DectMesh.Aether.Traffic

/-! Replies on announced conversations. The address that a read puts before its
datagram is an identity or, where the binding was not known, the route that the
datagram came on. The reply resolves it again, with the bindings of its time. -/
namespace DectMesh.Aether

open DectMesh.Lib

structure Fleet (ν : Type) where
  eui : ν → Addr
  distinct : ∀ node other, eui node = eui other → node = other

variable {ν : Type} [DecidableEq ν]

/-- The nodes that hold the routes, and the bindings that this node knows of
them. Not every binding need be known. -/
structure Mesh (fleet : Fleet ν) where
  holder : Addr → Option ν
  table : Bindings
  /-- Identities and routes do not collide. -/
  apart : ∀ node, holder (fleet.eui node) = none
  resolves : ∀ eui route, table.euiToAddr eui = some route → ∃ node, fleet.eui node = eui ∧ holder route = some node
  names : ∀ route eui, table.addrToEui route = some eui → ∃ node, fleet.eui node = eui ∧ holder route = some node

variable {fleet : Fleet ν}

/-- Nodes re-join, a node's frame comes in by its route, or something else
happens on this node. -/
inductive PostEvent (fleet : Fleet ν) where
  | churn (mesh : Mesh fleet)
  | recv (node : ν) (route : Addr) (ring : Nat) (payload : List UInt8) (broadcast : Bool)
  | other (event : TrafficEvent)

def PostEvent.source (fleet : Fleet ν) (node : ν) (route : Addr) (broadcast : Bool) : Addr :=
  if broadcast then fleet.eui node else route

def PostEvent.traffic (mesh : Mesh fleet) : PostEvent fleet → Option TrafficEvent
  | .churn _ => none
  | .recv node route ring payload broadcast =>
      if mesh.holder route = some node then
        some (.recv mesh.table ring (source fleet node route broadcast) payload broadcast)
      else none
  | .other (.recv ..) => none
  | .other event => some event

def postStep (maxMsg : Nat) (s : Mesh fleet × Traffic) (event : PostEvent fleet) : Option (Mesh fleet × Traffic) :=
  match event with
  | .churn mesh => some (mesh, s.2)
  | event => (event.traffic s.1).bind fun e => (s.2.step maxMsg e).map fun next => (s.1, next)

/-- History: the node behind each reception, and the datagrams that reads of
announced conversations have returned, with their bytes. -/
structure PostLog (ν : Type) where
  sender : Nat → Option ν
  reads : List (Dgram × List UInt8)

def PostLog.init : PostLog ν := ⟨fun _ => none, []⟩

def Ending.read : Ending → Option (Dgram × List UInt8)
  | .datagram d bytes => some (d, bytes)
  | _ => none

def Traffic.announcedReads (maxMsg : Nat) (s : Traffic) (event : TrafficEvent) : List (Dgram × List UInt8) :=
  (List.finRange maxConns).flatMap fun n =>
    if (s.convs n).state = .announced then (s.endings maxMsg event n).filterMap fun ending => ending.2.read else []

def PostLog.note (maxMsg : Nat) (s : Mesh fleet × Traffic) (event : PostEvent fleet) (h : PostLog ν) : PostLog ν where
  sender :=
    match event with
    | .recv node .. => Function.update h.sender s.2.now (some node)
    | _ => h.sender
  reads := h.reads ++ (event.traffic s.1).elim [] (s.2.announcedReads maxMsg)

/-- The write of a reply: the six bytes that a read began with, and a payload. -/
def reply (maxMsg : Nat) (mesh : Mesh fleet) (c : Conv Reading) (bytes payload : List UInt8) : Except Int Outgoing :=
  anetWriteData maxMsg mesh.table c (bytes.take 6 ++ payload)

/-- Whatever the write sends has the payload in it and goes to a route that the
sender holds, or nobody, where a reliable send fails. -/
def Reaches (mesh : Mesh fleet) (sender : Option ν) (payload : List UInt8) (sent : Except Int Outgoing) : Prop :=
  ∀ out, sent = .ok out → ∃ dst, out = .reliable dst payload ∧ ∀ node, mesh.holder dst = some node → sender = some node

/-- The binding was known when the datagram came in, so that the read began with
the sender's identity. -/
def Identified (fleet : Fleet ν) (h : PostLog ν) (d : Dgram) : Prop :=
  ∃ node, h.sender d.id = some node ∧ d.src = fleet.eui node

/-! ## Where a datagram comes from -/

structure Traced (fleet : Fleet ν) (now : Nat) (h : PostLog ν) (d : Dgram) : Prop where
  past : d.id < now
  named : ∃ node, h.sender d.id = some node ∧ (d.src = fleet.eui node ∨ ∀ other, d.src ≠ fleet.eui other)

structure PostInv (s : Mesh fleet × Traffic) (h : PostLog ν) : Prop where
  calm : ∀ n, (s.2.convs n).rxq.Calm
  queued : ∀ n, ∀ d ∈ (s.2.convs n).rxq.items, d.data ≠ [] → Traced fleet s.2.now h d
  read : ∀ r ∈ h.reads, Traced fleet s.2.now h r.1 ∧ r.2.take 6 = r.1.src.bytes

omit [DecidableEq ν] in
theorem Traced.later {now : Nat} {h h' : PostLog ν} {d : Dgram} (t : Traced fleet now h d)
    (hsender : ∀ id, id < now → h'.sender id = h.sender id) : Traced fleet (now + 1) h' d := by
  refine ⟨Nat.lt_succ_of_lt t.past, ?_⟩
  rw [hsender _ t.past]
  exact t.named

theorem Conv.finishRead_read {c : Conv Reading} {count : Nat} {d : Dgram} {r : Dgram × List UInt8}
    (hstate : c.state = .announced) (h : (c.finishRead count d).read = some r) :
    r.1 = d ∧ d.data ≠ [] ∧ r.2.take 6 = d.src.bytes := by
  have hprefixed : c.srcPrefixed = true := by rw [Conv.srcPrefixed, hstate]; rfl
  unfold Conv.finishRead at h
  rw [hprefixed] at h
  by_cases hdata : d.data = []
  · rw [if_pos hdata] at h
    cases h
  · rw [if_neg hdata] at h
    by_cases hsmall : count < d.data.length + (if true = true then 6 else 0)
    · rw [if_pos hsmall] at h
      cases h
    · rw [if_neg hsmall] at h
      cases h
      exact ⟨rfl, hdata, List.take_left' d.src.six⟩

theorem Conv.endings_read {c : Conv Reading} {action : Action} {r : Dgram × List UInt8}
    (hstate : c.state = .announced) (h : r ∈ (c.endings action).filterMap fun ending => ending.2.read) :
    (r.1 ∈ c.rxq.items ∨ r.1 ∈ c.joins action) ∧ r.1.data ≠ [] ∧ r.2.take 6 = r.1.src.bytes := by
  obtain ⟨ending, hending, hread⟩ := List.mem_filterMap.mp h
  cases action with
  | arrive d =>
    simp only [Conv.endings] at hending
    split at hending
    · rename_i reader hput
      cases List.mem_singleton.mp hending
      obtain ⟨hr, hdata, htake⟩ := Conv.finishRead_read hstate hread
      have hroom := Mailbox.put_handed hput
      rw [hr]
      refine ⟨.inr ?_, hdata, htake⟩
      rw [Conv.joins, Conv.full, if_neg (by rw [decide_eq_true_eq]; omega)]
      exact List.mem_singleton_self d
    · cases hending
  | read reading =>
    simp only [Conv.endings, List.mem_map, Option.mem_toList] at hending
    obtain ⟨d, hget, rfl⟩ := hending
    obtain ⟨hr, hdata, htake⟩ := Conv.finishRead_read hstate hread
    have hflow : (c.rxq.get reading).1.toList ++ (c.rxq.get reading).2.items = c.rxq.items := Mailbox.get_flow
    rw [hget] at hflow
    rw [hr]
    exact ⟨.inl (hflow ▸ List.mem_cons_self), hdata, htake⟩
  | free =>
    simp only [Conv.endings] at hending
    split at hending
    · obtain ⟨reader, -, rfl⟩ := List.mem_map.mp hending
      cases hread
    · cases hending
  | ctl cmd =>
    cases cmd with
    | hangup =>
      obtain ⟨reader, -, rfl⟩ := List.mem_map.mp hending
      cases hread
    | _ => cases hending
  | _ => cases hending

theorem dgram_traced {maxMsg : Nat} {s : Mesh fleet × Traffic} {h : PostLog ν} {node : ν} {route : Addr} {ring : Nat}
    {payload : List UInt8} {broadcast : Bool} (hholder : s.1.holder route = some node) :
    Traced fleet (s.2.now + 1) (h.note maxMsg s (.recv node route ring payload broadcast))
      ((s.2.frame (PostEvent.source fleet node route broadcast) payload broadcast).dgram maxMsg s.1.table) := by
  refine ⟨Nat.lt_succ_self _, node, Function.update_self .., ?_⟩
  cases broadcast with
  | true => exact .inl rfl
  | false =>
    simp only [Frame.dgram, Traffic.frame, identOf, PostEvent.source, Bool.false_eq_true, if_false]
    cases hname : s.1.table.addrToEui route with
    | none =>
      right
      rintro other rfl
      have hnobody := s.1.apart other
      rw [hholder] at hnobody
      cases hnobody
    | some eui =>
      obtain ⟨owner, rfl, howner⟩ := s.1.names route eui hname
      rw [hholder] at howner
      cases howner
      exact .inl rfl

theorem postStep_cases {maxMsg : Nat} {s s' : Mesh fleet × Traffic} {event : PostEvent fleet}
    (hstep : postStep maxMsg s event = some s') :
    (∃ mesh, event = .churn mesh) ∨
      ∃ e, event.traffic s.1 = some e ∧ s'.2.now = s.2.now + 1 ∧
        ∀ n, s'.2.convs n = (s.2.convs n).act (s.2.action maxMsg e n) := by
  cases event with
  | churn mesh =>
    exact .inl ⟨mesh, rfl⟩
  | recv | other =>
    right
    obtain ⟨e, htraffic, hnext⟩ := Option.bind_eq_some_iff.mp hstep
    cases hnext
    exact ⟨e, htraffic, rfl, Traffic.apply_convs maxMsg s.2 e⟩

theorem joins_traced {maxMsg : Nat} {s : Mesh fleet × Traffic} {event : PostEvent fleet} {e : TrafficEvent}
    (h : PostLog ν) (htraffic : event.traffic s.1 = some e) {n : Slot} {d : Dgram}
    (hd : d ∈ (s.2.convs n).joins (s.2.action maxMsg e n)) :
    Traced fleet (s.2.now + 1) (h.note maxMsg s event) d := by
  have harrive : ∃ mesh ring src payload broadcast, e = .recv mesh ring src payload broadcast ∧
      d = (s.2.frame src payload broadcast).dgram maxMsg mesh := by
    cases e with
    | recv mesh ring src payload broadcast =>
      refine ⟨mesh, ring, src, payload, broadcast, rfl, ?_⟩
      simp only [Traffic.action] at hd
      split at hd
      · rw [Conv.joins] at hd
        split at hd
        · cases hd
        · exact List.mem_singleton.mp hd
      · cases hd
    | _ =>
      simp only [Traffic.action] at hd
      split at hd <;> cases hd
  obtain ⟨mesh, ring, src, payload, broadcast, rfl, rfl⟩ := harrive
  cases event with
  | churn mesh => cases htraffic
  | recv node route ring payload broadcast =>
    simp only [PostEvent.traffic] at htraffic
    split at htraffic
    · rename_i hholder
      cases htraffic
      exact dgram_traced hholder
    · cases htraffic
  | other event => cases event <;> cases htraffic

theorem note_reads (maxMsg : Nat) (s : Mesh fleet × Traffic) (event : PostEvent fleet) (h : PostLog ν) :
    (h.note maxMsg s event).reads = h.reads ++ (event.traffic s.1).elim [] (s.2.announcedReads maxMsg) := rfl

theorem note_churn (maxMsg : Nat) (s : Mesh fleet × Traffic) (mesh : Mesh fleet) (h : PostLog ν) :
    h.note maxMsg s (.churn mesh) = h := by
  obtain ⟨sender, reads⟩ := h
  exact congrArg (PostLog.mk sender) (List.append_nil reads)

theorem note_sender (maxMsg : Nat) (s : Mesh fleet × Traffic) (event : PostEvent fleet) (h : PostLog ν) {id : Nat}
    (hid : id < s.2.now) : (h.note maxMsg s event).sender id = h.sender id := by
  cases event with
  | recv node => exact Function.update_of_ne (Nat.ne_of_lt hid) _ _
  | _ => rfl

theorem postInv_step {maxMsg : Nat} (s : Mesh fleet × Traffic) (h : PostLog ν) (event : PostEvent fleet)
    (s' : Mesh fleet × Traffic) (hinv : PostInv s h) (hstep : postStep maxMsg s event = some s') :
    PostInv s' (h.note maxMsg s event) := by
  obtain ⟨mesh, rfl⟩ | ⟨e, htraffic, hnow, hconvs⟩ := postStep_cases hstep
  · cases hstep
    rw [note_churn]
    exact ⟨hinv.calm, hinv.queued, hinv.read⟩
  · have hdgram : ∀ n d, d ∈ (s.2.convs n).rxq.items ∨ d ∈ (s.2.convs n).joins (s.2.action maxMsg e n) →
        d.data ≠ [] → Traced fleet s'.2.now (h.note maxMsg s event) d := by
      intro n d hd hdata
      rw [hnow]
      rcases hd with hqueued | hjoins
      · exact (hinv.queued n d hqueued hdata).later fun id hid => note_sender maxMsg s event h hid
      · exact joins_traced h htraffic hjoins
    refine ⟨fun n => ?_, fun n d hd hdata => ?_, fun r hr => ?_⟩
    · rw [hconvs]
      exact Conv.act_calm (hinv.calm n) _
    · rw [hconvs] at hd
      obtain hqueued | hjoins | ⟨-, rfl⟩ := Conv.act_items (hinv.calm n) hd
      · exact hdgram n d (.inl hqueued) hdata
      · exact hdgram n d (.inr hjoins) hdata
      · exact absurd rfl hdata
    · rw [note_reads, htraffic, Option.elim_some, List.mem_append] at hr
      rcases hr with hr | hr
      · obtain ⟨htraced, htake⟩ := hinv.read r hr
        rw [hnow]
        exact ⟨htraced.later fun id hid => note_sender maxMsg s event h hid, htake⟩
      · obtain ⟨n, -, hr⟩ := List.mem_flatMap.mp hr
        split at hr
        · rename_i hstate
          obtain ⟨hd, hdata, htake⟩ := Conv.endings_read hstate hr
          exact ⟨hdgram n r.1 hd hdata, htake⟩
        · cases hr

/-! ## Where the reply goes -/

omit [DecidableEq ν] in
theorem reply_announced {maxMsg : Nat} {mesh : Mesh fleet} {c : Conv Reading} {src : Addr} {bytes payload : List UInt8}
    (hstate : c.state = .announced) (htake : bytes.take 6 = src.bytes) :
    reply maxMsg mesh c bytes payload =
      sizedSend maxMsg ((mesh.table.euiToAddr src).getD src) payload := by
  have hsplit : splitAddr (src.bytes ++ payload) = some (src, payload) := by
    have hlong : 6 ≤ (src.bytes ++ payload).length := by
      rw [List.length_append, src.six]
      exact Nat.le_add_right 6 _
    obtain ⟨six, hsix⟩ := src
    rw [splitAddr, dif_pos hlong]
    simp only [List.take_left' hsix, List.drop_left' hsix]
  rw [reply, htake, anetWriteData, hstate]
  simp only [hsplit]

omit [DecidableEq ν] in
theorem reaches_sizedSend {maxMsg : Nat} {mesh : Mesh fleet} {sender : Option ν} {dst : Addr} {payload : List UInt8} :
    Reaches mesh sender payload (sizedSend maxMsg dst payload) ↔
      maxMsg < payload.length ∨ ∀ node, mesh.holder dst = some node → sender = some node := by
  unfold Reaches sizedSend
  by_cases hlong : maxMsg < payload.length
  · rw [if_pos hlong]
    exact iff_of_true nofun (.inl hlong)
  · rw [if_neg hlong, or_iff_right hlong]
    constructor
    · intro h
      obtain ⟨target, htarget, hholder⟩ := h _ rfl
      cases htarget
      exact hholder
    · rintro h out ⟨⟩
      exact ⟨dst, rfl, h⟩

/-- In every run, at any time: the write of a reply to a datagram that was read
reaches the sender or fails, exactly if the binding was known at the arrival, or
no other node holds the route that the reply names, or the payload is too long
to send. -/
theorem announced_reply_iff {maxMsg : Nat} {mesh : Mesh fleet} {events : List (PostEvent fleet)}
    {s : Mesh fleet × Traffic} {h : PostLog ν}
    (hrun : run (recording (postStep maxMsg) (PostLog.note maxMsg)) ((mesh, .init), .init) events = some (s, h))
    {r : Dgram × List UInt8} (hread : r ∈ h.reads) {n : Slot} (hstate : (s.2.convs n).state = .announced)
    (payload : List UInt8) :
    Reaches s.1 (h.sender r.1.id) payload (reply maxMsg s.1 (s.2.convs n) r.2 payload) ↔
      Identified fleet h r.1 ∨ (∀ node, s.1.holder r.1.src = some node → h.sender r.1.id = some node) ∨
        maxMsg < payload.length := by
  have hstart : PostInv (mesh, .init) (.init : PostLog ν) := by
    refine ⟨fun _ => Mailbox.calm_empty, ?_, ?_⟩ <;> nofun
  have hinv : PostInv s h := recording_invariant (fun s h event s' hs _ => postInv_step s h event s' hs) hstart
    (along_true (mesh, Traffic.init) events) hrun
  obtain ⟨htraced, htake⟩ := hinv.read r hread
  obtain ⟨node, hsender, hnamed⟩ := htraced.named
  rw [reply_announced hstate htake, reaches_sizedSend]
  rcases hnamed with hidentity | hroute
  · refine iff_of_true (.inr fun other hother => ?_) (.inl ⟨node, hsender, hidentity⟩)
    rw [hidentity] at hother
    cases hresolve : s.1.table.euiToAddr (fleet.eui node) with
    | none =>
      -- the identity itself is nobody's route
      rw [hresolve, Option.getD_none, s.1.apart] at hother
      cases hother
    | some route =>
      obtain ⟨owner, howner, hholder⟩ := s.1.resolves _ _ hresolve
      rw [hresolve, Option.getD_some, hholder] at hother
      cases hother
      rw [hsender, fleet.distinct _ _ howner]
  · have hunresolved : s.1.table.euiToAddr r.1.src = none := by
      by_contra hsome
      obtain ⟨route, hresolve⟩ := Option.ne_none_iff_exists'.mp hsome
      obtain ⟨owner, howner, -⟩ := s.1.resolves _ _ hresolve
      exact hroute owner howner.symm
    have hnot : ¬ Identified fleet h r.1 := fun ⟨owner, _, howner⟩ => hroute owner howner
    rw [hunresolved, Option.getD_none, or_comm, or_iff_right hnot]

/-! ## Two nodes that change routes -/

def Addr.all (b : UInt8) : Addr := ⟨List.replicate 6 b, List.length_replicate⟩

def pair : Fleet Bool where
  eui node := if node then .all 0x0b else .all 0x0a
  distinct := by decide

def routed (node : Bool) (route : Addr) (hroute : ∀ n, pair.eui n ≠ route) (known : Bool) : Mesh pair where
  holder r := if r = route then some node else none
  table := ⟨fun eui => if known ∧ eui = pair.eui node then some route else none,
    fun r => if known ∧ r = route then some (pair.eui node) else none⟩
  apart n := if_neg (hroute n)
  resolves eui r h := by
    dsimp only at h
    split at h
    · rename_i hknown
      cases h
      exact ⟨node, hknown.2.symm, if_pos rfl⟩
    · cases h
  names r eui h := by
    dsimp only at h
    split at h
    · rename_i hknown
      cases h
      exact ⟨node, rfl, if_pos hknown.2⟩
    · cases h

def oldRoute : Addr := .all 0x0c

def newRoute : Addr := .all 0x0d

def rejoining (later : Mesh pair) : List (PostEvent pair) :=
  [.other .clone, .other (.ctl Slot.first .announce), .recv false oldRoute 0 [0x2a] false,
    .other (.read Slot.first 512), .churn later]

/-- The sender is known, re-joins under a new route and gets the reply. -/
theorem announced_reply_follows : ∃ s h,
    run (recording (postStep 512) (PostLog.note 512))
      ((routed false oldRoute (by decide) true, .init), .init) (rejoining (routed false newRoute (by decide) true)) =
        some (s, h) ∧
    ∃ r ∈ h.reads, Reaches s.1 (h.sender r.1.id) [0x2b] (reply 512 s.1 (s.2.convs Slot.first) r.2 [0x2b]) := by
  have hiff := @announced_reply_iff Bool _ pair 512 (routed false oldRoute (by decide) true)
    (rejoining (routed false newRoute (by decide) true))
  refine ⟨_, _, rfl, _, List.mem_cons_self, ?_⟩
  exact (hiff rfl List.mem_cons_self rfl [0x2b]).mpr (.inl ⟨false, rfl, rfl⟩)

/-- The sender is not known, and the other node comes to hold its route: the
reply goes there. -/
theorem announced_reply_misrouted : ∃ s h,
    run (recording (postStep 512) (PostLog.note 512))
      ((routed false oldRoute (by decide) false, .init), .init) (rejoining (routed true oldRoute (by decide) false)) =
        some (s, h) ∧
    ∃ r ∈ h.reads, (s.2.convs Slot.first).state = .announced ∧
      ¬ Reaches s.1 (h.sender r.1.id) [0x2b] (reply 512 s.1 (s.2.convs Slot.first) r.2 [0x2b]) := by
  refine ⟨_, _, rfl, _, List.mem_cons_self, rfl, fun h => ?_⟩
  obtain ⟨dst, hdst, hholder⟩ := h _ rfl
  cases hdst
  cases hholder true rfl

end DectMesh.Aether
