import DectMesh.Aether.PushSuccess
import DectMesh.Lib.Chunks
import DectMesh.Mesh9p.Ring

/-! What `aether_net_push_write` puts on the mesh: the Twrites, as the peer
takes them apart, and their order. -/
namespace DectMesh.Aether

open DectMesh.Lib DectMesh.Mesh9p

structure Twrite where
  tag : Nat
  fid : Nat
  offset : Nat
  data : List UInt8
  deriving DecidableEq

/-- `size[4] Twrite tag[2] fid[4] offset[8] count[4] data[count]` -/
def parseTwrite (msg : List UInt8) : Option Twrite :=
  if typeOf msg = 118 ∧ 23 ≤ msg.length ∧ leNat (msg.take 4) = msg.length ∧
      leNat ((msg.drop 19).take 4) = msg.length - 23 then
    some ⟨tagOf msg, leNat ((msg.drop 7).take 4), leNat ((msg.drop 11).take 8), msg.drop 23⟩
  else none

def onWire (chunk : Nat × List UInt8) : Nat × List UInt8 := (chunk.1 % 2 ^ 64, chunk.2)

def attempts (log : List PortEvent) : List ((Nat × List UInt8) × Int) :=
  log.filterMap fun
    | .sent _ msg sr => (parseTwrite msg).map fun t => ((t.offset, t.data), sr)
    | .took .. => none

theorem attempts_append (left right : List PortEvent) : attempts (left ++ right) = attempts left ++ attempts right :=
  List.filterMap_append

theorem sentIn_append (left right : List PortEvent) : sentIn (left ++ right) = sentIn left ++ sentIn right :=
  List.filterMap_append

theorem parseTwrite_tWrite {tag fid offset : Nat} {data : List UInt8} (h : 23 + data.length < 4294967296) :
    parseTwrite (tWrite tag fid offset data) = some ⟨tag % 65536, fid % 4294967296, offset % 2 ^ 64, data⟩ := by
  have htag : tagOf (tWrite tag fid offset data) = tag % 65536 := tagOf_frame _ _ _
  have htype : typeOf (tWrite tag fid offset data) = 118 := typeOf_frame _ _ _
  have hlength : (tWrite tag fid offset data).length = 23 + data.length := by
    simp [tWrite]
    omega
  have hsize : leNat ((tWrite tag fid offset data).take 4) = 23 + data.length := by
    have hbody : 7 + (leBytes 4 fid ++ leBytes 8 offset ++ leBytes 4 data.length ++ data).length =
        23 + data.length := by
      simp
      omega
    rw [tWrite, size_frame, hbody, Nat.mod_eq_of_lt h]
  have hfid : leNat (((tWrite tag fid offset data).drop 7).take 4) = fid % 4294967296 := by
    have hbytes : ((tWrite tag fid offset data).drop 7).take 4 = leBytes 4 fid := by simp [tWrite, frame, leBytes]
    rw [hbytes]
    exact leNat_leBytes 4 fid
  have hoffset : leNat (((tWrite tag fid offset data).drop 11).take 8) = offset % 2 ^ 64 := by
    have hbytes : ((tWrite tag fid offset data).drop 11).take 8 = leBytes 8 offset := by simp [tWrite, frame, leBytes]
    rw [hbytes]
    exact leNat_leBytes 8 offset
  have hcount : leNat (((tWrite tag fid offset data).drop 19).take 4) = data.length := by
    have hbytes : ((tWrite tag fid offset data).drop 19).take 4 = leBytes 4 data.length := by
      simp [tWrite, frame, leBytes]
    rw [hbytes]
    exact (leNat_leBytes 4 _).trans (Nat.mod_eq_of_lt (by omega))
  have hdata : (tWrite tag fid offset data).drop 23 = data := by simp [tWrite, frame, leBytes]
  unfold parseTwrite
  rw [htag, htype, hlength, hsize, hfid, hoffset, hcount, hdata]
  have hrest : data.length = 23 + data.length - 23 := by omega
  rw [if_pos ⟨rfl, Nat.le_add_right 23 _, rfl, hrest⟩]

/-- What a T-message of the push has in it: the ring takes it for a request, and
it is a Twrite on the session's fid. -/
def IsPushWrite (maxMsg fid : Nat) (msg : List UInt8) : Prop :=
  looksLike9pT maxMsg msg = true ∧ ∃ t, parseTwrite msg = some t ∧ t.fid = fid % 4294967296

theorem isPushWrite_tWrite {maxMsg tag fid offset : Nat} {data : List UInt8} (h : 23 + data.length ≤ maxMsg)
    (hsmall : 23 + data.length < 4294967296) : IsPushWrite maxMsg fid (tWrite tag fid offset data) := by
  constructor
  · unfold tWrite
    apply looksLike9pT_frame.mpr
    have hbody : (leBytes 4 fid ++ leBytes 8 offset ++ leBytes 4 data.length ++ data).length = 16 + data.length := by
      simp
      omega
    rw [hbody]
    exact ⟨by omega, by omega, by decide, by decide, by decide⟩
  · exact ⟨_, parseTwrite_tWrite hsmall, rfl⟩

/-! ## Chunks in order -/

theorem Carries.append {offset : Nat} {data later : List UInt8} {chunks chunks' : List (Nat × List UInt8)}
    (h : Carries offset data chunks) (h' : Carries (offset + data.length) later chunks') :
    Carries offset (data ++ later) (chunks ++ chunks') := by
  induction h with
  | nil => exact h'
  | cons h ih =>
    rw [List.append_assoc]
    apply Carries.cons
    apply ih
    rw [List.length_append] at h'
    rw [Nat.add_assoc]
    exact h'

theorem carries_chunksAt {size : Nat} (hsize : 0 < size) (offset : Nat) (data : List UInt8) :
    Carries offset data ((chunksAt size offset data).map onWire) := by
  induction offset, data using chunksAt_induction hsize with
  | nil offset => exact .nil offset
  | cons offset data hdata ih =>
    have hcons := Carries.cons ih
    rw [List.take_append_drop] at hcons
    rw [chunksAt_of_ne hsize hdata]
    exact hcons

theorem onWire_chunksAt_mod {size : Nat} (hsize : 0 < size) (offset : Nat) (data : List UInt8) :
    (chunksAt size (offset % 2 ^ 64) data).map onWire = (chunksAt size offset data).map onWire := by
  have hrebase : ∀ offset', offset' % 2 ^ 64 = offset % 2 ^ 64 →
      (chunksAt size offset' data).map onWire = (chunksAt size offset data).map onWire := by
    induction offset, data using chunksAt_induction hsize with
    | nil offset => exact fun _ _ => rfl
    | cons offset data hdata ih =>
      intro offset' hmod
      rw [chunksAt_of_ne hsize hdata, chunksAt_of_ne hsize hdata, List.map_cons, List.map_cons,
        ih (offset' + (data.take size).length) (by omega), onWire, onWire, hmod]
  exact hrebase _ (Nat.mod_mod _ _)

/-! ## The calls -/

section

variable {σ : Type} {port : Port σ} {maxMsg : Nat}

/-- What a call has sent of its chunks: Twrites on the fid, in the order of the
chunks, and each one acknowledged if the call is through. -/
structure Streamed (maxMsg fid : Nat) (chunks : List (Nat × List UInt8)) (events : List PortEvent)
    (through : Bool) : Prop where
  twrites : ∀ msg ∈ sentIn events, IsPushWrite maxMsg fid msg
  order : settled (attempts events) <+: chunks
  closed : through = true → ∀ later, settled (attempts events ++ later) = chunks ++ settled later
  acked : through = true → ackedWrites events = chunks

theorem Streamed.none (maxMsg fid : Nat) (chunks : List (Nat × List UInt8)) : Streamed maxMsg fid chunks [] false :=
  ⟨nofun, List.nil_prefix, nofun, nofun⟩

theorem Streamed.nil (maxMsg fid : Nat) : Streamed maxMsg fid [] [] true :=
  ⟨nofun, List.nil_prefix, fun _ _ => rfl, fun _ => rfl⟩

theorem Streamed.append {fid : Nat} {chunks chunks' : List (Nat × List UInt8)} {events events' : List PortEvent}
    {through : Bool} (h : Streamed maxMsg fid chunks events true) (h' : Streamed maxMsg fid chunks' events' through) :
    Streamed maxMsg fid (chunks ++ chunks') (events ++ events') through := by
  refine ⟨fun msg hmsg => ?_, ?_, fun hthrough later => ?_, fun hthrough => ?_⟩
  · rw [sentIn_append] at hmsg
    exact (List.mem_append.mp hmsg).elim (h.twrites msg) (h'.twrites msg)
  · rw [attempts_append, h.closed rfl]
    exact (List.prefix_append_right_inj chunks).mpr h'.order
  · rw [attempts_append, List.append_assoc, h.closed rfl, h'.closed hthrough, List.append_assoc]
  · rw [ackedWrites_append, h.acked rfl, h'.acked hthrough]

theorem Streamed.extend {fid : Nat} {chunks : List (Nat × List UInt8)} {events : List PortEvent} {through : Bool}
    (h : Streamed maxMsg fid chunks events through) (more : List (Nat × List UInt8)) :
    Streamed maxMsg fid (chunks ++ more) events false :=
  ⟨h.twrites, h.order.trans (List.prefix_append chunks more), nofun, nofun⟩

theorem streamed_took (maxMsg fid : Nat) (conv : Slot) (ds : List Dgram) :
    Streamed maxMsg fid [] (ds.map (.took conv)) true := by
  have hsent : sentIn (ds.map (.took conv)) = [] := by simp [sentIn, List.filterMap_map]
  have hattempts : attempts (ds.map (.took conv)) = [] := by simp [attempts, List.filterMap_map]
  refine ⟨?_, ?_, fun _ later => ?_, fun _ => ackedWrites_took conv ds⟩
  · rw [hsent]
    exact fun msg hmsg => absurd hmsg List.not_mem_nil
  · rw [hattempts]
    exact List.nil_prefix
  · rw [hattempts, List.nil_append, List.nil_append]

theorem sentIn_attempts {fid offset : Nat} {data : List UInt8} (hfits : 23 + data.length ≤ maxMsg)
    (hsmall : 23 + data.length < 4294967296) (tries : List Attempt) :
    ∀ msg ∈ sentIn (tries.map (Attempt.event fid offset data)), IsPushWrite maxMsg fid msg := by
  intro msg hmsg
  obtain ⟨e, he, hsent⟩ := List.mem_filterMap.mp hmsg
  obtain ⟨a, -, rfl⟩ := List.mem_map.mp he
  cases hsent
  exact isPushWrite_tWrite hfits hsmall

theorem attempts_event {fid offset : Nat} {data : List UInt8} (hsmall : 23 + data.length < 4294967296)
    (tries : List Attempt) :
    attempts (tries.map (Attempt.event fid offset data)) = tries.map fun a => (onWire (offset, data), a.sr) := by
  induction tries with
  | nil => rfl
  | cons a tries ih =>
    have hone : attempts [a.event fid offset data] = [(onWire (offset, data), a.sr)] := by
      simp only [attempts, Attempt.event, List.filterMap_cons, List.filterMap_nil, parseTwrite_tWrite hsmall,
        Option.map_some, onWire]
    rw [List.map_cons, ← List.singleton_append, attempts_append, hone, ih]
    rfl

theorem pushChunk_streamed {conv : Slot} {route : Option Addr} {fid offset tag tag' : Nat} {data : List UInt8}
    {sr : Int} {w w' : σ} {log log' : List PortEvent} (hfits : 23 + data.length ≤ maxMsg)
    (hsmall : 23 + data.length < 4294967296)
    (h : pushChunk port.logged conv route fid offset data 12 (-1) tag (w, log) = (sr, tag', w', log')) :
    ∃ events, log' = log ++ events ∧ Streamed maxMsg fid [onWire (offset, data)] events (decide (0 ≤ sr)) := by
  obtain ⟨fails, last, heq, rfl, hfails⟩ := pushChunk_sends (by decide) h
  have hrepeats : ∀ f ∈ fails.map fun a => (onWire (offset, data), a.sr), f.1 = onWire (offset, data) ∧ f.2 < 0 := by
    intro f hf
    obtain ⟨a, ha, rfl⟩ := List.mem_map.mp hf
    exact ⟨rfl, hfails a ha⟩
  refine ⟨_, heq, sentIn_attempts hfits hsmall _, ?_, fun hacked later => ?_, fun hacked => ?_⟩
  · rw [attempts_event hsmall, List.map_append, List.map_singleton, settled_retries hrepeats]
    exact List.prefix_rfl
  · rw [attempts_event hsmall, List.map_append, List.map_singleton, List.append_assoc, List.singleton_append,
      settled_retries hrepeats, settled_cons (of_decide_eq_true hacked)]
    rfl
  · exact ackedWrites_attempts hfails (of_decide_eq_true hacked)

theorem pushMaxData_bounds (hmin : 23 < maxMsg) (hmax : maxMsg < 4294967296) :
    0 < pushMaxData maxMsg ∧ 23 + pushMaxData maxMsg ≤ maxMsg ∧ 23 + pushMaxData maxMsg < 4294967296 := by
  unfold pushMaxData
  rw [cUInt_of_lt (by omega) (by omega)]
  omega

theorem pushLoop_streamed (hmin : 23 < maxMsg) (hmax : maxMsg < 4294967296) {conv : Slot} {route : Option Addr}
    {fuel rounds offset : Nat} {left : List UInt8} {g g' : Push} {w w' : σ} {log log' : List PortEvent}
    {through : Bool}
    (h : pushLoop port.logged maxMsg fuel conv route rounds offset left g (w, log) =
      some (through, g', w', log')) :
    ∃ events, log' = log ++ events ∧ g'.fid = g.fid ∧
      Streamed maxMsg g.fid ((chunksAt (pushMaxData maxMsg) offset left).map onWire) events through := by
  obtain ⟨hpos, hfits, hsmall⟩ := pushMaxData_bounds hmin hmax
  induction rounds generalizing offset left g w log with
  | zero => cases h
  | succ rounds ih =>
    unfold pushLoop at h
    split at h
    · rename_i hleft
      cases h
      rw [hleft]
      exact ⟨[], (List.append_nil _).symm, rfl, .nil maxMsg _⟩
    · rename_i hleft
      have htake : (left.take (pushMaxData maxMsg)).length ≤ pushMaxData maxMsg := List.length_take_le _ _
      have hchunkFits : 23 + (left.take (pushMaxData maxMsg)).length ≤ maxMsg := by omega
      rw [chunksAt_of_ne hpos hleft, List.map_cons]
      cases hchunk : pushChunk port.logged conv route g.fid offset (left.take (pushMaxData maxMsg)) 12 (-1)
          g.tag (w, log) with
      | mk sr next =>
        obtain ⟨tag, next, mid⟩ := next
        obtain ⟨events, rfl, hstreamed⟩ := pushChunk_streamed hchunkFits (by omega) hchunk
        rw [hchunk] at h
        dsimp only at h
        split at h
        · cases h
          exact ⟨events, rfl, rfl, hstreamed.extend _⟩
        · rename_i hacked
          rw [decide_eq_true (by omega)] at hstreamed
          cases hreap : pushReap port.logged conv fuel 0 g.outstanding (next, log ++ events) with
          | none =>
            rw [hreap] at h
            cases h
          | some reaped =>
            obtain ⟨outstanding, next', mid⟩ := reaped
            obtain ⟨ds, rfl⟩ := pushReap_took hreap
            rw [hreap] at h
            obtain ⟨later, rfl, hfid, hlater⟩ := ih h
            refine ⟨events ++ ds.map (.took conv) ++ later, by simp only [List.append_assoc], hfid, ?_⟩
            exact (hstreamed.append (streamed_took maxMsg g.fid conv ds)).append hlater

/-- A write to the gateway: its chunks are sent in order, and its count is
returned once all of them are acknowledged. -/
theorem pushWrite_streamed (hmin : 23 < maxMsg) (hmax : maxMsg < 4294967296) {fuel offset : Nat} {buf : List UInt8}
    {g g' : Push} {w w' : σ} {log log' : List PortEvent} {result : Int}
    (h : pushWrite port.logged maxMsg fuel buf offset g (w, log) = some (result, g', w', log')) :
    ∃ events, log' = log ++ events ∧ g'.fid = g.fid ∧ (0 ≤ result → result = buf.length) ∧
      Streamed maxMsg g.fid ((chunksAt (pushMaxData maxMsg) offset buf).map onWire) events (decide (0 ≤ result)) := by
  unfold pushWrite at h
  split at h
  · rename_i conv _ _
    cases hroute : port.euiToAddr (port.peer conv w) w with
    | mk route next =>
      rw [Port.logged_peer, Port.logged_euiToAddr hroute] at h
      dsimp only at h
      cases hloop : pushLoop port.logged maxMsg fuel conv route fuel offset buf g (next, log) with
      | none =>
        rw [hloop] at h
        cases h
      | some ended =>
        obtain ⟨through, g₁, w₁, log₁⟩ := ended
        obtain ⟨events, rfl, hfid, hstreamed⟩ := pushLoop_streamed hmin hmax hloop
        rw [hloop] at h
        cases through with
        | true =>
          cases h
          refine ⟨events, rfl, hfid, fun _ => rfl, ?_⟩
          rw [decide_eq_true (Int.natCast_nonneg _)]
          exact hstreamed
        | false =>
          cases h
          exact ⟨events, rfl, hfid, fun hneg => absurd hneg (by decide), hstreamed⟩
  · cases h
    exact ⟨[], (List.append_nil _).symm, rfl, fun hneg => absurd hneg (by decide), .none maxMsg _ _⟩

def QueueEnds (port : Port σ) (fuel : Nat) : Prop :=
  ∀ conv outstanding w, pushReap port conv fuel 0 outstanding w ≠ none

theorem pushLoop_returns {fuel : Nat} (hqueue : QueueEnds port fuel) (hdata : 0 < pushMaxData maxMsg) {conv : Slot}
    {route : Option Addr} {rounds offset : Nat} {left : List UInt8} {g : Push} {w : σ}
    (hrounds : left.length < rounds) : pushLoop port maxMsg fuel conv route rounds offset left g w ≠ none := by
  induction rounds generalizing offset left g w with
  | zero => cases hrounds
  | succ rounds ih =>
    unfold pushLoop
    split
    · exact Option.some_ne_none _
    · rename_i hleft
      have hpos := List.length_pos_iff.mpr hleft
      have hshorter : (left.drop (pushMaxData maxMsg)).length < rounds := by
        rw [List.length_drop]
        omega
      dsimp only
      split
      · exact Option.some_ne_none _
      · split
        · rename_i hnone
          exact absurd hnone (hqueue _ _ _)
        · exact ih hshorter

/-- The gateway's call returns. -/
theorem pushWrite_returns {fuel : Nat} (hqueue : QueueEnds port fuel) (hdata : 0 < pushMaxData maxMsg) {offset : Nat}
    {buf : List UInt8} {g : Push} {w : σ} (hfuel : buf.length < fuel) :
    pushWrite port maxMsg fuel buf offset g w ≠ none := by
  unfold pushWrite
  split
  · dsimp only
    split
    · rename_i hnone
      exact absurd hnone (pushLoop_returns hqueue hdata hfuel)
    · exact Option.some_ne_none _
    · exact Option.some_ne_none _
  · exact Option.some_ne_none _

end

end DectMesh.Aether
