import DectMesh.Aether.PushChunks

/-! `dev/push` on the relay, and a host's write to it on its way through the
gateway onto the mesh: one chunker behind the other. -/
namespace DectMesh.Relay

open DectMesh.Lib DectMesh.Aether

/-- What the relay calls on the 9151: `fw9151_open_remote`, `ninep_client_write`
and `ninep_client_clunk`. A result is negative on failure, and `none` is a write
that has not returned. -/
structure Remote (τ : Type) where
  openRemote : τ → Int × τ
  write : Nat → List UInt8 → τ → Option (Int × τ)
  clunk : τ → τ

section

variable {τ : Type} (remote : Remote τ) (chunk : Nat)

/-- The sub-writes, within `rounds`, from `done` on. The result has what
`push_writing` is behind it. -/
def pushSend (off : Nat) (buf : List UInt8) : Nat → Nat → τ → Option (Int × Bool × τ)
  | 0, _, _ => none
  | rounds + 1, done, w =>
      if done < buf.length then
        match remote.write (off + done) ((buf.drop done).take chunk) w with
        | none => none
        | some (ret, w) =>
            if ret < 0 then some (ret, false, remote.clunk w)
            else if ret.toNat < ((buf.drop done).take chunk).length then some (done + ret.toNat, true, w)
            else pushSend off buf rounds (done + ret.toNat) w
      else some (done, true, w)

def pushWrite (rounds : Nat) (buf : List UInt8) (off : Nat) (writing : Bool) (w : τ) : Option (Int × Bool × τ) :=
  if writing then pushSend remote chunk off buf rounds 0 w
  else
    match remote.openRemote w with
    | (ret, w) => if ret < 0 then some (ret, false, w) else pushSend remote chunk off buf rounds 0 w

end

/-! ## The gateway behind it -/

inductive Fate where
  | answered
  | requestLost (error : Nat)
  | replyLost (error : Nat)

def Fate.result : Fate → Int → Int
  | .answered, ret => ret
  | .requestLost error, _ | .replyLost error, _ => .negSucc error

/-- The gateway's push session and the rest of its node, with the fates of the
coming sub-writes and the result of the coming open. -/
structure Gateway (σ : Type) where
  push : Push
  node : σ
  fates : List Fate
  opened : Int

/-- `write_push` on the gateway; a clunk of `dev/push` does nothing there. -/
def gatewayRemote {σ : Type} (port : Port σ) (maxMsg fuel : Nat) : Remote (Gateway σ) where
  openRemote := fun t => (t.opened, t)
  write := fun off data t =>
    match t.fates.headD .answered with
    | .requestLost error => some (.negSucc error, { t with fates := t.fates.tail })
    | fate =>
        (Aether.pushWrite port maxMsg fuel data (off % 2 ^ 64) t.push t.node).map fun (ret, push, node) =>
          (fate.result ret, { t with push := push, node := node, fates := t.fates.tail })
  clunk := fun t => t

/-! ## Both chunkers -/

def pushChunks (chunk maxMsg off : Nat) (buf : List UInt8) : List (Nat × List UInt8) :=
  (chunksAt chunk off buf).flatMap fun sub => (chunksAt (pushMaxData maxMsg) sub.1 sub.2).map onWire

theorem pushChunks_of_ne {chunk maxMsg off : Nat} {buf : List UInt8} (hchunk : 0 < chunk) (h : buf ≠ []) :
    pushChunks chunk maxMsg off buf =
      (chunksAt (pushMaxData maxMsg) off (buf.take chunk)).map onWire ++
        pushChunks chunk maxMsg (off + (buf.take chunk).length) (buf.drop chunk) := by
  unfold pushChunks
  rw [chunksAt_of_ne hchunk h, List.flatMap_cons]

/-- They follow one another from the write's offset on and carry its bytes. -/
theorem carries_pushChunks {chunk maxMsg : Nat} (hchunk : 0 < chunk) (hdata : 0 < pushMaxData maxMsg) (off : Nat)
    (buf : List UInt8) : Carries off buf (pushChunks chunk maxMsg off buf) := by
  induction off, buf using chunksAt_induction hchunk with
  | nil off => exact .nil off
  | cons off buf hbuf ih =>
    rw [pushChunks_of_ne hchunk hbuf]
    have happend := (carries_chunksAt hdata off (buf.take chunk)).append ih
    rw [List.take_append_drop] at happend
    exact happend

variable {σ : Type} {port : Port σ} {maxMsg chunk fuel : Nat}

/-- One sub-write: what the gateway sends for it, whatever becomes of the
request and its reply. -/
theorem gatewayWrite_streamed (hmin : 23 < maxMsg) (hmax : maxMsg < 4294967296) {off : Nat} {data : List UInt8}
    {t t' : Gateway (σ × List PortEvent)} {ret : Int}
    (h : (gatewayRemote port.logged maxMsg fuel).write off data t = some (ret, t')) :
    ∃ events, t'.node.2 = t.node.2 ++ events ∧ t'.push.fid = t.push.fid ∧ (0 ≤ ret → ret = data.length) ∧
      Streamed maxMsg t.push.fid ((chunksAt (pushMaxData maxMsg) off data).map onWire) events (decide (0 ≤ ret)) := by
  have hcall : ∀ fate : Fate, ((Aether.pushWrite port.logged maxMsg fuel data (off % 2 ^ 64) t.push t.node).map
        fun (ret, push, node) =>
          (fate.result ret, { t with push := push, node := node, fates := t.fates.tail })) = some (ret, t') →
      ∃ events, t'.node.2 = t.node.2 ++ events ∧ t'.push.fid = t.push.fid ∧ (0 ≤ ret → ret = data.length) ∧
        Streamed maxMsg t.push.fid ((chunksAt (pushMaxData maxMsg) off data).map onWire) events
          (decide (0 ≤ ret)) := by
    intro fate heq
    obtain ⟨⟨result, push, node⟩, hwrite, hresult⟩ := Option.map_eq_some_iff.mp heq
    obtain ⟨events, hlog, hfid, hfull, hstreamed⟩ := pushWrite_streamed hmin hmax hwrite
    rw [onWire_chunksAt_mod (pushMaxData_bounds hmin hmax).1] at hstreamed
    cases hresult
    cases fate with
    | answered => exact ⟨events, hlog, hfid, hfull, hstreamed⟩
    | requestLost error | replyLost error =>
      have hlost := hstreamed.extend []
      rw [List.append_nil] at hlost
      exact ⟨events, hlog, hfid, fun hneg => absurd hneg (by simp [Fate.result]), hlost⟩
  unfold gatewayRemote at h
  dsimp only at h
  split at h
  · cases h
    exact ⟨[], (List.append_nil _).symm, rfl, fun hneg => absurd hneg (by simp), .none maxMsg _ _⟩
  · exact hcall _ h

theorem drop_length_take (n : Nat) (data : List UInt8) : data.drop (data.take n).length = data.drop n := by
  rw [List.length_take]
  rcases Nat.le_total n data.length with hle | hle
  · rw [Nat.min_eq_left hle]
  · rw [Nat.min_eq_right hle, List.drop_length, List.drop_of_length_le hle]

theorem pushSend_streamed (hmin : 23 < maxMsg) (hmax : maxMsg < 4294967296) (hchunk : 0 < chunk) {off rounds done : Nat}
    {buf : List UInt8} {writing : Bool} {t t' : Gateway (σ × List PortEvent)} {ret : Int} (hdone : done ≤ buf.length)
    (h : pushSend (gatewayRemote port.logged maxMsg fuel) chunk off buf rounds done t = some (ret, writing, t')) :
    ∃ events, t'.node.2 = t.node.2 ++ events ∧
      Streamed maxMsg t.push.fid (pushChunks chunk maxMsg (off + done) (buf.drop done)) events
        (decide (ret = buf.length)) := by
  induction rounds generalizing done t with
  | zero => cases h
  | succ rounds ih =>
    unfold pushSend at h
    split at h
    · rename_i hmore
      have hleft : buf.drop done ≠ [] := by
        intro hnil
        have hlength := congrArg List.length hnil
        rw [List.length_drop, List.length_nil] at hlength
        omega
      rw [pushChunks_of_ne hchunk hleft]
      cases hwrite : (gatewayRemote port.logged maxMsg fuel).write (off + done) ((buf.drop done).take chunk) t with
      | none =>
        rw [hwrite] at h
        cases h
      | some written =>
        obtain ⟨sub, next⟩ := written
        obtain ⟨events, hlog, hfid, hfull, hstreamed⟩ := gatewayWrite_streamed hmin hmax hwrite
        rw [hwrite] at h
        dsimp only at h
        by_cases hneg : sub < 0
        · rw [if_pos hneg] at h
          cases h
          rw [decide_eq_false (by omega : ¬ ret = buf.length)]
          exact ⟨events, hlog, hstreamed.extend _⟩
        · -- the gateway takes all or nothing, so that the loop goes on
          have hsub := hfull (by omega)
          rw [if_neg hneg, if_neg (by omega)] at h
          have hnext : done + sub.toNat = done + ((buf.drop done).take chunk).length := by omega
          rw [hnext] at h
          have hinside : done + ((buf.drop done).take chunk).length ≤ buf.length := by
            rw [List.length_take, List.length_drop]
            omega
          obtain ⟨later, hlater, hrest⟩ := ih hinside h
          rw [decide_eq_true (by omega)] at hstreamed
          rw [← List.drop_drop, drop_length_take, ← Nat.add_assoc, hfid] at hrest
          exact ⟨events ++ later, by rw [hlater, hlog, List.append_assoc], hstreamed.append hrest⟩
    · rename_i hall
      cases h
      have hend : done = buf.length := by omega
      rw [hend, List.drop_length, decide_eq_true rfl]
      exact ⟨[], (List.append_nil _).symm, .nil maxMsg _⟩

theorem pushSend_returns (hqueue : QueueEnds port fuel) (hdata : 0 < pushMaxData maxMsg) (hchunk : 0 < chunk)
    {off rounds done : Nat} {buf : List UInt8} {t : Gateway σ} (hfuel : buf.length < fuel)
    (hrounds : buf.length - done < rounds) :
    pushSend (gatewayRemote port maxMsg fuel) chunk off buf rounds done t ≠ none := by
  induction rounds generalizing done t with
  | zero => cases hrounds
  | succ rounds ih =>
    unfold pushSend
    split
    · rename_i hmore
      have hsub : ((buf.drop done).take chunk).length < fuel := by
        rw [List.length_take, List.length_drop]
        omega
      have hwrite : (gatewayRemote port maxMsg fuel).write (off + done) ((buf.drop done).take chunk) t ≠ none := by
        unfold gatewayRemote
        dsimp only
        split
        · exact Option.some_ne_none _
        · exact fun hnone => pushWrite_returns hqueue hdata hsub (Option.map_eq_none_iff.mp hnone)
      split
      · rename_i hnone
        exact absurd hnone hwrite
      · split
        · exact Option.some_ne_none _
        · split
          · exact Option.some_ne_none _
          · rename_i hfull
            apply ih
            rw [List.length_take, List.length_drop] at hfull
            omega
    · exact Option.some_ne_none _

/-- The write returns if the queue of the session runs empty at each reap. -/
theorem pushWrite_gateway_returns (hmin : 23 < maxMsg) (hmax : maxMsg < 4294967296) (hchunk : 0 < chunk)
    (hqueue : QueueEnds port fuel) {rounds : Nat} {buf : List UInt8} (hfuel : buf.length < fuel)
    (hrounds : buf.length < rounds) (off : Nat) (writing : Bool) (t : Gateway σ) :
    pushWrite (gatewayRemote port maxMsg fuel) chunk rounds buf off writing t ≠ none := by
  have hdata := (pushMaxData_bounds hmin hmax).1
  have hsend : pushSend (gatewayRemote port maxMsg fuel) chunk off buf rounds 0 t ≠ none :=
    pushSend_returns hqueue hdata hchunk hfuel hrounds
  unfold pushWrite
  split
  · exact hsend
  · dsimp only [gatewayRemote]
    split
    · exact Option.some_ne_none _
    · exact hsend

/-- Every write to the relay's `dev/push`, whatever the sends on the mesh come
to: the gateway sends Twrites that the peer takes for requests on the session's
fid, repeats of failed attempts apart they are the chunks in order up to some
point, these follow one another from the write's offset on with the host's
bytes, and the full count is returned only with all of them acknowledged. The
write returns by `pushWrite_gateway_returns`, the gateway's own calls by
`pushWrite_returns`. -/
theorem push_chunks_exact (hmin : 23 < maxMsg) (hmax : maxMsg < 4294967296) (hchunk : 0 < chunk) {rounds off : Nat}
    {buf : List UInt8} {writing writing' : Bool} {t t' : Gateway (σ × List PortEvent)} {ret : Int}
    (hcall : pushWrite (gatewayRemote port.logged maxMsg fuel) chunk rounds buf off writing t =
      some (ret, writing', t')) :
    ∃ events, t'.node.2 = t.node.2 ++ events ∧
      (∀ msg ∈ sentIn events, IsPushWrite maxMsg t.push.fid msg) ∧
      Carries off buf (pushChunks chunk maxMsg off buf) ∧
      settled (attempts events) <+: pushChunks chunk maxMsg off buf ∧
      (ret = buf.length → settled (attempts events) = pushChunks chunk maxMsg off buf ∧
        ackedWrites events = pushChunks chunk maxMsg off buf) := by
  have hcarries := carries_pushChunks hchunk (pushMaxData_bounds hmin hmax).1 off buf
  have hsend : pushSend (gatewayRemote port.logged maxMsg fuel) chunk off buf rounds 0 t = some (ret, writing', t') →
      ∃ events, t'.node.2 = t.node.2 ++ events ∧
        Streamed maxMsg t.push.fid (pushChunks chunk maxMsg off buf) events (decide (ret = buf.length)) :=
    pushSend_streamed hmin hmax hchunk (Nat.zero_le _)
  have hstreamed : ∃ events, t'.node.2 = t.node.2 ++ events ∧
      Streamed maxMsg t.push.fid (pushChunks chunk maxMsg off buf) events (decide (ret = buf.length)) := by
    unfold pushWrite at hcall
    split at hcall
    · exact hsend hcall
    · dsimp only [gatewayRemote] at hcall
      split at hcall
      · rename_i hfailed
        cases hcall
        rw [decide_eq_false (by omega)]
        exact ⟨[], (List.append_nil _).symm, .none maxMsg _ _⟩
      · exact hsend hcall
  obtain ⟨events, hlog, hsent⟩ := hstreamed
  refine ⟨events, hlog, hsent.twrites, hcarries, hsent.order, fun hret => ⟨?_, hsent.acked (decide_eq_true hret)⟩⟩
  have hclosed := hsent.closed (decide_eq_true hret) []
  rw [List.append_nil, settled, List.append_nil] at hclosed
  exact hclosed

/-- Thirty bytes in sub-writes of twenty, the first of its Twrites sent twice. -/
theorem push_chunks_sent_twice :
    let t : Gateway (World × List PortEvent) :=
      ⟨⟨some .first, 2, 4, 0, 0, true⟩, ({ World.hearing .zero [] with sends := [-1, 0, 0, 0] }, []), [], 0⟩
    ∃ writing t' events, pushWrite (gatewayRemote (nodePort 40).logged 40 9) 20 9 (List.replicate 30 7) 5 false t =
        some (30, writing, t') ∧
      t'.node.2 = events ∧ attempts events = [((5, List.replicate 17 7), -1), ((5, List.replicate 17 7), 0),
        ((22, List.replicate 3 7), 0), ((25, List.replicate 10 7), 0)] ∧
      ackedWrites events = pushChunks 20 40 5 (List.replicate 30 7) := by
  intro t
  have hrun : (pushWrite (gatewayRemote (nodePort 40).logged 40 9) 20 9 (List.replicate 30 7) 5 false t).map
      (fun r => (r.1, attempts r.2.2.node.2)) = some (30, [((5, List.replicate 17 7), -1),
        ((5, List.replicate 17 7), 0), ((22, List.replicate 3 7), 0), ((25, List.replicate 10 7), 0)]) := by
    decide +kernel
  obtain ⟨⟨ret, writing, t'⟩, hcall, hresult⟩ := Option.map_eq_some_iff.mp hrun
  simp only [Prod.mk.injEq] at hresult
  obtain ⟨rfl, hattempts⟩ := hresult
  obtain ⟨events, hlog, -, -, -, hfull⟩ := push_chunks_exact (by decide) (by decide) (by decide) hcall
  rw [List.nil_append] at hlog
  exact ⟨writing, t', events, hcall, hlog, hlog ▸ hattempts, (hfull rfl).2⟩

end DectMesh.Relay
