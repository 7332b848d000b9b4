import DectMesh.Lib.Pieces
import DectMesh.Relay.PushProxy
import DectMesh.Tools.FileStream

/-! An image on its way from the tool to the mesh: what `do_mesh_ota` writes, over
all its passes, and what the relay's `dev/push` and the gateway behind it put on
the mesh for it. -/
namespace DectMesh.Tools

open DectMesh.Lib DectMesh.Aether DectMesh.Relay

/-! ## What the tool writes -/

/-- A write of the tool: so many bytes of the file from `pos` on, to `off`, and
what comes of it. -/
structure Asked where
  off : Nat
  pos : Nat
  len : Nat
  result : WriteResult

def triesAsked (results : Nat → WriteResult) (r : Nat) : Nat → Nat → Cursor → List Asked
  | 0, _, _ => []
  | left + 1, attempt, c =>
      ⟨c.off, c.pos, r, results attempt⟩ ::
        match results attempt with
        | .wrote _ => []
        | .failed stored => triesAsked results r left (attempt + 1) (c.store (min stored r))

def loopAsked (tries : Nat) (results : Nat → Nat → WriteResult) : List Nat → Nat → Cursor → List Asked
  | [], _, _ => []
  | r :: reads, k, c =>
      triesAsked (results k) r tries 0 c ++
        match pwriteTries (results k) r tries 0 c with
        | (_, none) => []
        | (c, some w) => loopAsked tries results reads (k + 1) (c.advance r w)

def passesAsked (chunk n : Nat) : List PassInput → Nat → List Asked
  | [], _ => []
  | input :: rest, resumeOff =>
      if input.opened then
        let pass := passOf chunk n input resumeOff
        loopAsked 15 input.results (freads chunk (n - resumeOff)) 0 (.from resumeOff) ++
          if pass.2 = false ∧ pass.1.finish ≥ n then [] else passesAsked chunk n rest (backUp pass.1.finish)
      else passesAsked chunk n rest resumeOff

def meshAsked (chunk : Int) (n : Nat) (attached : Bool) (inputs : List PassInput) : List Asked :=
  if attached then passesAsked (usedChunk 1024 chunk) n inputs 0 else []

/-! ## Where the writes go when none is short -/

/-- A write that came through put all of its bytes where they are in the file. -/
def Asked.Covers (a : Asked) (i : Nat) : Prop := (∃ w, a.result = .wrote w) ∧ a.pos ≤ i ∧ i < a.pos + a.len

def Asked.Aligned (n : Nat) (a : Asked) : Prop := a.off = a.pos ∧ a.pos + a.len ≤ n

theorem tries_asked {results : Nat → WriteResult} {r left attempt : Nat} {c : Cursor} {a : Asked}
    (h : a ∈ triesAsked results r left attempt c) : a.off = c.off ∧ a.pos = c.pos ∧ a.len = r := by
  induction left generalizing attempt c with
  | zero => cases h
  | succ left ih =>
    rw [triesAsked] at h
    rcases List.mem_cons.mp h with rfl | hlater
    · exact ⟨rfl, rfl, rfl⟩
    · split at hlater
      · cases hlater
      · exact ih (c := c.store _) hlater

/-- What a block comes to, and the try that came through. -/
theorem tries_end (results : Nat → WriteResult) (r left attempt : Nat) (c : Cursor) :
    (pwriteTries results r left attempt c).1.off = c.off ∧ (pwriteTries results r left attempt c).1.pos = c.pos ∧
      ∀ w, (pwriteTries results r left attempt c).2 = some w →
        ∃ a ∈ triesAsked results r left attempt c, ∃ w', a.result = .wrote w' ∧ w = min w' r := by
  induction left generalizing attempt c with
  | zero => exact ⟨rfl, rfl, nofun⟩
  | succ left ih =>
    rw [pwriteTries, triesAsked]
    cases hresult : results attempt with
    | wrote w' =>
      refine ⟨rfl, rfl, fun w hw => ?_⟩
      cases hw
      exact ⟨_, List.mem_cons_self, w', rfl, rfl⟩
    | failed stored =>
      obtain ⟨hoff, hpos, hthrough⟩ := ih (attempt + 1) (c.store (min stored r))
      refine ⟨hoff, hpos, fun w hw => ?_⟩
      obtain ⟨a, ha, hwrote⟩ := hthrough w hw
      exact ⟨a, List.mem_cons_of_mem _ ha, hwrote⟩

def AllFull (n : Nat) (asked : List Asked) : Prop := ∀ a ∈ asked, ∀ w, a.result = .wrote w → w = min a.len (n - a.pos)

theorem AllFull.append {n : Nat} {asked later : List Asked} :
    AllFull n (asked ++ later) ↔ AllFull n asked ∧ AllFull n later := List.forall_mem_append

theorem loop_aligned {n tries : Nat} {results : Nat → Nat → WriteResult} {reads : List Nat} {k : Nat} {c : Cursor}
    (hc : c.off = c.pos) (hend : c.pos + reads.sum = n) (hfull : AllFull n (loopAsked tries results reads k c)) :
    (∀ a ∈ loopAsked tries results reads k c, a.Aligned n) ∧ (streamLoop tries results reads k c).1.off ≤ n ∧
      ∀ i, c.off ≤ i → i < (streamLoop tries results reads k c).1.off →
        ∃ a ∈ loopAsked tries results reads k c, a.Covers i := by
  induction reads generalizing k c with
  | nil =>
    rw [List.sum_nil] at hend
    exact ⟨nofun, Nat.le_of_eq (hc.trans hend), fun i hfrom hto => absurd hto (Nat.not_lt.mpr hfrom)⟩
  | cons r reads ih =>
    rw [List.sum_cons] at hend
    have htries : ∀ a ∈ triesAsked (results k) r tries 0 c, a.Aligned n := by
      intro a ha
      obtain ⟨hoff, hpos, hlen⟩ := tries_asked ha
      exact ⟨by omega, by omega⟩
    obtain ⟨hoff, hpos, hthrough⟩ := tries_end (results k) r tries 0 c
    rw [loopAsked] at hfull ⊢
    rw [streamLoop]
    revert hfull hoff hpos hthrough
    cases pwriteTries (results k) r tries 0 c with
    | mk c' accepted =>
      cases accepted with
      | none =>
        intro hfull hoff hpos _
        dsimp only at hoff hpos ⊢
        rw [List.append_nil]
        refine ⟨htries, by omega, fun i hfrom hto => absurd hto (by omega)⟩
      | some w =>
        intro hfull hoff hpos hthrough
        dsimp only at hfull hoff hpos hthrough ⊢
        obtain ⟨hnow, hlater⟩ := AllFull.append.mp hfull
        obtain ⟨a, ha, w', hwrote, hw⟩ := hthrough w rfl
        obtain ⟨haOff, haPos, haLen⟩ := tries_asked ha
        have hwhole : w = r := by
          have hall := hnow a ha w' hwrote
          omega
        have hnextOff : (c'.advance r w).off = c'.off + w := rfl
        have hnextPos : (c'.advance r w).pos = c'.pos + r := rfl
        obtain ⟨haligned, hinside, hcovers⟩ := ih (by omega) (by omega) hlater
        refine ⟨fun b hb => ?_, hinside, fun i hfrom hto => ?_⟩
        · exact (List.mem_append.mp hb).elim (htries b) (haligned b)
        · by_cases hi : i < c.off + r
          · exact ⟨a, List.mem_append_left _ ha, ⟨w', hwrote⟩, by omega, by omega⟩
          · obtain ⟨b, hb, hbcovers⟩ := hcovers i (by omega) hto
            exact ⟨b, List.mem_append_right _ hb, hbcovers⟩

/-- The passes: every write takes bytes to their place, and a run that completes
has each byte in a write that came through. -/
theorem passes_aligned {chunk n start : Nat} {inputs : List PassInput} (hstart : start ≤ n)
    (hfull : AllFull n (passesAsked chunk n inputs start)) :
    (∀ a ∈ passesAsked chunk n inputs start, a.Aligned n) ∧
      ((meshPasses chunk n inputs start).2 = true →
        ∀ i, start ≤ i → i < n → ∃ a ∈ passesAsked chunk n inputs start, a.Covers i) := by
  induction inputs generalizing start with
  | nil => exact ⟨nofun, nofun⟩
  | cons input rest ih =>
    rw [passesAsked] at hfull ⊢
    rw [meshPasses]
    by_cases hopened : input.opened = true
    · rw [if_pos hopened] at hfull ⊢
      rw [if_pos hopened]
      dsimp only at hfull ⊢
      obtain ⟨hnow, hlater⟩ := AllFull.append.mp hfull
      have hsum : (Cursor.from start).pos + (freads chunk (n - start)).sum = n := by
        have hpos : (Cursor.from start).pos = start := rfl
        rw [freads_sum, hpos]
        omega
      obtain ⟨haligned, hinside, hcovers⟩ := loop_aligned rfl hsum hnow
      have hfinish : (passOf chunk n input start).1.finish =
          (streamLoop 15 input.results (freads chunk (n - start)) 0 (.from start)).1.off := rfl
      rw [← hfinish] at hinside hcovers
      by_cases hdone : (passOf chunk n input start).2 = false ∧ (passOf chunk n input start).1.finish ≥ n
      · rw [if_pos hdone, if_pos hdone, List.append_nil]
        exact ⟨haligned, fun _ i hfrom hto => hcovers i hfrom (by omega)⟩
      · rw [if_neg hdone] at hlater ⊢
        rw [if_neg hdone]
        have hback := backUp_le (passOf chunk n input start).1.finish
        obtain ⟨hrest, hcomplete⟩ := ih (by omega) hlater
        refine ⟨fun a ha => (List.mem_append.mp ha).elim (haligned a) (hrest a), fun hdone i hfrom hto => ?_⟩
        by_cases hi : i < (passOf chunk n input start).1.finish
        · obtain ⟨a, ha, hacovers⟩ := hcovers i hfrom hi
          exact ⟨a, List.mem_append_left _ ha, hacovers⟩
        · obtain ⟨a, ha, hacovers⟩ := hcomplete hdone i (by omega) hto
          exact ⟨a, List.mem_append_right _ ha, hacovers⟩
    · rw [if_neg hopened] at hfull ⊢
      rw [if_neg hopened]
      exact ih hstart hfull

/-! ## What the two chips put on the mesh for a write -/

def twritesIn (log : List PortEvent) : List (Nat × List UInt8) := (attempts log).map Prod.fst

theorem twritesIn_append (left right : List PortEvent) :
    twritesIn (left ++ right) = twritesIn left ++ twritesIn right := by
  rw [twritesIn, attempts_append, List.map_append]
  rfl

theorem mem_twritesIn {log : List PortEvent} {msg : List UInt8} {t : Twrite} (hmsg : msg ∈ sentIn log)
    (ht : parseTwrite msg = some t) : (t.offset, t.data) ∈ twritesIn log := by
  obtain ⟨event, hevent, hsent⟩ := List.mem_filterMap.mp hmsg
  cases event with
  | took => cases hsent
  | sent dst other sr =>
    cases hsent
    refine List.mem_map.mpr ⟨((t.offset, t.data), sr), List.mem_filterMap.mpr ⟨_, hevent, ?_⟩, rfl⟩
    dsimp only
    rw [ht]
    rfl

/-- Chunks that carry data are pieces of it, and leave no byte out. -/
theorem Carries.pieces {offset : Nat} {data : List UInt8} {chunks : List (Nat × List UInt8)}
    (h : Carries offset data chunks) (hend : offset + data.length < 2 ^ 64) :
    (∀ c ∈ chunks, offset ≤ c.1 ∧ PieceOf data (c.1 - offset, c.2)) ∧
      ∀ i, offset ≤ i → i < offset + data.length → Covered chunks i := by
  induction h with
  | nil offset => exact ⟨nofun, fun i hfrom hto => absurd hto (Nat.not_lt.mpr hfrom)⟩
  | @cons offset chunk later chunks h ih =>
    rw [List.length_append] at hend
    obtain ⟨hpieces, hcovered⟩ := ih (by omega)
    have hoffset : offset % 2 ^ 64 = offset := Nat.mod_eq_of_lt (by omega)
    rw [hoffset]
    constructor
    · intro c hc
      rcases List.mem_cons.mp hc with rfl | hlater
      · refine ⟨Nat.le_refl _, ?_⟩
        rw [PieceOf, Nat.sub_self, List.drop_zero]
        exact List.prefix_append chunk later
      · obtain ⟨hfrom, hpiece⟩ := hpieces c hlater
        refine ⟨by omega, ?_⟩
        have hdrop : (chunk ++ later).drop (c.1 - offset) = later.drop (c.1 - (offset + chunk.length)) := by
          rw [List.drop_append, List.drop_of_length_le (by omega), List.nil_append]
          congr 1
          omega
        rw [PieceOf, hdrop]
        exact hpiece
    · intro i hfrom hto
      rw [List.length_append] at hto
      by_cases hi : i < offset + chunk.length
      · exact ⟨_, List.mem_cons_self, hfrom, hi⟩
      · exact (hcovered i (by omega) (by omega)).mono fun piece hpiece => List.mem_cons_of_mem _ hpiece

/-- The relay returns what it was given or an error: the gateway takes all of a
sub-write or nothing. -/
theorem pushSend_whole {σ : Type} {port : Port σ} {maxMsg sub fuel off rounds done : Nat} (hmin : 23 < maxMsg)
    (hmax : maxMsg < 4294967296) {buf : List UInt8} {writing : Bool} {t t' : Gateway (σ × List PortEvent)} {ret : Int}
    (hdone : done ≤ buf.length)
    (h : pushSend (gatewayRemote port.logged maxMsg fuel) sub off buf rounds done t = some (ret, writing, t'))
    (hret : 0 ≤ ret) : ret = buf.length := by
  induction rounds generalizing done t with
  | zero => cases h
  | succ rounds ih =>
    unfold pushSend at h
    split at h
    · cases hwrite : (gatewayRemote port.logged maxMsg fuel).write (off + done) ((buf.drop done).take sub) t with
      | none =>
        rw [hwrite] at h
        cases h
      | some written =>
        obtain ⟨got, next⟩ := written
        obtain ⟨-, -, -, hall, -⟩ := gatewayWrite_streamed hmin hmax hwrite
        rw [hwrite] at h
        dsimp only at h
        split at h
        · cases h
          omega
        · rename_i hnot
          have hgot := hall (by omega)
          rw [if_neg (by omega)] at h
          refine ih ?_ h
          have hpart : ((buf.drop done).take sub).length ≤ buf.length - done := by
            rw [List.length_take, List.length_drop]
            exact Nat.min_le_right _ _
          omega
    · cases h
      omega

/-- A write to the relay's `dev/push`, with what it puts on the mesh. -/
theorem pushWrite_proxied {σ : Type} {port : Port σ} {maxMsg sub fuel rounds off : Nat} (hmin : 23 < maxMsg)
    (hmax : maxMsg < 4294967296) (hsub : 0 < sub) {buf : List UInt8} {writing writing' : Bool}
    {t t' : Gateway (σ × List PortEvent)} {ret : Int}
    (h : Relay.pushWrite (gatewayRemote port.logged maxMsg fuel) sub rounds buf off writing t =
      some (ret, writing', t')) :
    (0 ≤ ret → ret = buf.length) ∧ ∃ events, t'.node.2 = t.node.2 ++ events ∧
      Aether.Streamed maxMsg t.push.fid (pushChunks sub maxMsg off buf) events (decide (ret = buf.length)) := by
  have hsend : pushSend (gatewayRemote port.logged maxMsg fuel) sub off buf rounds 0 t = some (ret, writing', t') →
      (0 ≤ ret → ret = buf.length) ∧ ∃ events, t'.node.2 = t.node.2 ++ events ∧
        Aether.Streamed maxMsg t.push.fid (pushChunks sub maxMsg off buf) events (decide (ret = buf.length)) :=
    fun h => ⟨pushSend_whole hmin hmax (Nat.zero_le _) h, pushSend_streamed hmin hmax hsub (Nat.zero_le _) h⟩
  unfold Relay.pushWrite at h
  split at h
  · exact hsend h
  · dsimp only [gatewayRemote] at h
    split at h
    · rename_i hfailed
      cases h
      refine ⟨fun hret => by omega, [], (List.append_nil _).symm, ?_⟩
      rw [decide_eq_false (by omega)]
      exact .none maxMsg _ _
    · exact hsend h

/-- What becomes of a write of the tool: the request does not come to the relay,
or the relay carries it out, in any state of the two chips, and the tool reads
its count or loses the reply. -/
inductive Carried {σ : Type} (port : Port σ) (maxMsg sub : Nat) (file : List UInt8) (a : Asked) :
    List PortEvent → Prop where
  | lost {stored : Nat} (failed : a.result = .failed stored) : Carried port maxMsg sub file a []
  | called {fuel rounds : Nat} {writing writing' : Bool} {t t' : Gateway (σ × List PortEvent)} {ret : Int}
      {events : List PortEvent}
      (call : Relay.pushWrite (gatewayRemote port.logged maxMsg fuel) sub rounds ((file.drop a.pos).take a.len) a.off
        writing t = some (ret, writing', t'))
      (log : t'.node.2 = t.node.2 ++ events)
      (answer : (0 ≤ ret ∧ a.result = .wrote ret.toNat) ∨ ∃ stored, a.result = .failed stored) :
      Carried port maxMsg sub file a events

section

variable {σ : Type} {port : Port σ} {maxMsg sub : Nat} {file : List UInt8}

theorem carried_full {a : Asked} {events : List PortEvent} (hmin : 23 < maxMsg) (hmax : maxMsg < 4294967296)
    (hsub : 0 < sub) (h : Carried port maxMsg sub file a events) (w : Nat) (hw : a.result = .wrote w) :
    w = min a.len (file.length - a.pos) := by
  cases h with
  | lost failed =>
    rw [failed] at hw
    cases hw
  | called call log answer =>
    rcases answer with ⟨hret, hwrote⟩ | ⟨stored, failed⟩
    · obtain ⟨hwhole, -⟩ := pushWrite_proxied hmin hmax hsub call
      rw [hwrote] at hw
      cases hw
      have hall := hwhole hret
      rw [List.length_take, List.length_drop] at hall
      omega
    · rw [failed] at hw
      cases hw

/-- The Twrites of an aligned write are pieces of the file on the session's fid,
and those acknowledged leave out no byte of one that came through. -/
theorem carried_pieces {a : Asked} {events : List PortEvent} (hmin : 23 < maxMsg) (hmax : maxMsg < 4294967296)
    (hsub : 0 < sub) (hsize : file.length < 2 ^ 64) (halign : a.Aligned file.length)
    (h : Carried port maxMsg sub file a events) :
    (∀ msg ∈ sentIn events, ∃ fid, IsPushWrite maxMsg fid msg) ∧ (∀ c ∈ twritesIn events, PieceOf file c) ∧
      ∀ i, a.Covers i → Covered (ackedWrites events) i := by
  obtain ⟨hoff, hinside⟩ := halign
  cases h with
  | lost failed =>
    refine ⟨nofun, nofun, ?_⟩
    rintro i ⟨⟨w, hw⟩, -, -⟩
    rw [failed] at hw
    cases hw
  | @called fuel rounds writing writing' t t' ret _ call log answer =>
    obtain ⟨hwhole, sent, hsent, hstreamed⟩ := pushWrite_proxied hmin hmax hsub call
    rw [log] at hsent
    cases List.append_cancel_left hsent
    have hlength : ((file.drop a.pos).take a.len).length = a.len := by
      rw [List.length_take, List.length_drop]
      omega
    obtain ⟨hpieces, hcovered⟩ := Carries.pieces
      (carries_pushChunks hsub (pushMaxData_bounds hmin hmax).1 a.off ((file.drop a.pos).take a.len))
      (by rw [hlength]; omega)
    refine ⟨fun msg hmsg => ⟨_, hstreamed.twrites msg hmsg⟩, fun c hc => ?_, ?_⟩
    · have hchunk := hstreamed.order.subset (mem_settled hc)
      obtain ⟨hfrom, hpiece⟩ := hpieces c hchunk
      have hblock : PieceOf file (a.off, (file.drop a.pos).take a.len) := by
        rw [PieceOf, hoff]
        exact List.take_prefix _ _
      exact hblock.part hpiece hfrom
    · rintro i ⟨⟨w, hw⟩, hfrom, hto⟩
      have hthrough : decide (ret = (((file.drop a.pos).take a.len).length : Int)) = true := by
        rcases answer with ⟨hret, -⟩ | ⟨stored, failed⟩
        · exact decide_eq_true (hwhole hret)
        · rw [failed] at hw
          cases hw
      rw [hstreamed.acked hthrough]
      exact hcovered i (by omega) (by omega)

/-! ## The whole run -/

theorem acked_twrites {log : List PortEvent} (h : ∀ msg ∈ sentIn log, ∃ fid, IsPushWrite maxMsg fid msg)
    {c : Nat × List UInt8} (hc : c ∈ ackedWrites log) : c ∈ twritesIn log := by
  obtain ⟨event, hevent, hacked⟩ := List.mem_filterMap.mp hc
  cases event with
  | took => cases hacked
  | sent dst msg sr =>
    rw [Option.ite_none_right_eq_some] at hacked
    obtain ⟨-, hchunk⟩ := hacked
    have hmsg : msg ∈ sentIn log := List.mem_filterMap.mpr ⟨_, hevent, rfl⟩
    obtain ⟨-, -, t, ht, -⟩ := h msg hmsg
    have hparts : c = (t.offset, t.data) := by
      rw [parseTwrite, Option.ite_none_right_eq_some] at ht
      obtain ⟨-, ht⟩ := ht
      cases ht
      exact (Option.some.inj hchunk).symm
    rw [hparts]
    exact mem_twritesIn hmsg ht

theorem allCarried_full {asked : List Asked} {logs : List (List PortEvent)} (hmin : 23 < maxMsg)
    (hmax : maxMsg < 4294967296) (hsub : 0 < sub)
    (h : List.Forall₂ (Carried port maxMsg sub file) asked logs) : AllFull file.length asked := by
  induction h with
  | nil => exact nofun
  | cons hone _ ih => exact List.forall_mem_cons.mpr ⟨carried_full hmin hmax hsub hone, ih⟩

theorem allCarried_pieces {asked : List Asked} {logs : List (List PortEvent)} (hmin : 23 < maxMsg)
    (hmax : maxMsg < 4294967296) (hsub : 0 < sub) (hsize : file.length < 2 ^ 64)
    (halign : ∀ a ∈ asked, a.Aligned file.length) (h : List.Forall₂ (Carried port maxMsg sub file) asked logs) :
    (∀ msg ∈ sentIn logs.flatten, ∃ fid, IsPushWrite maxMsg fid msg) ∧
      (∀ c ∈ twritesIn logs.flatten, PieceOf file c) ∧
      ∀ a ∈ asked, ∀ i, a.Covers i → Covered (ackedWrites logs.flatten) i := by
  induction h with
  | nil => exact ⟨nofun, nofun, nofun⟩
  | cons hone _ ih =>
    rw [List.forall_mem_cons] at halign
    obtain ⟨hsent, hpieces, hcovers⟩ := carried_pieces hmin hmax hsub hsize halign.1 hone
    obtain ⟨hlaterSent, hlaterPieces, hlaterCovers⟩ := ih halign.2
    rw [List.flatten_cons, sentIn_append, twritesIn_append, ackedWrites_append]
    refine ⟨fun msg hmsg => (List.mem_append.mp hmsg).elim (hsent msg) (hlaterSent msg),
      fun c hc => (List.mem_append.mp hc).elim (hpieces c) (hlaterPieces c), fun b hb i hi => ?_⟩
    rcases List.mem_cons.mp hb with rfl | hlater
    · exact (hcovers i hi).mono fun c hc => List.mem_append_left _ hc
    · exact (hlaterCovers b hlater i hi).mono fun c hc => List.mem_append_right _ hc

/-- Every run of the tool, in as many passes as it takes, against the relay and
the gateway in any states, with any requests and replies lost and any sends on
the mesh failing: all that is sent are requests to write pieces of the file where
they are in it. If the tool completes, then whoever stores the acknowledged ones,
and of the others any, in any order and any number of times, holds the file. -/
theorem mesh_ota_image {chunk : Int} {attached : Bool} {inputs : List PassInput} {logs : List (List PortEvent)}
    (hmin : 23 < maxMsg) (hmax : maxMsg < 4294967296) (hsub : 0 < sub) (hsize : file.length < 2 ^ 64)
    (hcarried : List.Forall₂ (Carried port maxMsg sub file) (meshAsked chunk file.length attached inputs) logs) :
    (∀ msg ∈ sentIn logs.flatten, Mesh9p.looksLike9pT maxMsg msg = true ∧
        ∃ t, parseTwrite msg = some t ∧ PieceOf file (t.offset, t.data)) ∧
      (∀ c ∈ ackedWrites logs.flatten, c ∈ twritesIn logs.flatten) ∧
      ((doMeshOta chunk file.length attached inputs).2 = true → ∀ stored held,
        (∀ c ∈ ackedWrites logs.flatten, c ∈ stored) → (∀ c ∈ stored, c ∈ twritesIn logs.flatten) →
        Placed file (storePieces held stored)) := by
  have hfull := allCarried_full hmin hmax hsub hcarried
  have hrun : (∀ a ∈ meshAsked chunk file.length attached inputs, a.Aligned file.length) ∧
      ((doMeshOta chunk file.length attached inputs).2 = true → ∀ i, i < file.length →
        ∃ a ∈ meshAsked chunk file.length attached inputs, a.Covers i) := by
    cases attached with
    | false => exact ⟨nofun, nofun⟩
    | true =>
      obtain ⟨haligned, hcomplete⟩ := passes_aligned (Nat.zero_le _) hfull
      exact ⟨haligned, fun hdone i => hcomplete hdone i (Nat.zero_le i)⟩
  obtain ⟨haligned, hcomplete⟩ := hrun
  obtain ⟨hsent, hpieces, hcovers⟩ := allCarried_pieces hmin hmax hsub hsize haligned hcarried
  refine ⟨fun msg hmsg => ?_, fun c hc => acked_twrites hsent hc, fun hdone stored held hacked honly i hi => ?_⟩
  · obtain ⟨fid, hlooks, t, ht, -⟩ := hsent msg hmsg
    exact ⟨hlooks, t, ht, hpieces _ (mem_twritesIn hmsg ht)⟩
  · obtain ⟨a, ha, hacovers⟩ := hcomplete hdone i hi
    exact storePieces_covered (fun c hc => hpieces c (honly c hc)) (.inr ((hcovers a ha i hacovers).mono hacked))

end

set_option synthInstance.maxSize 400 in
/-- Three bytes in blocks of two; the first try does not come to the relay, and
the mesh acknowledges the second try's Twrite on its second attempt. -/
theorem mesh_ota_three_bytes :
    let input : PassInput := ⟨true, fun k attempt => if attempt = 0 ∧ k = 0 then .failed 0 else .wrote (2 - k)⟩
    ∃ logs, List.Forall₂ (Carried (nodePort 40) 40 20 [5, 6, 7]) (meshAsked 2 3 true [input]) logs ∧
      (attempts logs.flatten = [((0, [5, 6]), -1), ((0, [5, 6]), 0), ((2, [7]), -1), ((2, [7]), 0)]) ∧
      Placed [5, 6, 7] (storePieces (fun _ => none) [(2, [7]), (0, [5, 6]), (2, [7])]) := by
  intro input
  let t : Gateway (World × List PortEvent) :=
    ⟨⟨some .first, 2, 4, 0, 0, true⟩, ({ World.hearing .zero [] with sends := [-1, 0] }, []), [], 0⟩
  have hfirst : (Relay.pushWrite (gatewayRemote (nodePort 40).logged 40 9) 20 9 [5, 6] 0 false t).map
      (fun r => (r.1, attempts r.2.2.node.2, ackedWrites r.2.2.node.2)) =
        some (2, [((0, [5, 6]), -1), ((0, [5, 6]), 0)], [(0, [5, 6])]) := by decide +kernel
  have hsecond : (Relay.pushWrite (gatewayRemote (nodePort 40).logged 40 9) 20 9 [7] 2 true t).map
      (fun r => (r.1, attempts r.2.2.node.2, ackedWrites r.2.2.node.2)) =
        some (1, [((2, [7]), -1), ((2, [7]), 0)], [(2, [7])]) := by decide +kernel
  obtain ⟨⟨ret, writing, t'⟩, hcall, hresult⟩ := Option.map_eq_some_iff.mp hfirst
  obtain ⟨⟨ret', writing', t''⟩, hcall', hresult'⟩ := Option.map_eq_some_iff.mp hsecond
  simp only [Prod.mk.injEq] at hresult hresult'
  obtain ⟨rfl, hattempts, hacked⟩ := hresult
  obtain ⟨rfl, hattempts', hacked'⟩ := hresult'
  have hlogs : List.Forall₂ (Carried (nodePort 40) 40 20 [5, 6, 7]) (meshAsked 2 3 true [input])
      [[], t'.node.2, t''.node.2] :=
    .cons (.lost rfl) (.cons (.called hcall (List.nil_append _).symm (.inl ⟨by decide, rfl⟩))
      (.cons (.called hcall' (List.nil_append _).symm (.inl ⟨by decide, rfl⟩)) .nil))
  have hsends : attempts [[], t'.node.2, t''.node.2].flatten =
      [((0, [5, 6]), -1), ((0, [5, 6]), 0), ((2, [7]), -1), ((2, [7]), 0)] := by
    simp only [List.flatten_cons, List.flatten_nil, List.nil_append, List.append_nil, attempts_append, hattempts,
      hattempts', List.cons_append]
  have hacks : ackedWrites [[], t'.node.2, t''.node.2].flatten = [(0, [5, 6]), (2, [7])] := by
    simp only [List.flatten_cons, List.flatten_nil, List.nil_append, List.append_nil, ackedWrites_append, hacked,
      hacked', List.cons_append]
  obtain ⟨-, -, hplaced⟩ := mesh_ota_image (by decide) (by decide) (by decide) (by decide) hlogs
  refine ⟨_, hlogs, hsends, hplaced rfl _ _ ?_ ?_⟩
  · rw [hacks]
    decide
  · rw [twritesIn, hsends]
    decide

end DectMesh.Tools
