import DectMesh.Aether.NodePort
import DectMesh.Aether.Push

/-! What the results of a push session say about the peer and the mesh. -/
namespace DectMesh.Aether

open DectMesh.Lib

def ackedWrites (log : List PortEvent) : List (Nat × List UInt8) :=
  log.filterMap fun
    | .sent _ msg sr =>
        if typeOf msg = 118 ∧ 0 ≤ sr then some (leNat ((msg.drop 11).take 8), msg.drop 23) else none
    | .took .. => none

def sentIn (log : List PortEvent) : List (List UInt8) :=
  log.filterMap fun
    | .sent _ msg _ => some msg
    | .took .. => none

theorem ackedWrites_append (left right : List PortEvent) :
    ackedWrites (left ++ right) = ackedWrites left ++ ackedWrites right := List.filterMap_append

theorem ackedWrites_ofCall {conv : Slot} {msg : List UInt8} {events : List PortEvent}
    (h : ∀ e ∈ events, OfCall conv msg e) (htype : typeOf msg ≠ 118) : ackedWrites events = [] := by
  refine List.filterMap_eq_nil_iff.mpr fun e he => ?_
  have hown := h e he
  cases e with
  | took => rfl
  | sent dst sent sr =>
    cases hown
    exact if_neg fun hacked => htype hacked.1

theorem ackedWrites_tWrite (dst : Addr) (tag fid offset : Nat) (data : List UInt8) (sr : Int) :
    ackedWrites [.sent dst (tWrite tag fid offset data) sr] =
      if 0 ≤ sr then [(offset % 2 ^ 64, data)] else [] := by
  have hoffset : ((tWrite tag fid offset data).drop 11).take 8 = leBytes 8 offset := by
    simp [tWrite, frame, leBytes]
  have hdata : (tWrite tag fid offset data).drop 23 = data := by simp [tWrite, frame, leBytes]
  have htype : typeOf (tWrite tag fid offset data) = 118 := typeOf_frame _ _ _
  have hmod : leNat (leBytes 8 offset) = offset % 2 ^ 64 := leNat_leBytes 8 offset
  simp only [ackedWrites, List.filterMap_cons, List.filterMap_nil, htype, hoffset, hdata, hmod, true_and]
  split <;> simp_all

inductive Carries : Nat → List UInt8 → List (Nat × List UInt8) → Prop
  | nil (offset : Nat) : Carries offset [] []
  | cons {offset : Nat} {chunk later : List UInt8} {chunks : List (Nat × List UInt8)}
      (h : Carries (offset + chunk.length) later chunks) :
      Carries offset (chunk ++ later) ((offset % 2 ^ 64, chunk) :: chunks)

section

variable {σ : Type} {port : Port σ} {maxMsg : Nat}

theorem typeOf_take {data : List UInt8} {cap : Nat} (h : 5 ≤ (data.take cap).length) :
    typeOf (data.take cap) = typeOf data := by
  have hcap : 4 < cap := by
    rw [List.length_take] at h
    omega
  simp [typeOf, List.getD_eq_getElem?_getD, hcap]

def Answered (conv : Slot) (log : List PortEvent) (request : List UInt8 × UInt8) : Prop :=
  ∃ d, .took conv d ∈ log ∧ d.matchesTag (tagOf request.1) = true ∧ typeOf d.data = request.2

theorem Answered.mono {conv : Slot} {log log' : List PortEvent} {request : List UInt8 × UInt8}
    (h : Answered conv log request) (hsub : log ⊆ log') : Answered conv log' request := by
  obtain ⟨d, hd, hrest⟩ := h
  exact ⟨d, hsub hd, hrest⟩

theorem m9Rpc_replied {conv : Slot} {msg : List UInt8} {cap : Nat} {type : UInt8} {w w' : σ}
    {log log' : List PortEvent} {r : Option (List UInt8)}
    (h : m9Rpc port.logged conv msg cap (w, log) = (r, w', log')) :
    ∃ events, log' = log ++ events ∧ (∀ e ∈ events, OfCall conv msg e) ∧
      (replied type r = true → Answered conv events (msg, type)) := by
  obtain ⟨events, heq, hown, htakes⟩ := m9Rpc_logged port conv msg cap w log
  rw [heq] at h
  cases h
  refine ⟨events, rfl, hown, fun hreplied => ?_⟩
  unfold replied at hreplied
  split at hreplied
  · rename_i rbuf hreply
    rw [hreply] at htakes
    obtain ⟨earlier, d, htaken, -, htag, rfl⟩ := htakes
    simp only [Bool.and_eq_true, decide_eq_true_eq] at hreplied
    have hmem : d ∈ takenFrom events := by simp [htaken]
    obtain ⟨e, he, hd⟩ := List.mem_filterMap.mp hmem
    cases e with
    | sent => cases hd
    | took n taken =>
      cases hd
      have hconv : n = conv := hown _ he
      subst hconv
      exact ⟨d, he, htag, (typeOf_take hreplied.1).symm.trans hreplied.2⟩
  · cases hreplied

theorem m9Steps_answered {conv : Slot} {requests : List (List UInt8 × UInt8)} {number : Nat} {w w' : σ}
    {log log' : List PortEvent} {step : Int} (htypes : ∀ request ∈ requests, typeOf request.1 ≠ 118)
    (hnumber : 0 < number)
    (h : m9Steps port.logged maxMsg conv requests number (w, log) = (step, w', log')) :
    ∃ events, log' = log ++ events ∧ ackedWrites events = [] ∧
      (0 ≤ step → ∀ request ∈ requests, Answered conv events request) := by
  induction requests generalizing number w log with
  | nil =>
    cases h
    exact ⟨[], by simp, rfl, fun _ _ hmem => nomatch hmem⟩
  | cons request rest ih =>
    obtain ⟨msg, type⟩ := request
    unfold m9Steps at h
    cases hrpc : m9Rpc port.logged conv msg maxMsg (w, log) with
    | mk r next =>
      obtain ⟨next, mid⟩ := next
      obtain ⟨events, rfl, hown, hanswered⟩ := m9Rpc_replied hrpc
      have hnone := ackedWrites_ofCall hown (htypes (msg, type) List.mem_cons_self)
      rw [hrpc] at h
      dsimp only at h
      split at h
      · rename_i hreplied
        obtain ⟨later, rfl, hlater, hrest⟩ :=
          ih (fun r hr => htypes r (List.mem_cons_of_mem _ hr)) (Nat.succ_pos number) h
        refine ⟨events ++ later, List.append_assoc _ _ _, ?_, fun hstep other hmem => ?_⟩
        · rw [ackedWrites_append, hnone, hlater, List.append_nil]
        · rcases List.mem_cons.mp hmem with rfl | hmem
          · exact (hanswered hreplied).mono (List.subset_append_left _ _)
          · exact (hrest hstep other hmem).mono (List.subset_append_right _ _)
      · cases h
        exact ⟨events, rfl, hnone, fun hstep => by omega⟩

theorem m9OpenDevfile_answered {conv : Slot} {tag tag' : Nat} {file : List UInt8} {mode : UInt8}
    {w w' : σ} {log log' : List PortEvent} {step : Int}
    (h : m9OpenDevfile port.logged maxMsg conv tag file mode (w, log) = (step, tag', w', log')) :
    ∃ events, log' = log ++ events ∧ ackedWrites events = [] ∧
      (0 ≤ step → ∀ request ∈ openRequests maxMsg tag file mode, Answered conv events request) := by
  unfold m9OpenDevfile at h
  cases hsteps : m9Steps port.logged maxMsg conv (openRequests maxMsg tag file mode) 1 (w, log) with
  | mk code next =>
    rw [hsteps] at h
    cases h
    exact m9Steps_answered (fun request hmem => (openRequests_types hmem).2) Nat.one_pos hsteps

theorem pushReap_took {conv : Slot} {fuel wait outstanding outstanding' : Nat} {w w' : σ}
    {log log' : List PortEvent}
    (h : pushReap port.logged conv fuel wait outstanding (w, log) = some (outstanding', w', log')) :
    ∃ ds : List Dgram, log' = log ++ ds.map (.took conv) := by
  induction fuel generalizing wait outstanding w log with
  | zero => cases h
  | succ fuel ih =>
    unfold pushReap at h
    cases hget : port.msgqGet conv wait w with
    | mk got next =>
      rw [Port.logged_msgqGet hget] at h
      cases got with
      | none =>
        cases h
        exact ⟨[], rfl⟩
      | some d =>
        obtain ⟨ds, rfl⟩ := ih h
        exact ⟨d :: ds, List.append_assoc _ _ _⟩

theorem ackedWrites_took (conv : Slot) (ds : List Dgram) : ackedWrites (ds.map (.took conv)) = [] := by
  simp [ackedWrites, List.filterMap_map]

theorem pushReap_acks {conv : Slot} {fuel wait outstanding outstanding' : Nat} {w w' : σ}
    {log log' : List PortEvent}
    (h : pushReap port.logged conv fuel wait outstanding (w, log) = some (outstanding', w', log')) :
    ∃ events, log' = log ++ events ∧ ackedWrites events = [] := by
  obtain ⟨ds, heq⟩ := pushReap_took h
  exact ⟨_, heq, ackedWrites_took conv ds⟩

structure Attempt where
  dst : Addr
  tag : Nat
  sr : Int

def Attempt.event (fid offset : Nat) (data : List UInt8) (a : Attempt) : PortEvent :=
  .sent a.dst (tWrite a.tag fid offset data) a.sr

theorem pushChunk_sends {conv : Slot} {route : Option Addr} {fid offset rounds tag tag' : Nat}
    {data : List UInt8} {sr sr' : Int} {w w' : σ} {log log' : List PortEvent} (hsr : sr < 0)
    (h : pushChunk port.logged conv route fid offset data (rounds + 1) sr tag (w, log) = (sr', tag', w', log')) :
    ∃ (fails : List Attempt) (last : Attempt), log' = log ++ (fails ++ [last]).map (Attempt.event fid offset data) ∧
      last.sr = sr' ∧ ∀ a ∈ fails, a.sr < 0 := by
  induction rounds generalizing sr tag w log with
  | zero =>
    unfold pushChunk at h
    rw [if_pos hsr] at h
    cases h
    exact ⟨[], ⟨_, _, _⟩, rfl, rfl, fun _ hmem => absurd hmem List.not_mem_nil⟩
  | succ rounds ih =>
    unfold pushChunk at h
    rw [if_pos hsr] at h
    cases hsend : port.sendReliable (route.getD (port.peer conv w)) (tWrite tag fid offset data) w with
    | mk result next =>
      rw [Port.logged_peer, Port.logged_sendReliable hsend] at h
      dsimp only at h
      by_cases hresult : result < 0
      · obtain ⟨fails, last, rfl, hlast, hfails⟩ := ih hresult h
        refine ⟨⟨_, _, result⟩ :: fails, last, List.append_assoc _ _ _, hlast, fun a ha => ?_⟩
        rcases List.mem_cons.mp ha with rfl | ha
        · exact hresult
        · exact hfails a ha
      · unfold pushChunk at h
        rw [if_neg hresult] at h
        cases h
        exact ⟨[], ⟨_, _, _⟩, rfl, rfl, fun _ hmem => absurd hmem List.not_mem_nil⟩

theorem ackedWrites_attempts {fid offset : Nat} {data : List UInt8} {fails : List Attempt} {last : Attempt}
    (hfails : ∀ a ∈ fails, a.sr < 0) (hlast : 0 ≤ last.sr) :
    ackedWrites ((fails ++ [last]).map (Attempt.event fid offset data)) = [(offset % 2 ^ 64, data)] := by
  induction fails with
  | nil =>
    have hacked := ackedWrites_tWrite last.dst last.tag fid offset data last.sr
    rw [if_pos hlast] at hacked
    exact hacked
  | cons a fails ih =>
    have hfailed := hfails a List.mem_cons_self
    have hnone := ackedWrites_tWrite a.dst a.tag fid offset data a.sr
    rw [if_neg (by omega)] at hnone
    rw [List.cons_append, List.map_cons, ← List.singleton_append, ackedWrites_append,
      ih fun b hb => hfails b (List.mem_cons_of_mem _ hb), Attempt.event, hnone, List.nil_append]

theorem pushChunk_acks {conv : Slot} {route : Option Addr} {fid offset tag tag' : Nat} {data : List UInt8}
    {sr : Int} {w w' : σ} {log log' : List PortEvent}
    (h : pushChunk port.logged conv route fid offset data 12 (-1) tag (w, log) = (sr, tag', w', log')) :
    ∃ events, log' = log ++ events ∧ (0 ≤ sr → ackedWrites events = [(offset % 2 ^ 64, data)]) := by
  obtain ⟨fails, last, heq, rfl, hfails⟩ := pushChunk_sends (by decide) h
  exact ⟨_, heq, fun hacked => ackedWrites_attempts hfails hacked⟩

theorem pushLoop_acks {conv : Slot} {route : Option Addr} {fuel rounds offset : Nat} {left : List UInt8}
    {g g' : Push} {w w' : σ} {log log' : List PortEvent} {done : Bool}
    (h : pushLoop port.logged maxMsg fuel conv route rounds offset left g (w, log) =
      some (done, g', w', log')) :
    ∃ events, log' = log ++ events ∧ (done = true → Carries offset left (ackedWrites events)) := by
  induction rounds generalizing offset left g w log with
  | zero => cases h
  | succ rounds ih =>
    unfold pushLoop at h
    split at h
    · rename_i hleft
      cases h
      exact ⟨[], by simp, fun _ => hleft ▸ .nil offset⟩
    · cases hchunk : pushChunk port.logged conv route g.fid offset (left.take (pushMaxData maxMsg)) 12 (-1)
          g.tag (w, log) with
      | mk sr next =>
        obtain ⟨tag, next, mid⟩ := next
        obtain ⟨events, rfl, hacks⟩ := pushChunk_acks hchunk
        rw [hchunk] at h
        dsimp only at h
        split at h
        · cases h
          exact ⟨events, rfl, fun hdone => nomatch hdone⟩
        · rename_i hacked
          have hfirst := hacks (by omega)
          cases hreap : pushReap port.logged conv fuel 0 g.outstanding (next, log ++ events) with
          | none =>
            rw [hreap] at h
            cases h
          | some reaped =>
            obtain ⟨outstanding, next', mid⟩ := reaped
            obtain ⟨swept, rfl, hswept⟩ := pushReap_acks hreap
            rw [hreap] at h
            obtain ⟨later, rfl, hlater⟩ := ih h
            refine ⟨events ++ swept ++ later, by simp only [List.append_assoc], fun hdone => ?_⟩
            rw [ackedWrites_append, ackedWrites_append, hfirst, hswept, List.append_nil,
              List.singleton_append]
            have hcarries := Carries.cons (hlater hdone)
            rwa [List.take_append_drop] at hcarries

theorem pushWrite_acks {fuel offset : Nat} {buf : List UInt8} {g g' : Push} {w w' : σ}
    {log log' : List PortEvent} {result : Int}
    (h : pushWrite port.logged maxMsg fuel buf offset g (w, log) = some (result, g', w', log')) :
    ∃ events, log' = log ++ events ∧ (result = buf.length → Carries offset buf (ackedWrites events)) := by
  unfold pushWrite at h
  split at h
  · rename_i conv _ _
    cases hroute : port.euiToAddr (port.peer conv w) w with
    | mk route next =>
      rw [Port.logged_peer, Port.logged_euiToAddr hroute] at h
      dsimp only at h
      cases hloop : pushLoop port.logged maxMsg fuel conv route fuel offset buf g (next, log) with
      | none =>
        rw [hloop] at h
        cases h
      | some ended =>
        obtain ⟨done, g₁, w₁, log₁⟩ := ended
        obtain ⟨events, rfl, hcarries⟩ := pushLoop_acks hloop
        rw [hloop] at h
        cases done with
        | true =>
          cases h
          exact ⟨events, rfl, fun _ => hcarries rfl⟩
        | false =>
          cases h
          exact ⟨events, rfl, fun hresult => by omega⟩
  · cases h
    exact ⟨[], by simp, fun hresult => by omega⟩

def CarriesAll (writes : List (Nat × List UInt8)) (acked : List (Nat × List UInt8)) : Prop :=
  ∃ chunks, List.Forall₂ (fun wr cs => Carries wr.1 wr.2 cs) writes chunks ∧ acked = chunks.flatten

theorem pushWrites_acks {fuel : Nat} {writes : List (Nat × List UInt8)} {g g' : Push} {w w' : σ}
    {log log' : List PortEvent} {results : List Int}
    (h : pushWrites port.logged maxMsg fuel writes g (w, log) = some (results, g', w', log')) :
    ∃ events, log' = log ++ events ∧
      (results = writes.map (fun wr => (wr.2.length : Int)) → CarriesAll writes (ackedWrites events)) := by
  induction writes generalizing g w log results with
  | nil =>
    cases h
    exact ⟨[], by simp, fun _ => ⟨[], .nil, rfl⟩⟩
  | cons write writes ih =>
    obtain ⟨offset, buf⟩ := write
    unfold pushWrites at h
    cases hwrite : pushWrite port.logged maxMsg fuel buf offset g (w, log) with
    | none =>
      rw [hwrite] at h
      cases h
    | some written =>
      obtain ⟨result, g₁, w₁, log₁⟩ := written
      obtain ⟨events, rfl, hcarries⟩ := pushWrite_acks hwrite
      rw [hwrite] at h
      dsimp only at h
      cases hrest : pushWrites port.logged maxMsg fuel writes g₁ (w₁, log ++ events) with
      | none =>
        rw [hrest] at h
        cases h
      | some rest =>
        obtain ⟨others, g₂, w₂, log₂⟩ := rest
        rw [hrest] at h
        cases h
        obtain ⟨later, rfl, hall⟩ := ih hrest
        refine ⟨events ++ later, List.append_assoc _ _ _, fun hresults => ?_⟩
        simp only [List.map_cons, List.cons.injEq] at hresults
        obtain ⟨chunks, hchunks, hacked⟩ := hall hresults.2
        refine ⟨ackedWrites events :: chunks, .cons (hcarries hresults.1) hchunks, ?_⟩
        rw [ackedWrites_append, hacked, List.flatten_cons]

theorem pushSettle_acks {conv : Slot} {fuel rounds outstanding outstanding' : Nat} {w w' : σ}
    {log log' : List PortEvent}
    (h : pushSettle port.logged fuel conv rounds outstanding (w, log) = some (outstanding', w', log')) :
    ∃ events, log' = log ++ events ∧ ackedWrites events = [] := by
  induction rounds generalizing outstanding w log with
  | zero =>
    cases h
    exact ⟨[], by simp, rfl⟩
  | succ rounds ih =>
    unfold pushSettle at h
    split at h
    · cases hreap : pushReap port.logged conv fuel 500 outstanding (w, log) with
      | none =>
        rw [hreap] at h
        cases h
      | some reaped =>
        obtain ⟨left, next, mid⟩ := reaped
        obtain ⟨events, rfl, hnone⟩ := pushReap_acks hreap
        rw [hreap] at h
        obtain ⟨later, rfl, hlater⟩ := ih h
        exact ⟨events ++ later, List.append_assoc _ _ _, by rw [ackedWrites_append, hnone, hlater]; rfl⟩
    · cases h
      exact ⟨[], by simp, rfl⟩

theorem pushClose_acks {fuel : Nat} {g g' : Push} {w w' : σ} {log log' : List PortEvent} {result : Int}
    (h : pushClose port.logged maxMsg fuel g (w, log) = some (result, g', w', log')) :
    ∃ events, log' = log ++ events ∧ ackedWrites events = [] := by
  unfold pushClose at h
  split at h
  · rename_i conv _ _
    cases hsettle : pushSettle port.logged fuel conv 16 g.outstanding (w, log) with
    | none =>
      rw [hsettle] at h
      cases h
    | some settled =>
      obtain ⟨outstanding, next, mid⟩ := settled
      obtain ⟨events, rfl, hnone⟩ := pushSettle_acks hsettle
      rw [hsettle] at h
      obtain ⟨later, hrpc, hown, -⟩ :=
        m9Rpc_logged port conv (tClunk g.tag g.fid) maxMsg next (log ++ events)
      dsimp only at h
      rw [hrpc] at h
      cases h
      have hclunk : ackedWrites later = [] := ackedWrites_ofCall hown (by simp [tClunk])
      exact ⟨events ++ later, List.append_assoc _ _ _, by rw [ackedWrites_append, hnone, hclunk]; rfl⟩
  · cases h
    exact ⟨[], by simp, rfl⟩

theorem pushOpen_answered {eui : Addr} {g g' : Push} {w w' : σ} {log log' : List PortEvent} {result : Int}
    (h : pushOpen port.logged maxMsg eui g (w, log) = (result, g', w', log')) :
    ∃ events, log' = log ++ events ∧ ackedWrites events = [] ∧
      (result = 0 → ∃ conv, ∀ request ∈ openRequests maxMsg 1 firmwareName 1,
        Answered conv events request) := by
  unfold pushOpen at h
  have hdrop : ∃ g₀ w₀, dropStale port.logged g (w, log) = (g₀, w₀, log) := by
    unfold dropStale
    split
    · split
      · exact ⟨_, _, rfl⟩
      · exact ⟨_, _, rfl⟩
    · exact ⟨_, _, rfl⟩
  obtain ⟨g₀, w₀, hdrop⟩ := hdrop
  rw [hdrop] at h
  dsimp only at h
  cases halloc : port.convAlloc w₀ with
  | mk got next =>
    have hlog : port.logged.convAlloc (w₀, log) = (got, next, log) := by simp [Port.logged, halloc]
    rw [hlog] at h
    cases got with
    | none =>
      cases h
      exact ⟨[], by simp, rfl, fun hresult => by omega⟩
    | some conv =>
      dsimp only at h
      cases hopen : m9OpenDevfile port.logged maxMsg conv 1 firmwareName 1
          (port.logged.connect conv eui (next, log)) with
      | mk step opened =>
        obtain ⟨tag, w₁, log₁⟩ := opened
        obtain ⟨events, hevents, hnone, hanswered⟩ := m9OpenDevfile_answered hopen
        rw [hopen] at h
        dsimp only at h
        split at h
        · cases h
          exact ⟨events, hevents, hnone, fun hresult => ⟨conv, hanswered (by omega)⟩⟩
        · rename_i hstep
          cases h
          exact ⟨events, hevents, hnone, fun _ => ⟨conv, hanswered (by omega)⟩⟩

/-- A session whose every call reports success: the four requests of the open
got the replies they want, and the mesh acknowledged Twrites that carry the
bytes of every write, in order. What the peer answered to those Twrites and to
the Tclunk is not in the results. -/
theorem push_success {eui : Addr} {fuel : Nat} {writes : List (Nat × List UInt8)} {results : List Int}
    {g g' : Push} {w w' : σ} {log : List PortEvent}
    (hrun : pushSession port.logged maxMsg fuel eui writes g (w, []) = some (0, results, 0, g', w', log))
    (hresults : results = writes.map fun wr => (wr.2.length : Int)) :
    (∃ conv, ∀ request ∈ openRequests maxMsg 1 firmwareName 1, Answered conv log request) ∧
      CarriesAll writes (ackedWrites log) := by
  unfold pushSession at hrun
  cases hopen : pushOpen port.logged maxMsg eui g (w, []) with
  | mk opened next =>
    obtain ⟨g₁, w₁, log₁⟩ := next
    obtain ⟨events, hevents, hnone, hanswered⟩ := pushOpen_answered hopen
    rw [List.nil_append] at hevents
    subst hevents
    rw [hopen] at hrun
    dsimp only at hrun
    cases hwrites : pushWrites port.logged maxMsg fuel writes g₁ (w₁, log₁) with
    | none =>
      rw [hwrites] at hrun
      cases hrun
    | some written =>
      obtain ⟨others, g₂, w₂, log₂⟩ := written
      obtain ⟨sent, rfl, hcarries⟩ := pushWrites_acks hwrites
      rw [hwrites] at hrun
      dsimp only at hrun
      cases hclose : pushClose port.logged maxMsg fuel g₂ (w₂, log₁ ++ sent) with
      | none =>
        rw [hclose] at hrun
        cases hrun
      | some closed =>
        obtain ⟨last, g₃, w₃, log₃⟩ := closed
        obtain ⟨ending, rfl, hending⟩ := pushClose_acks hclose
        rw [hclose] at hrun
        cases hrun
        constructor
        · obtain ⟨conv, hall⟩ := hanswered rfl
          exact ⟨conv, fun request hmem => (hall request hmem).mono (by simp)⟩
        · rw [ackedWrites_append, ackedWrites_append, hending, List.append_nil, hnone, List.nil_append]
          exact hcarries hresults

end

def Refused (log : List PortEvent) : Prop :=
  ∃ d ∈ takenFrom log, typeOf d.data = 107 ∧
    ∃ msg ∈ sentIn log, (typeOf msg = 118 ∨ typeOf msg = 120) ∧ tagOf msg = tagOf d.data

instance (log : List PortEvent) : Decidable (Refused log) :=
  inferInstanceAs (Decidable (∃ d ∈ takenFrom log, _ ∧ ∃ msg ∈ sentIn log, _))

theorem push_success_three_bytes :
    let peer : Addr := ⟨[2, 0, 0, 0, 0, 1], rfl⟩
    let w := World.hearing peer ((openReplies 512).map some ++
      [some (frame 119 4 (leBytes 4 3)), none, some (frame 121 5 [])])
    ∃ g' w' log, pushSession (nodePort 512).logged 512 9 peer [(0, [1, 2, 3])] .idle (w, []) =
      some (0, [3], 0, g', w', log) ∧ CarriesAll [(0, [1, 2, 3])] (ackedWrites log) := by
  intro peer w
  have hret : (pushSession (nodePort 512).logged 512 9 peer [(0, [1, 2, 3])] .idle (w, [])).map
      (fun r => (r.1, r.2.1, r.2.2.1)) = some (0, [3], 0) := by decide +kernel
  obtain ⟨⟨opened, results, closed, g', w', log⟩, hrun, hcalls⟩ := Option.map_eq_some_iff.mp hret
  cases hcalls
  exact ⟨g', w', log, hrun, (push_success hrun rfl).2⟩

/-- The peer refuses the Twrite with an Rerror, and every call reports success. -/
theorem push_success_after_rerror :
    let peer : Addr := ⟨[2, 0, 0, 0, 0, 1], rfl⟩
    let w := World.hearing peer ((openReplies 512).map some ++
      [some (frame 107 4 (str [0x6e, 0x6f])), none, some (frame 121 5 [])])
    ¬ ∀ g' w' log, pushSession (nodePort 512).logged 512 9 peer [(0, [1, 2, 3])] .idle (w, []) =
      some (0, [3], 0, g', w', log) → ¬ Refused log := by
  intro peer w hclaim
  have hret : (pushSession (nodePort 512).logged 512 9 peer [(0, [1, 2, 3])] .idle (w, [])).map
      (fun r => (r.1, r.2.1, r.2.2.1, decide (Refused r.2.2.2.2.2))) = some (0, [3], 0, true) := by
    decide +kernel
  obtain ⟨⟨opened, results, closed, g', w', log⟩, hrun, hcalls⟩ := Option.map_eq_some_iff.mp hret
  simp only [Prod.mk.injEq, decide_eq_true_eq] at hcalls
  obtain ⟨rfl, rfl, rfl, hrefused⟩ := hcalls
  exact hclaim g' w' log hrun hrefused

end DectMesh.Aether
