import DectMesh.Aether.PeerPort

/-! `aether_net_push_ctl` against the peer's server, over a mesh that loses
nothing and is in time: what its result says of the write. -/
namespace DectMesh.Aether

open DectMesh.Lib DectMesh.Mesh9p

def confirmName : List UInt8 := [0x63, 0x6f, 0x6e, 0x66, 0x69, 0x72, 0x6d]

def isRwrite (r : Option (List UInt8)) : Bool :=
  match r with
  | some rbuf => 11 ≤ rbuf.length && typeOf rbuf = 119
  | none => false

section

variable {σ : Type} (port : Port σ) (maxMsg : Nat)

/-- `"1"` into the opened file, and its clunk. A peer that resets owes no
Rwrite. -/
def ctlWrite (conv : Slot) (tag : Nat) (expectReset : Bool) (w : σ) : Int × σ :=
  match m9Rpc port conv (tWrite tag 2 0 [0x31]) maxMsg w with
  | (r, w) =>
      let (_, w) := m9Rpc port conv (tClunk (tag + 1) 2) maxMsg w
      (if expectReset || isRwrite r then 0 else -5, w)

/-- 0, -5 without an Rwrite, the step number of `m9OpenDevfile`, or -28 without
a free slot. -/
def pushCtl (eui : Addr) (file : List UInt8) (expectReset : Bool) (w : σ) : Int × σ :=
  match port.convAlloc w with
  | (none, w) => (-28, w)
  | (some conv, w) =>
      match m9OpenDevfile port maxMsg conv 1 file 1 (port.connect conv eui w) with
      | (step, tag, w) =>
          if step < 0 then (step, port.convFree conv w)
          else
            let (result, w) := ctlWrite port maxMsg conv tag expectReset w
            (result, port.convFree conv w)

end

def serveAll {S : Type} (maxMsg : Nat) (handle : Handler S) : List (List UInt8 × UInt8) → S → Option S
  | [], s => some s
  | (msg, type) :: rest, s =>
      if looksLike9pT maxMsg msg ∧ typeOf (handle msg s).1 = type then serveAll maxMsg handle rest (handle msg s).2
      else none

def confirmRequests (maxMsg : Nat) : List (List UInt8 × UInt8) :=
  openRequests maxMsg 1 confirmName 1 ++ [(tWrite 4 2 0 [0x31], 119)]

structure Air.Idle {S : Type} (w : Air S) : Prop where
  flight : w.flight = []
  inbox : w.inbox = []
  sends : ∀ sr ∈ w.sends, 0 ≤ sr

def Air.Wrote {S : Type} (w : Air S) : Prop := ∃ e ∈ w.served, typeOf e.msg = 118 ∧ typeOf e.reply = 119

instance {S : Type} (w : Air S) : Decidable w.Wrote := inferInstanceAs (Decidable (∃ e ∈ w.served, _ ∧ _))

variable {S : Type} {maxMsg : Nat} {handle : Handler S}

theorem Air.fresh_idle (server : S) : (Air.fresh server).Idle where
  flight := rfl
  inbox := rfl
  sends := by
    intro sr hsr
    cases hsr

theorem Air.Idle.send (maxMsg : Nat) (handle : Handler S) {w : Air S} (h : w.Idle) (dst : Addr) (msg : List UInt8) :
    ∃ sr sent, (airPort maxMsg handle prompt).sendReliable dst msg w = (sr, sent) ∧ 0 ≤ sr ∧
      sent = { w.execute maxMsg handle dst msg with sends := w.sends.tail } ∧ ∀ sr ∈ w.sends.tail, 0 ≤ sr := by
  refine ⟨w.sends.headD 0, _, rfl, ?_, rfl, fun sr hsr => h.sends sr (List.mem_of_mem_tail hsr)⟩
  cases hsends : w.sends with
  | nil => exact Int.le_refl 0
  | cons sr rest => exact h.sends sr (hsends ▸ List.mem_cons_self)

theorem m9Reads_nothing {w : Air S} (hflight : w.flight = []) (hinbox : w.inbox = []) (conv : Slot)
    (want cap reads : Nat) :
    m9Reads (airPort maxMsg handle prompt) conv want cap (reads + 1) w =
      (.resend, { w with waits := w.waits + 1 }) := by
  have hwait : w.wait maxMsg prompt = { w with waits := w.waits + 1 } := by
    simp [Air.wait, prompt, Air.land, hflight]
  have hget : (airPort maxMsg handle prompt).msgqGet conv 1500 w = (none, { w with waits := w.waits + 1 }) := by
    show (w.wait maxMsg prompt).take = _
    rw [hwait, Air.take, hinbox]
  unfold m9Reads
  rw [hget]

theorem m9Reads_delivered (handle : Handler S) {w : Air S} {f : Frame} (hmax : maxMsg < 65536)
    (hflight : w.flight = [f]) (hinbox : w.inbox = []) (hsize : 7 ≤ f.payload.length ∧ f.payload.length ≤ maxMsg)
    (htag : tagOf f.payload = tagOf w.asked) (conv : Slot) (cap reads : Nat) :
    m9Reads (airPort maxMsg handle prompt) conv (tagOf w.asked) cap (reads + 1) w =
      (.reply (f.payload.take cap),
        { w with waits := w.waits + 1, flight := [], inbox := [], answered := w.answered ++ [f.id] }) := by
  have hdata : (f.dgram maxMsg w.mesh).data = f.payload := Frame.dgram_data hmax w.mesh hsize.2
  have hmatch : (f.dgram maxMsg w.mesh).matchesTag (tagOf w.asked) = true := by
    simp [Dgram.matchesTag, hdata, hsize.1, htag]
  have hwait : w.wait maxMsg prompt =
      { w with waits := w.waits + 1, flight := [], inbox := [f.dgram maxMsg w.mesh] } := by
    simp [Air.wait, prompt, Air.land, hflight, hinbox]
  have hget : (airPort maxMsg handle prompt).msgqGet conv 1500 w = (some (f.dgram maxMsg w.mesh),
      { w with waits := w.waits + 1, flight := [], inbox := [], answered := w.answered ++ [f.id] }) := by
    show (w.wait maxMsg prompt).take = _
    rw [hwait]
    simp only [Air.take, hmatch, if_true]
    rfl
  unfold m9Reads
  rw [hget]
  dsimp only
  rw [if_neg (by rw [hdata]; omega), if_pos hmatch, hdata]

/-! ## One call -/

structure Outcome (maxMsg : Nat) (handle : Handler S) (msg : List UInt8) (w w' : Air S)
    (r : Option (List UInt8)) : Prop where
  idle : w'.Idle
  refused : looksLike9pT maxMsg msg = false → r = none ∧ w'.served = w.served
  sent : looksLike9pT maxMsg msg = true → typeOf (handle msg w.server).1 ≠ 119 →
    r = some (handle msg w.server).1 ∧ w'.server = (handle msg w.server).2 ∧
      w'.served = w.served ++ [⟨msg, (handle msg w.server).1⟩]
  kept : looksLike9pT maxMsg msg = true → typeOf (handle msg w.server).1 = 119 →
    (∃ later, w'.served = w.served ++ ⟨msg, (handle msg w.server).1⟩ :: later) ∧
      ∀ rbuf, r = some rbuf → typeOf rbuf ≠ 119

theorem m9Attempts_unanswered {w : Air S} (h : w.Idle) {msg : List UInt8}
    (hkept : looksLike9pT maxMsg msg = true → typeOf (handle msg w.server).1 = 119) (conv : Slot)
    (route : Option Addr) (cap attempts : Nat) :
    ∃ w', m9Attempts (airPort maxMsg handle prompt) conv route msg cap (attempts + 1) w =
        m9Attempts (airPort maxMsg handle prompt) conv route msg cap attempts w' ∧
      w'.Idle ∧ w'.served = w.served ++ executed maxMsg handle msg w ∧
      w'.server = if looksLike9pT maxMsg msg then (handle msg w.server).2 else w.server := by
  obtain ⟨sr, sent, hsend, hsr, hsent, hsends⟩ :=
    h.send maxMsg handle (route.getD w.bound) msg
  have hexecute : sent.flight = [] ∧ sent.inbox = [] ∧ sent.served = w.served ++ executed maxMsg handle msg w ∧
      sent.server = if looksLike9pT maxMsg msg then (handle msg w.server).2 else w.server := by
    rw [hsent]
    unfold Air.execute executed
    by_cases hshape : looksLike9pT maxMsg msg = true
    · simp [hshape, mesh9pSend_eq_none, hkept hshape, h.flight, h.inbox]
    · simp [hshape, h.flight, h.inbox]
  refine ⟨{ sent with waits := sent.waits + 1 }, ?_, ⟨hexecute.1, hexecute.2.1, ?_⟩, hexecute.2.2⟩
  · conv_lhs => unfold m9Attempts
    have hpeer : (airPort maxMsg handle prompt).peer conv w = w.bound := rfl
    rw [hpeer, hsend]
    dsimp only
    rw [if_neg (by omega), m9Reads_nothing hexecute.1 hexecute.2.1]
  · rw [hsent]
    exact hsends

theorem m9Attempts_answered (hserver : Replies maxMsg handle) (hmax : maxMsg < 65536) {w : Air S} (h : w.Idle)
    {msg : List UInt8} (hshape : looksLike9pT maxMsg msg = true) (hsent : typeOf (handle msg w.server).1 ≠ 119)
    (conv : Slot) (route : Option Addr) (attempts : Nat) :
    ∃ w', m9Attempts (airPort maxMsg handle prompt) conv route msg maxMsg (attempts + 1) w =
        (some (handle msg w.server).1, w') ∧
      w'.Idle ∧ w'.served = w.served ++ [⟨msg, (handle msg w.server).1⟩] ∧ w'.server = (handle msg w.server).2 := by
  obtain ⟨sr, sent, hsend, hsr, hsent, hsends⟩ :=
    h.send maxMsg handle (route.getD w.bound) msg
  have hsize := hserver.size msg w.server hshape
  have hexecute : sent.flight = [⟨route.getD w.bound, (handle msg w.server).1, false, w.served.length⟩] ∧
      sent.inbox = [] ∧ sent.asked = msg ∧ sent.served = w.served ++ [⟨msg, (handle msg w.server).1⟩] ∧
      sent.server = (handle msg w.server).2 := by
    rw [hsent]
    unfold Air.execute
    simp [mesh9pSend_eq_none, *, h.flight, h.inbox]
  have htag : tagOf (handle msg w.server).1 = tagOf sent.asked := by
    rw [hexecute.2.2.1]
    exact hserver.tag msg w.server hshape
  have hreads := m9Reads_delivered handle hmax hexecute.1 hexecute.2.1 hsize htag conv maxMsg 1
  rw [hexecute.2.2.1, List.take_of_length_le hsize.2] at hreads
  refine ⟨{ sent with
    waits := sent.waits + 1, asked := msg, flight := [], inbox := [], answered := sent.answered ++ [w.served.length] },
    ?_, ⟨rfl, rfl, ?_⟩, hexecute.2.2.2⟩
  · unfold m9Attempts
    have hpeer : (airPort maxMsg handle prompt).peer conv w = w.bound := rfl
    rw [hpeer, hsend]
    dsimp only
    rw [if_neg (by omega), hreads]
  · show ∀ sr ∈ sent.sends, 0 ≤ sr
    rw [hsent]
    exact hsends

theorem m9Rpc_refused {w w' : Air S} (h : w.Idle) {conv : Slot} {msg : List UInt8} {r : Option (List UInt8)}
    (hshape : looksLike9pT maxMsg msg = false)
    (hcall : m9Rpc (airPort maxMsg handle prompt) conv msg maxMsg w = (r, w')) :
    w'.Idle ∧ r = none ∧ w'.served = w.served := by
  have hnot : ¬ looksLike9pT maxMsg msg = true := by
    rw [hshape]
    decide
  unfold m9Rpc at hcall
  obtain ⟨v, heq, hidle, hserved, -⟩ := m9Attempts_unanswered h (fun hyes => absurd hyes hnot) conv
    (w.mesh.euiToAddr w.bound) maxMsg 1
  obtain ⟨u, heq', hidle', hserved', -⟩ := m9Attempts_unanswered hidle (fun hyes => absurd hyes hnot) conv
    (w.mesh.euiToAddr w.bound) maxMsg 0
  rw [executed, if_neg hnot, List.append_nil] at hserved hserved'
  cases (heq.trans heq').symm.trans hcall
  exact ⟨hidle', rfl, hserved'.trans hserved⟩

theorem m9Rpc_sent (hserver : Replies maxMsg handle) (hmax : maxMsg < 65536) {w w' : Air S} (h : w.Idle)
    {conv : Slot} {msg : List UInt8} {r : Option (List UInt8)} (hshape : looksLike9pT maxMsg msg = true)
    (htype : typeOf (handle msg w.server).1 ≠ 119)
    (hcall : m9Rpc (airPort maxMsg handle prompt) conv msg maxMsg w = (r, w')) :
    w'.Idle ∧ r = some (handle msg w.server).1 ∧ w'.server = (handle msg w.server).2 ∧
      w'.served = w.served ++ [⟨msg, (handle msg w.server).1⟩] := by
  unfold m9Rpc at hcall
  obtain ⟨v, heq, hidle, hserved, hstate⟩ := m9Attempts_answered hserver hmax h hshape htype conv
    (w.mesh.euiToAddr w.bound) 1
  cases heq.symm.trans hcall
  exact ⟨hidle, rfl, hstate, hserved⟩

theorem m9Rpc_keptBack (hserver : Replies maxMsg handle) (hmax : maxMsg < 65536) {w w' : Air S} (h : w.Idle)
    {conv : Slot} {msg : List UInt8} {r : Option (List UInt8)} (hshape : looksLike9pT maxMsg msg = true)
    (htype : typeOf (handle msg w.server).1 = 119)
    (hcall : m9Rpc (airPort maxMsg handle prompt) conv msg maxMsg w = (r, w')) :
    w'.Idle ∧ (∃ later, w'.served = w.served ++ ⟨msg, (handle msg w.server).1⟩ :: later) ∧
      ∀ rbuf, r = some rbuf → typeOf rbuf ≠ 119 := by
  unfold m9Rpc at hcall
  obtain ⟨v, heq, hidle, hserved, -⟩ := m9Attempts_unanswered h (fun _ => htype) conv
    (w.mesh.euiToAddr w.bound) maxMsg 1
  rw [executed, if_pos hshape] at hserved
  replace hcall := heq.symm.trans hcall
  by_cases hagain : typeOf (handle msg v.server).1 = 119
  · obtain ⟨u, heq', hidle', hserved', -⟩ := m9Attempts_unanswered hidle (fun _ => hagain) conv
      (w.mesh.euiToAddr w.bound) maxMsg 0
    rw [hserved, List.append_assoc] at hserved'
    cases heq'.symm.trans hcall
    refine ⟨hidle', ⟨_, hserved'⟩, fun rbuf hr => ?_⟩
    cases hr
  · obtain ⟨u, heq', hidle', hserved', -⟩ := m9Attempts_answered hserver hmax hidle hshape hagain conv
      (w.mesh.euiToAddr w.bound) 0
    rw [hserved, List.append_assoc] at hserved'
    cases heq'.symm.trans hcall
    refine ⟨hidle', ⟨_, hserved'⟩, fun rbuf hr => ?_⟩
    cases hr
    exact hagain

theorem m9Rpc_outcome (hserver : Replies maxMsg handle) (hmax : maxMsg < 65536) {w w' : Air S} (h : w.Idle)
    {conv : Slot} {msg : List UInt8} {r : Option (List UInt8)}
    (hcall : m9Rpc (airPort maxMsg handle prompt) conv msg maxMsg w = (r, w')) : Outcome maxMsg handle msg w w' r where
  idle := by
    cases hshape : looksLike9pT maxMsg msg with
    | false => exact (m9Rpc_refused h hshape hcall).1
    | true =>
      by_cases htype : typeOf (handle msg w.server).1 = 119
      · exact (m9Rpc_keptBack hserver hmax h hshape htype hcall).1
      · exact (m9Rpc_sent hserver hmax h hshape htype hcall).1
  refused := fun hshape => (m9Rpc_refused h hshape hcall).2
  sent := fun hshape htype => (m9Rpc_sent hserver hmax h hshape htype hcall).2
  kept := fun hshape htype => (m9Rpc_keptBack hserver hmax h hshape htype hcall).2

theorem Replies.not_rwrite (hserver : Replies maxMsg handle) {msg : List UInt8} (s : S)
    (hshape : looksLike9pT maxMsg msg = true) (hmsg : typeOf msg ≠ 118) : typeOf (handle msg s).1 ≠ 119 := by
  intro hreply
  rcases hserver.type msg s hshape with htype | htype
  · rw [hreply] at htype
    exact hmsg (by grind)
  · rw [hreply] at htype
    exact absurd htype (by decide)

theorem Outcome.wrote (hserver : Replies maxMsg handle) {msg : List UInt8} {w w' : Air S}
    {r : Option (List UInt8)} (h : Outcome maxMsg handle msg w w' r) (hmsg : typeOf msg ≠ 118) :
    w'.Wrote ↔ w.Wrote := by
  unfold Air.Wrote
  cases hshape : looksLike9pT maxMsg msg with
  | false => rw [(h.refused hshape).2]
  | true =>
    rw [(h.sent hshape (hserver.not_rwrite w.server hshape hmsg)).2.2]
    simp [hmsg]

/-! ## The whole push -/

/-- Requests other than a Twrite come through exactly if the server gives each
the reply it wants. -/
theorem m9Steps_serveAll (hserver : Replies maxMsg handle) (hmax : maxMsg < 65536) (conv : Slot)
    {requests : List (List UInt8 × UInt8)} (hrequests : ∀ p ∈ requests, typeOf p.1 ≠ 118) {number : Nat}
    (hnumber : 0 < number) {w w' : Air S} {step : Int} (h : w.Idle)
    (hsteps : m9Steps (airPort maxMsg handle prompt) maxMsg conv requests number w = (step, w')) :
    w'.Idle ∧ (w'.Wrote ↔ w.Wrote) ∧
      match serveAll maxMsg handle requests w.server with
      | some s => step = 0 ∧ w'.server = s
      | none => step < 0 := by
  induction requests generalizing number w with
  | nil =>
    cases hsteps
    exact ⟨h, Iff.rfl, rfl, rfl⟩
  | cons p rest ih =>
    obtain ⟨msg, type⟩ := p
    have hmsg : typeOf msg ≠ 118 := hrequests _ List.mem_cons_self
    unfold m9Steps at hsteps
    cases hcall : m9Rpc (airPort maxMsg handle prompt) conv msg maxMsg w with
    | mk r next =>
      have houtcome := m9Rpc_outcome hserver hmax h hcall
      have hwrote : next.Wrote ↔ w.Wrote := houtcome.wrote hserver hmsg
      rw [hcall] at hsteps
      dsimp only at hsteps
      cases hshape : looksLike9pT maxMsg msg with
      | false =>
        rw [(houtcome.refused hshape).1] at hsteps
        cases hsteps
        refine ⟨houtcome.idle, hwrote, ?_⟩
        rw [serveAll, if_neg (by simp [hshape])]
        show -(number : Int) < 0
        omega
      | true =>
        obtain ⟨hr, hstate, -⟩ := houtcome.sent hshape (hserver.not_rwrite w.server hshape hmsg)
        have hlong := (hserver.size msg w.server hshape).1
        by_cases htype : typeOf (handle msg w.server).1 = type
        · have hreplied : replied type r = true := by
            simp [hr, replied, htype]
            omega
          rw [if_pos hreplied] at hsteps
          have hrest := ih (fun p hp => hrequests p (List.mem_cons_of_mem _ hp)) (Nat.succ_pos number)
            houtcome.idle hsteps
          rw [hwrote, hstate] at hrest
          rw [serveAll, if_pos ⟨hshape, htype⟩]
          exact hrest
        · rw [if_neg (by simp [hr, replied, htype])] at hsteps
          cases hsteps
          refine ⟨houtcome.idle, hwrote, ?_⟩
          rw [serveAll, if_neg (fun hboth => htype hboth.2)]
          show -(number : Int) < 0
          omega

theorem serveAll_append (earlier later : List (List UInt8 × UInt8)) (s : S) :
    serveAll maxMsg handle (earlier ++ later) s =
      (serveAll maxMsg handle earlier s).bind (serveAll maxMsg handle later) := by
  induction earlier generalizing s with
  | nil => rfl
  | cons p rest ih =>
    rw [List.cons_append, serveAll, serveAll]
    split
    · exact ih _
    · rfl

/-- The Twrite is executed if the server takes it, and its call never ends with
an Rwrite. -/
theorem ctlWrite_prompt (hserver : Replies maxMsg handle) (hmax : maxMsg < 65536) {conv : Slot} {tag : Nat}
    {w w' : Air S} {result : Int} (h : w.Idle) (hfresh : ¬ w.Wrote)
    (hwrite : ctlWrite (airPort maxMsg handle prompt) maxMsg conv tag false w = (result, w')) :
    result = -5 ∧
      (w'.Wrote ↔ serveAll maxMsg handle [(tWrite tag 2 0 [0x31], 119)] w.server ≠ none) := by
  unfold ctlWrite at hwrite
  cases hcall : m9Rpc (airPort maxMsg handle prompt) conv (tWrite tag 2 0 [0x31]) maxMsg w with
  | mk r next =>
    cases hclunk : m9Rpc (airPort maxMsg handle prompt) conv (tClunk (tag + 1) 2) maxMsg next with
    | mk r' last =>
      have houtcome := m9Rpc_outcome hserver hmax h hcall
      have hlast : last.Wrote ↔ next.Wrote :=
        (m9Rpc_outcome hserver hmax houtcome.idle hclunk).wrote hserver (by rw [tClunk, typeOf_frame]; decide)
      rw [hcall] at hwrite
      dsimp only at hwrite
      rw [hclunk] at hwrite
      cases hwrite
      have htwrite : typeOf (tWrite tag 2 0 [0x31]) = 118 := typeOf_frame _ _ _
      rw [hlast]
      unfold Air.Wrote at hfresh ⊢
      cases hshape : looksLike9pT maxMsg (tWrite tag 2 0 [0x31]) with
      | false =>
        obtain ⟨hr, hserved⟩ := houtcome.refused hshape
        rw [hserved]
        refine ⟨by rw [hr]; rfl, iff_of_false hfresh ?_⟩
        simp [serveAll, hshape]
      | true =>
        by_cases htype : typeOf (handle (tWrite tag 2 0 [0x31]) w.server).1 = 119
        · obtain ⟨⟨later, hserved⟩, hr⟩ := houtcome.kept hshape htype
          have hno : isRwrite r = false := by
            cases r with
            | none => rfl
            | some rbuf => simp [isRwrite, hr rbuf rfl]
          rw [hserved]
          refine ⟨by rw [hno]; rfl, iff_of_true ?_ ?_⟩
          · exact ⟨_, List.mem_append_right _ List.mem_cons_self, htwrite, htype⟩
          · simp [serveAll, hshape, htype]
        · obtain ⟨hr, -, hserved⟩ := houtcome.sent hshape htype
          rw [hserved]
          refine ⟨by simp [hr, isRwrite, htype], iff_of_false ?_ ?_⟩
          · rintro ⟨e, he, hwrote⟩
            rcases List.mem_append.mp he with he | he
            · exact hfresh ⟨e, he, hwrote⟩
            · rw [List.mem_singleton.mp he] at hwrote
              exact htype hwrote.2
          · simp [serveAll, hshape, htype]

/-- No push of `"confirm"` returns 0, and the server executes its write if it
takes all five requests. -/
theorem pushCtl_confirm (hserver : Replies maxMsg handle) (hmax : maxMsg < 65536) (eui : Addr) {w : Air S}
    (hidle : w.Idle) (hfresh : w.served = []) :
    (pushCtl (airPort maxMsg handle prompt) maxMsg eui confirmName false w).1 ≠ 0 ∧
      ((pushCtl (airPort maxMsg handle prompt) maxMsg eui confirmName false w).2.Wrote ↔
        w.slot ≠ none ∧ serveAll maxMsg handle (confirmRequests maxMsg) w.server ≠ none) := by
  have hnothing : ¬ w.Wrote := by
    rintro ⟨e, he, -⟩
    rw [hfresh] at he
    cases he
  have halloc : (airPort maxMsg handle prompt).convAlloc w = (w.slot, w) := rfl
  unfold pushCtl
  rw [halloc]
  cases hslot : w.slot with
  | none =>
    refine ⟨show (-28 : Int) ≠ 0 by decide, iff_of_false hnothing fun hboth => ?_⟩
    exact hboth.1 rfl
  | some conv =>
    have hconnect : (airPort maxMsg handle prompt).connect conv eui w = { w with bound := eui } := rfl
    have hstart : ({ w with bound := eui } : Air S).Idle := ⟨hidle.flight, hidle.inbox, hidle.sends⟩
    dsimp only
    rw [hconnect]
    unfold m9OpenDevfile
    cases hsteps : m9Steps (airPort maxMsg handle prompt) maxMsg conv (openRequests maxMsg 1 confirmName 1) 1
        { w with bound := eui } with
    | mk step next =>
      have hrequests : ∀ p ∈ openRequests maxMsg 1 confirmName 1, typeOf p.1 ≠ 118 :=
        fun p hp => (openRequests_types hp).2
      obtain ⟨hnext, hwrote, hserve⟩ := m9Steps_serveAll hserver hmax conv hrequests Nat.one_pos hstart hsteps
      have hunwritten : ¬ next.Wrote := fun hyes => hnothing (hwrote.mp hyes)
      rw [confirmRequests, serveAll_append]
      change match serveAll maxMsg handle (openRequests maxMsg 1 confirmName 1) w.server with
        | some s => step = 0 ∧ next.server = s
        | none => step < 0 at hserve
      cases hopen : serveAll maxMsg handle (openRequests maxMsg 1 confirmName 1) w.server with
      | none =>
        rw [hopen] at hserve
        dsimp only
        rw [if_pos hserve]
        refine ⟨show step ≠ 0 by omega, iff_of_false hunwritten fun hboth => ?_⟩
        exact hboth.2 rfl
      | some s =>
        rw [hopen] at hserve
        obtain ⟨rfl, rfl⟩ := hserve
        dsimp only
        rw [if_neg (by decide)]
        cases hwrite : ctlWrite (airPort maxMsg handle prompt) maxMsg conv 4 false next with
        | mk result last =>
          obtain ⟨hresult, hiff⟩ := ctlWrite_prompt hserver hmax hnext hunwritten hwrite
          have hlast : (airPort maxMsg handle prompt).convFree conv last = last := rfl
          rw [if_pos rfl, show 1 + 3 = 4 from rfl, hwrite, hlast, hiff, hresult]
          refine ⟨show (-5 : Int) ≠ 0 by decide, ?_⟩
          simp

/-- Every peer, and every push of `"confirm"` to it in which nothing is lost and
each reply is in time: the result says whether the server executed the write
exactly if it did not, for no push returns 0. -/
theorem push_ctl_reports_iff (hserver : Replies maxMsg handle) (hmax : maxMsg < 65536) (eui : Addr) {w : Air S}
    (hidle : w.Idle) (hfresh : w.served = []) :
    ((pushCtl (airPort maxMsg handle prompt) maxMsg eui confirmName false w).1 = 0 ↔
        (pushCtl (airPort maxMsg handle prompt) maxMsg eui confirmName false w).2.Wrote) ↔
      w.slot = none ∨ serveAll maxMsg handle (confirmRequests maxMsg) w.server = none := by
  obtain ⟨hfails, hwrote⟩ := pushCtl_confirm hserver hmax eui hidle hfresh
  rw [hwrote]
  constructor
  · intro hreports
    by_contra hneither
    exact hfails (hreports.mpr (not_or.mp hneither))
  · intro hrefused
    exact iff_of_false hfails fun hboth => hrefused.elim hboth.1 hboth.2

theorem push_ctl_reports_rerror :
    let pushed := pushCtl (airPort 512 (samplePeer 118) prompt) 512 ⟨[2, 0, 0, 0, 0, 6], rfl⟩ confirmName false
      (.fresh [])
    pushed.1 = 0 ↔ pushed.2.Wrote :=
  (push_ctl_reports_iff (samplePeer_replies 118) (by decide) _ (Air.fresh_idle []) rfl).mpr
    (.inr (by decide +kernel))

/-- The server takes the write, and its Rwrite is kept back. -/
theorem push_ctl_hides_rwrite :
    let pushed := pushCtl (airPort 512 (samplePeer 0) prompt) 512 ⟨[2, 0, 0, 0, 0, 6], rfl⟩ confirmName false
      (.fresh [])
    ¬ (pushed.1 = 0 ↔ pushed.2.Wrote) := by
  decide +kernel

end DectMesh.Aether
