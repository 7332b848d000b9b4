import DectMesh.Aether.Reply
import DectMesh.Mesh9p.Ring

/-! The client's port with the peer's 9P server behind it. A request is executed
as it is sent, and its reply is under way until one of the coming waits; no
datagram is lost, and a plan says which replies arrive in which wait. -/
namespace DectMesh.Aether

open DectMesh.Lib DectMesh.Mesh9p

abbrev Handler (S : Type) := List UInt8 → S → List UInt8 × S

/-- What 9P says of every reply: the tag of its request, its type or Rerror,
and a message's size. -/
structure Replies {S : Type} (maxMsg : Nat) (handle : Handler S) : Prop where
  tag : ∀ msg s, looksLike9pT maxMsg msg = true → tagOf (handle msg s).1 = tagOf msg
  type : ∀ msg s, looksLike9pT maxMsg msg = true →
    typeOf (handle msg s).1 = typeOf msg + 1 ∨ typeOf (handle msg s).1 = 107
  size : ∀ msg s, looksLike9pT maxMsg msg = true → 7 ≤ (handle msg s).1.length ∧ (handle msg s).1.length ≤ maxMsg

structure Exchange where
  msg : List UInt8
  reply : List UInt8
  deriving DecidableEq

/-- The call's conversation, the peer's server, and what is between them. `sends`
are the results of the coming sends, 0 for those behind the last. `served`,
`asked` and `answered` are history: the requests executed, the one sent last,
and the numbers of those whose reply came to a call that wants its tag. -/
structure Air (S : Type) where
  slot : Option Slot
  mesh : Bindings
  bound : Addr
  server : S
  sends : List Int
  flight : List Frame
  inbox : List Dgram
  waits : Nat
  served : List Exchange
  asked : List UInt8
  answered : List Nat

variable {S : Type}

/-- The peer gets a request: `looks_like_9p_t`, the server, and `mesh9p_send`,
which keeps an Rwrite back. -/
def Air.execute (maxMsg : Nat) (handle : Handler S) (dst : Addr) (msg : List UInt8) (w : Air S) : Air S :=
  if looksLike9pT maxMsg msg then
    { w with
      server := (handle msg w.server).2
      flight :=
        if mesh9pSend .init (handle msg w.server).1 = none then w.flight
        else w.flight ++ [⟨dst, (handle msg w.server).1, false, w.served.length⟩]
      served := w.served ++ [⟨msg, (handle msg w.server).1⟩]
      asked := msg }
  else { w with asked := msg }

def Air.land (maxMsg : Nat) (w : Air S) (i : Nat) : Air S :=
  match w.flight[i]? with
  | some f => { w with flight := w.flight.eraseIdx i, inbox := w.inbox ++ [f.dgram maxMsg w.mesh] }
  | none => w

def Air.wait (maxMsg : Nat) (plan : Nat → List Nat) (w : Air S) : Air S :=
  (plan w.waits).foldl (Air.land maxMsg) { w with waits := w.waits + 1 }

def Air.take (w : Air S) : Option Dgram × Air S :=
  match w.inbox with
  | [] => (none, w)
  | d :: rest =>
      (some d, { w with
        inbox := rest
        answered := if d.matchesTag (tagOf w.asked) then w.answered ++ [d.id] else w.answered })

def airPort (maxMsg : Nat) (handle : Handler S) (plan : Nat → List Nat) : Port (Air S) where
  convAlloc := fun w => (w.slot, w)
  connect := fun _ eui w => { w with bound := eui }
  convFree := fun _ w => w
  peer := fun _ w => w.bound
  euiToAddr := fun eui w => (w.mesh.euiToAddr eui, w)
  sendReliable := fun dst msg w => (w.sends.headD 0, { w.execute maxMsg handle dst msg with sends := w.sends.tail })
  msgqGet := fun _ _ w => (w.wait maxMsg plan).take

def prompt : Nat → List Nat := fun _ => [0]

structure Air.Quiet (w : Air S) : Prop where
  flight : w.flight = []
  inbox : w.inbox = []
  served : w.served = []
  answered : w.answered = []

def Air.fresh {S : Type} (server : S) : Air S where
  slot := some .first
  mesh := ⟨fun _ => none, fun _ => none⟩
  bound := .zero
  server := server
  sends := []
  flight := []
  inbox := []
  waits := 0
  served := []
  asked := []
  answered := []

/-- A peer whose `dev/mflt` hands out the batches it holds, and which answers
requests of one type with an Rerror. -/
def samplePeer (refused : UInt8) : Handler (List (List UInt8)) := fun msg batches =>
  if typeOf msg = refused then (frame 107 (tagOf msg) (str [0x45]), batches)
  else if typeOf msg = 100 then (frame 101 (tagOf msg) (leBytes 4 512 ++ str protoVersion), batches)
  else if typeOf msg = 104 then (frame 105 (tagOf msg) (leBytes 13 0x80), batches)
  else if typeOf msg = 110 then (frame 111 (tagOf msg) (leBytes 2 2 ++ leBytes 13 0x80 ++ leBytes 13 0), batches)
  else if typeOf msg = 112 then (frame 113 (tagOf msg) (leBytes 13 0 ++ leBytes 4 0), batches)
  else if typeOf msg = 116 then
    let batch := (batches.headD []).take 496
    (frame 117 (tagOf msg) (leBytes 4 batch.length ++ batch), batches.tail)
  else if typeOf msg = 118 then (frame 119 (tagOf msg) (leBytes 4 1), batches)
  else (frame (typeOf msg + 1) (tagOf msg) [], batches)

theorem samplePeer_replies (refused : UInt8) : Replies 512 (samplePeer refused) where
  tag := by
    intro msg s _
    unfold samplePeer
    repeat' split
    all_goals simp only [tagOf_frame, Nat.mod_eq_of_lt (tagOf_lt msg)]
  type := by
    intro msg s _
    unfold samplePeer
    repeat' split
    all_goals grind [typeOf_frame]
  size := by
    intro msg s _
    unfold samplePeer
    repeat' split
    all_goals simp [str, protoVersion]
    omega

theorem mesh9pSend_eq_none {s : RingState} {msg : List UInt8} : mesh9pSend s msg = none ↔ typeOf msg = 119 := by
  unfold mesh9pSend
  split <;> simp_all

/-! ## What is on the way -/

variable {maxMsg : Nat} {handle : Handler S} {plan : Nat → List Nat}

def Exchange.Genuine (maxMsg : Nat) (handle : Handler S) (e : Exchange) : Prop :=
  looksLike9pT maxMsg e.msg = true ∧ ∃ s, e.reply = (handle e.msg s).1

theorem Exchange.Genuine.tag {e : Exchange} (h : e.Genuine maxMsg handle) (hserver : Replies maxMsg handle) :
    tagOf e.reply = tagOf e.msg := by
  obtain ⟨hshape, s, hreply⟩ := h
  rw [hreply]
  exact hserver.tag e.msg s hshape

theorem Exchange.Genuine.size {e : Exchange} (h : e.Genuine maxMsg handle) (hserver : Replies maxMsg handle) :
    7 ≤ e.reply.length ∧ e.reply.length ≤ maxMsg := by
  obtain ⟨hshape, s, hreply⟩ := h
  rw [hreply]
  exact hserver.size e.msg s hshape

/-- What is under way and what has arrived are replies of executed requests. -/
structure Heard (maxMsg : Nat) (handle : Handler S) (w : Air S) : Prop where
  flight : ∀ f ∈ w.flight, ∃ e, w.served[f.id]? = some e ∧ f.payload = e.reply
  inbox : ∀ d ∈ w.inbox, ∃ e, w.served[d.id]? = some e ∧ d.data = e.reply
  served : ∀ e ∈ w.served, e.Genuine maxMsg handle

theorem served_append {served later : List Exchange} {i : Nat} {e : Exchange} (h : served[i]? = some e) :
    (served ++ later)[i]? = some e := by
  rw [List.getElem?_append_left (List.getElem?_eq_some_iff.mp h).1]
  exact h

theorem Air.Quiet.heard {w : Air S} (h : w.Quiet) : Heard maxMsg handle w where
  flight := by
    rw [h.flight]
    nofun
  inbox := by
    rw [h.inbox]
    nofun
  served := by
    rw [h.served]
    nofun

theorem Frame.dgram_data (hmax : maxMsg < 65536) (mesh : Bindings) {f : Frame} (h : f.payload.length ≤ maxMsg) :
    (f.dgram maxMsg mesh).data = f.payload := by
  have hlength : min f.payload.length maxMsg % 65536 = f.payload.length := by omega
  simp only [Frame.dgram, hlength, List.take_length]

theorem heard_execute {w : Air S} (h : Heard maxMsg handle w) (dst : Addr)
    (msg : List UInt8) : Heard maxMsg handle (w.execute maxMsg handle dst msg) := by
  unfold Air.execute
  split
  · rename_i hshape
    refine ⟨fun f hf => ?_, fun d hd => ?_, fun e he => ?_⟩
    · have hold : ∀ f ∈ w.flight, ∃ e, (w.served ++ [⟨msg, (handle msg w.server).1⟩])[f.id]? = some e ∧
          f.payload = e.reply := by
        intro f hf
        obtain ⟨e, hserved, hpayload⟩ := h.flight f hf
        exact ⟨e, served_append hserved, hpayload⟩
      dsimp only at hf
      split at hf
      · exact hold f hf
      · rcases List.mem_append.mp hf with hf | hf
        · exact hold f hf
        · rw [List.mem_singleton.mp hf]
          exact ⟨_, List.getElem?_concat_length, rfl⟩
    · obtain ⟨e, hserved, hdata⟩ := h.inbox d hd
      exact ⟨e, served_append hserved, hdata⟩
    · rcases List.mem_append.mp he with he | he
      · exact h.served e he
      · rw [List.mem_singleton.mp he]
        exact ⟨hshape, w.server, rfl⟩
  · exact ⟨h.flight, h.inbox, h.served⟩

theorem heard_land (hserver : Replies maxMsg handle) (hmax : maxMsg < 65536) {w : Air S}
    (h : Heard maxMsg handle w) (i : Nat) :
    Heard maxMsg handle (w.land maxMsg i) := by
  unfold Air.land
  split
  · rename_i f hf
    refine ⟨fun g hg => h.flight g ((List.eraseIdx_sublist _ _).subset hg), fun d hd => ?_, h.served⟩
    rcases List.mem_append.mp hd with hd | hd
    · exact h.inbox d hd
    · obtain ⟨e, hserved, hpayload⟩ := h.flight f (List.mem_of_getElem? hf)
      rw [List.mem_singleton.mp hd]
      refine ⟨e, hserved, ?_⟩
      rw [Frame.dgram_data hmax, hpayload]
      rw [hpayload]
      exact ((h.served e (List.mem_of_getElem? hserved)).size hserver).2
  · exact h

structure Waited (w w' : Air S) : Prop where
  served : w'.served = w.served
  asked : w'.asked = w.asked
  answered : w'.answered = w.answered

theorem land_waited (w : Air S) (i : Nat) : Waited w (w.land maxMsg i) := by
  unfold Air.land
  split <;> exact ⟨rfl, rfl, rfl⟩

theorem wait_heard (hserver : Replies maxMsg handle) (hmax : maxMsg < 65536) {w : Air S} (h : Heard maxMsg handle w) :
    Heard maxMsg handle (w.wait maxMsg plan) ∧ Waited w (w.wait maxMsg plan) := by
  have hfold : ∀ (picks : List Nat) (v : Air S), Heard maxMsg handle v →
      Heard maxMsg handle (picks.foldl (Air.land maxMsg) v) ∧ Waited v (picks.foldl (Air.land maxMsg) v) := by
    intro picks
    induction picks with
    | nil => exact fun v hv => ⟨hv, rfl, rfl, rfl⟩
    | cons i rest ih =>
      intro v hv
      have hland : Waited v (v.land maxMsg i) := land_waited v i
      obtain ⟨hheard, hrest⟩ := ih (v.land maxMsg i) (heard_land hserver hmax hv i)
      exact ⟨hheard, hrest.served.trans hland.served, hrest.asked.trans hland.asked,
        hrest.answered.trans hland.answered⟩
  obtain ⟨hheard, hwaited⟩ := hfold (plan w.waits) { w with waits := w.waits + 1 } ⟨h.flight, h.inbox, h.served⟩
  exact ⟨hheard, hwaited.served, hwaited.asked, hwaited.answered⟩

/-! ## A call -/

def ReturnsReply (w w' : Air S) (want cap : Nat) : Option (List UInt8) → Prop
  | none => w'.answered = w.answered
  | some rbuf => ∃ i e, w'.answered = w.answered ++ [i] ∧ w'.served[i]? = some e ∧ tagOf e.msg = want ∧
      rbuf = e.reply.take cap

theorem take_air {w w' : Air S} {got : Option Dgram} (h : Heard maxMsg handle w) (htake : w.take = (got, w')) :
    Heard maxMsg handle w' ∧ w'.served = w.served ∧ w'.asked = w.asked ∧
      match got with
      | none => w'.answered = w.answered
      | some d => (∃ e, w.served[d.id]? = some e ∧ d.data = e.reply) ∧
          w'.answered = if d.matchesTag (tagOf w.asked) then w.answered ++ [d.id] else w.answered := by
  unfold Air.take at htake
  cases hinbox : w.inbox with
  | nil =>
    rw [hinbox] at htake
    cases htake
    exact ⟨h, rfl, rfl, rfl⟩
  | cons d rest =>
    rw [hinbox] at htake
    cases htake
    have hinboxed := h.inbox
    rw [hinbox] at hinboxed
    exact ⟨⟨h.flight, fun e he => hinboxed e (List.mem_cons_of_mem d he), h.served⟩, rfl, rfl,
      hinboxed d List.mem_cons_self, rfl⟩

theorem m9Reads_air (hserver : Replies maxMsg handle) (hmax : maxMsg < 65536) {conv : Slot}
    {want cap reads : Nat} {w w' : Air S} {ended : ReadEnd} (h : Heard maxMsg handle w) (hasked : tagOf w.asked = want)
    (hreads : m9Reads (airPort maxMsg handle plan) conv want cap reads w = (ended, w')) :
    Heard maxMsg handle w' ∧ w'.served = w.served ∧ ReturnsReply w w' want cap ended.reply? := by
  induction reads generalizing w with
  | zero =>
    cases hreads
    exact ⟨h, rfl, rfl⟩
  | succ reads ih =>
    obtain ⟨hwait, hwaited⟩ : Heard maxMsg handle (w.wait maxMsg plan) ∧ Waited w (w.wait maxMsg plan) :=
      wait_heard hserver hmax h
    unfold m9Reads at hreads
    cases hget : (airPort maxMsg handle plan).msgqGet conv 1500 w with
    | mk got next =>
      obtain ⟨hnext, hserved, hstill, hgot⟩ := take_air hwait hget
      rw [hget] at hreads
      rw [hwaited.served] at hserved
      rw [hwaited.asked, hwaited.served, hwaited.answered, hasked] at hgot
      cases got with
      | none =>
        cases hreads
        exact ⟨hnext, hserved, hgot⟩
      | some d =>
        obtain ⟨⟨e, hexchange, hdata⟩, hanswered⟩ := hgot
        have hgenuine := h.served e (List.mem_of_getElem? hexchange)
        have htag := hgenuine.tag hserver
        have hlong := (hgenuine.size hserver).1
        dsimp only at hreads
        rw [if_neg (by rw [hdata]; omega)] at hreads
        by_cases hmatch : d.matchesTag want = true
        · rw [if_pos hmatch] at hreads hanswered
          cases hreads
          simp only [Dgram.matchesTag, Bool.and_eq_true, decide_eq_true_eq] at hmatch
          refine ⟨hnext, hserved, d.id, e, hanswered, hserved ▸ hexchange, ?_, congrArg _ hdata⟩
          rw [← htag, ← hdata]
          exact hmatch.2
        · rw [if_neg hmatch] at hreads hanswered
          have hrest := ih hnext (by rw [hstill, hwaited.asked, hasked]) hreads
          rw [hserved] at hrest
          refine ⟨hrest.1, hrest.2.1, ?_⟩
          have hanswer := hrest.2.2
          unfold ReturnsReply at hanswer ⊢
          rw [hanswered] at hanswer
          exact hanswer

def executed (maxMsg : Nat) (handle : Handler S) (msg : List UInt8) (w : Air S) : List Exchange :=
  if looksLike9pT maxMsg msg then [⟨msg, (handle msg w.server).1⟩] else []

theorem execute_served (w : Air S) (dst : Addr) (msg : List UInt8) :
    (w.execute maxMsg handle dst msg).served = w.served ++ executed maxMsg handle msg w ∧
      (w.execute maxMsg handle dst msg).asked = msg ∧
      (w.execute maxMsg handle dst msg).answered = w.answered := by
  unfold Air.execute executed
  split
  · exact ⟨rfl, rfl, rfl⟩
  · exact ⟨(List.append_nil _).symm, rfl, rfl⟩

structure Called (msg : List UInt8) (cap : Nat) (w w' : Air S) (r : Option (List UInt8)) : Prop where
  served : ∃ copies, w'.served = w.served ++ copies ∧ ∀ e ∈ copies, e.msg = msg
  answered : ReturnsReply w w' (tagOf msg) cap r

theorem m9Attempts_air (hserver : Replies maxMsg handle) (hmax : maxMsg < 65536) {conv : Slot} {route : Option Addr}
    {msg : List UInt8} {cap attempts : Nat} {w w' : Air S} {r : Option (List UInt8)} (h : Heard maxMsg handle w)
    (hcall : m9Attempts (airPort maxMsg handle plan) conv route msg cap attempts w = (r, w')) :
    Heard maxMsg handle w' ∧ Called msg cap w w' r := by
  induction attempts generalizing w with
  | zero =>
    cases hcall
    exact ⟨h, ⟨[], (List.append_nil _).symm, nofun⟩, rfl⟩
  | succ attempts ih =>
    unfold m9Attempts at hcall
    cases hsend : (airPort maxMsg handle plan).sendReliable
        (route.getD ((airPort maxMsg handle plan).peer conv w)) msg w with
    | mk sr sent =>
      have hsent : Heard maxMsg handle sent ∧ sent.served = w.served ++ executed maxMsg handle msg w ∧
          sent.asked = msg ∧ sent.answered = w.answered := by
        cases hsend
        have hexecuted := heard_execute h (route.getD w.bound) msg
        exact ⟨⟨hexecuted.flight, hexecuted.inbox, hexecuted.served⟩, execute_served w (route.getD w.bound) msg⟩
      obtain ⟨hheard, hserved, hasked, hanswered⟩ := hsent
      have hcopies : ∀ e ∈ executed maxMsg handle msg w, e.msg = msg := by
        intro e he
        unfold executed at he
        split at he
        · rw [List.mem_singleton.mp he]
        · cases he
      -- a later attempt adds its copies behind this one's
      have hlater : ∀ {v v' : Air S} {r' : Option (List UInt8)}, v.served = sent.served → v.answered = sent.answered →
          Called msg cap v v' r' → Called msg cap w v' r' := by
        intro v v' r' hsame hquiet hcalled
        obtain ⟨⟨copies, heq, hmsgs⟩, hreply⟩ := hcalled
        refine ⟨⟨executed maxMsg handle msg w ++ copies, ?_, ?_⟩, ?_⟩
        · rw [heq, hsame, hserved, List.append_assoc]
        · intro e he
          exact (List.mem_append.mp he).elim (hcopies e) (hmsgs e)
        · unfold ReturnsReply at hreply ⊢
          rw [hquiet, hanswered] at hreply
          exact hreply
      rw [hsend] at hcall
      dsimp only at hcall
      split at hcall
      · obtain ⟨hheard', hcalled⟩ := ih hheard hcall
        exact ⟨hheard', hlater rfl rfl hcalled⟩
      · cases hreads : m9Reads (airPort maxMsg handle plan) conv (tagOf msg) cap 2 sent with
        | mk ended next =>
          obtain ⟨hnext, hstill, hend⟩ := m9Reads_air hserver hmax hheard (by rw [hasked]) hreads
          rw [hreads] at hcall
          have hdone : Called msg cap sent next ended.reply? :=
            ⟨⟨[], by rw [hstill, List.append_nil], nofun⟩, hend⟩
          cases ended with
          | reply rbuf =>
            cases hcall
            exact ⟨hnext, hlater rfl rfl hdone⟩
          | hangup =>
            cases hcall
            exact ⟨hnext, hlater rfl rfl hdone⟩
          | resend =>
            obtain ⟨hheard', hcalled⟩ := ih hnext hcall
            exact ⟨hheard', hlater hstill hend hcalled⟩

/-- Every call, whatever is delayed: the peer has executed copies of its request
only, and it returns the reply of a request with its tag. -/
theorem m9Rpc_air (hserver : Replies maxMsg handle) (hmax : maxMsg < 65536) {conv : Slot} {msg : List UInt8}
    {cap : Nat} {w w' : Air S} {r : Option (List UInt8)} (h : Heard maxMsg handle w)
    (hcall : m9Rpc (airPort maxMsg handle plan) conv msg cap w = (r, w')) :
    Heard maxMsg handle w' ∧ Called msg cap w w' r :=
  m9Attempts_air hserver hmax h hcall

def Air.Past (w : Air S) : Prop := ∀ i ∈ w.answered, i < w.served.length

theorem Called.past {msg : List UInt8} {cap : Nat} {w w' : Air S} {r : Option (List UInt8)}
    (h : Called msg cap w w' r) (hpast : w.Past) : w'.Past := by
  obtain ⟨⟨copies, hserved, -⟩, hanswered⟩ := h
  have hold : ∀ i ∈ w.answered, i < w'.served.length := by
    intro i hi
    rw [hserved, List.length_append]
    exact (hpast i hi).trans_le (Nat.le_add_right _ _)
  cases r with
  | none =>
    intro i hi
    rw [show w'.answered = w.answered from hanswered] at hi
    exact hold i hi
  | some rbuf =>
    obtain ⟨j, e, hanswer, hj, -⟩ := hanswered
    intro i hi
    rw [hanswer] at hi
    rcases List.mem_append.mp hi with hi | hi
    · exact hold i hi
    · rw [List.mem_singleton.mp hi]
      exact (List.getElem?_eq_some_iff.mp hj).1

theorem m9Steps_air (hserver : Replies maxMsg handle) (hmax : maxMsg < 65536) {conv : Slot}
    {requests : List (List UInt8 × UInt8)} {number : Nat} {w w' : Air S} {step : Int} (h : Heard maxMsg handle w)
    (hpast : w.Past) (hsteps : m9Steps (airPort maxMsg handle plan) maxMsg conv requests number w = (step, w')) :
    Heard maxMsg handle w' ∧ w'.Past ∧
      ∃ copies, w'.served = w.served ++ copies ∧ ∀ e ∈ copies, ∃ request ∈ requests, e.msg = request.1 := by
  induction requests generalizing number w with
  | nil =>
    cases hsteps
    exact ⟨h, hpast, [], (List.append_nil _).symm, nofun⟩
  | cons request rest ih =>
    obtain ⟨msg, type⟩ := request
    unfold m9Steps at hsteps
    cases hcall : m9Rpc (airPort maxMsg handle plan) conv msg maxMsg w with
    | mk r next =>
      obtain ⟨hheard, hcalled⟩ := m9Rpc_air hserver hmax h hcall
      have hnext : next.Past := hcalled.past hpast
      obtain ⟨copies, hserved, hcopies⟩ := hcalled.served
      have hown : ∀ e ∈ copies, ∃ request ∈ (msg, type) :: rest, e.msg = request.1 :=
        fun e he => ⟨_, List.mem_cons_self, hcopies e he⟩
      rw [hcall] at hsteps
      dsimp only at hsteps
      split at hsteps
      · obtain ⟨hlast, hend, later, hlater, hmsgs⟩ := ih hheard hnext hsteps
        refine ⟨hlast, hend, copies ++ later, by rw [hlater, hserved, List.append_assoc], fun e he => ?_⟩
        rcases List.mem_append.mp he with he | he
        · exact hown e he
        · obtain ⟨request, hmem, heq⟩ := hmsgs e he
          exact ⟨request, List.mem_cons_of_mem _ hmem, heq⟩
      · cases hsteps
        exact ⟨hheard, hnext, copies, hserved, hown⟩

end DectMesh.Aether
