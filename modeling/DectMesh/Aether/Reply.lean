import DectMesh.Aether.NodePort

/-! Which datagrams `m9_rpc` returns. The conversation's queue carries all that
the bound peer sends; a call takes the first datagram with its tag for its
reply. -/
namespace DectMesh.Aether

open DectMesh.Lib

def takenFrom (log : List PortEvent) : List Dgram :=
  log.filterMap fun
    | .took _ d => some d
    | .sent .. => none

theorem takenFrom_append (left right : List PortEvent) :
    takenFrom (left ++ right) = takenFrom left ++ takenFrom right := List.filterMap_append

section

variable {σ : Type} (port : Port σ)

def Takes (want cap : Nat) (reply : Option (List UInt8)) (ds : List Dgram) : Prop :=
  match reply with
  | none => ∀ d ∈ ds, d.matchesTag want = false
  | some rbuf => ∃ earlier d, ds = earlier ++ [d] ∧ (∀ e ∈ earlier, e.matchesTag want = false) ∧
      d.matchesTag want = true ∧ rbuf = d.data.take cap

theorem Takes.cons {want cap : Nat} {reply : Option (List UInt8)} {d : Dgram} {ds : List Dgram}
    (h : Takes want cap reply ds) (hd : d.matchesTag want = false) : Takes want cap reply (d :: ds) := by
  cases reply with
  | none => exact fun e he => (List.mem_cons.mp he).elim (fun heq => heq ▸ hd) (h e)
  | some rbuf =>
    obtain ⟨earlier, last, rfl, hearlier, hlast⟩ := h
    exact ⟨d :: earlier, last, rfl,
      fun e he => (List.mem_cons.mp he).elim (fun heq => heq ▸ hd) (hearlier e), hlast⟩

theorem Takes.append {want cap : Nat} {reply : Option (List UInt8)} {ds later : List Dgram}
    (hnone : Takes want cap none ds) (h : Takes want cap reply later) : Takes want cap reply (ds ++ later) := by
  induction ds with
  | nil => exact h
  | cons d ds ih =>
    exact (ih fun e he => hnone e (List.mem_cons_of_mem _ he)).cons (hnone d List.mem_cons_self)

def ReadEnd.reply? : ReadEnd → Option (List UInt8)
  | .reply rbuf => some rbuf
  | .hangup | .resend => none

theorem m9Reads_logged (conv : Slot) (want cap reads : Nat) (w : σ) (log : List PortEvent) :
    ∃ ds w', m9Reads port.logged conv want cap reads (w, log) =
        ((m9Reads port conv want cap reads w).1, w', log ++ ds.map (.took conv)) ∧
      w' = (m9Reads port conv want cap reads w).2 ∧
      Takes want cap (m9Reads port conv want cap reads w).1.reply? ds := by
  induction reads generalizing w log with
  | zero => exact ⟨[], w, by simp [m9Reads], rfl, fun _ h => nomatch h⟩
  | succ reads ih =>
    unfold m9Reads
    cases hget : port.msgqGet conv 1500 w with
    | mk got next =>
      rw [Port.logged_msgqGet hget]
      cases got with
      | none => exact ⟨[], next, rfl, rfl, fun _ h => nomatch h⟩
      | some d =>
        by_cases hempty : d.data.length = 0
        · refine ⟨[d], next, by simp [hempty], by simp [hempty], ?_⟩
          simp [hempty, ReadEnd.reply?, Takes, Dgram.matchesTag]
        · by_cases hmatch : d.matchesTag want = true
          · refine ⟨[d], next, by simp [hempty, hmatch], by simp [hempty, hmatch], ?_⟩
            simp only [hempty, if_false, hmatch, if_true]
            exact ⟨[], d, rfl, (fun _ h => nomatch h), hmatch, rfl⟩
          · obtain ⟨ds, w', heq, hw', htakes⟩ := ih next (log ++ (some d).toList.map (.took conv))
            simp only [hempty, if_false, hmatch, Bool.false_eq_true]
            refine ⟨d :: ds, w', ?_, hw', htakes.cons (Bool.eq_false_of_not_eq_true hmatch)⟩
            rw [heq, List.append_assoc]
            rfl

def OfCall (conv : Slot) (msg : List UInt8) : PortEvent → Prop
  | .sent _ sent _ => sent = msg
  | .took n _ => n = conv

theorem takenFrom_took (conv : Slot) (ds : List Dgram) : takenFrom (ds.map (.took conv)) = ds := by
  simp [takenFrom, List.filterMap_map]

theorem m9Attempts_logged (conv : Slot) (route : Option Addr) (msg : List UInt8) (cap attempts : Nat)
    (w : σ) (log : List PortEvent) :
    ∃ events, m9Attempts port.logged conv route msg cap attempts (w, log) =
        ((m9Attempts port conv route msg cap attempts w).1,
          (m9Attempts port conv route msg cap attempts w).2, log ++ events) ∧
      (∀ e ∈ events, OfCall conv msg e) ∧
      Takes (tagOf msg) cap (m9Attempts port conv route msg cap attempts w).1 (takenFrom events) := by
  induction attempts generalizing w log with
  | zero => exact ⟨[], by simp [m9Attempts], (fun _ h => nomatch h), fun _ h => nomatch h⟩
  | succ attempts ih =>
    unfold m9Attempts
    cases hsend : port.sendReliable (route.getD (port.peer conv w)) msg w with
    | mk sr next =>
      let sent := PortEvent.sent (route.getD (port.peer conv w)) msg sr
      rw [Port.logged_peer, Port.logged_sendReliable hsend]
      dsimp only
      by_cases hsr : sr < 0
      · simp only [hsr, if_true]
        obtain ⟨events, heq, hown, htakes⟩ := ih next (log ++ [sent])
        refine ⟨sent :: events, by rw [heq, List.append_assoc]; rfl, ?_, htakes⟩
        exact fun e he => (List.mem_cons.mp he).elim (fun h => h ▸ rfl) (hown e)
      · simp only [hsr, if_false]
        obtain ⟨ds, w', heq, hw', htakes⟩ := m9Reads_logged port conv (tagOf msg) cap 2 next (log ++ [sent])
        rw [heq]
        have hread : ∀ e ∈ sent :: ds.map (.took conv), OfCall conv msg e := by
          intro e he
          rcases List.mem_cons.mp he with rfl | he
          · rfl
          · obtain ⟨d, -, rfl⟩ := List.mem_map.mp he
            rfl
        have htook : takenFrom (sent :: ds.map (.took conv)) = ds := takenFrom_took conv ds
        have hassoc : log ++ [sent] ++ ds.map (.took conv) = log ++ (sent :: ds.map (.took conv)) := by
          rw [List.append_assoc, List.singleton_append]
        rw [hassoc]
        cases hend : m9Reads port conv (tagOf msg) cap 2 next with
        | mk ended rest =>
          rw [hend] at hw' htakes
          subst hw'
          cases ended with
          | reply rbuf => exact ⟨_, rfl, hread, by rw [htook]; exact htakes⟩
          | hangup => exact ⟨_, rfl, hread, by rw [htook]; exact htakes⟩
          | resend =>
            obtain ⟨events, heq', hown, hlater⟩ := ih w' (log ++ (sent :: ds.map (.took conv)))
            refine ⟨(sent :: ds.map (.took conv)) ++ events, by rw [← List.append_assoc]; exact heq', ?_, ?_⟩
            · exact fun e he => (List.mem_append.mp he).elim (hread e) (hown e)
            · rw [takenFrom_append, htook]
              exact htakes.append hlater

theorem m9Rpc_logged (conv : Slot) (msg : List UInt8) (cap : Nat) (w : σ) (log : List PortEvent) :
    ∃ events, m9Rpc port.logged conv msg cap (w, log) =
        ((m9Rpc port conv msg cap w).1, (m9Rpc port conv msg cap w).2, log ++ events) ∧
      (∀ e ∈ events, OfCall conv msg e) ∧
      Takes (tagOf msg) cap (m9Rpc port conv msg cap w).1 (takenFrom events) := by
  unfold m9Rpc
  cases hroute : port.euiToAddr (port.peer conv w) w with
  | mk route next =>
    rw [Port.logged_peer, Port.logged_euiToAddr hroute]
    exact m9Attempts_logged port conv route msg cap 2 next log

def m9Taken (conv : Slot) (msg : List UInt8) (cap : Nat) (w : σ) : List Dgram :=
  takenFrom (m9Rpc port.logged conv msg cap (w, [])).2.2

theorem m9Rpc_takes (conv : Slot) (msg : List UInt8) (cap : Nat) (w : σ) :
    Takes (tagOf msg) cap (m9Rpc port conv msg cap w).1 (m9Taken port conv msg cap w) := by
  obtain ⟨events, heq, -, htakes⟩ := m9Rpc_logged port conv msg cap w []
  rw [m9Taken, heq]
  exact htakes

end

/-- The R-message with which the peer's 9P server answered the T of a call.
`answers` is history: the call, if any, that a reception's frame answers. -/
structure IsAnswer (answers : Nat → Option Nat) (call : Nat) (msg : List UInt8) (d : Dgram) : Prop where
  origin : answers d.id = some call
  type : typeOf d.data = typeOf msg + 1 ∨ typeOf d.data = 107

instance (answers : Nat → Option Nat) (call : Nat) (msg : List UInt8) (d : Dgram) :
    Decidable (IsAnswer answers call msg d) :=
  decidable_of_iff (answers d.id = some call ∧ (typeOf d.data = typeOf msg + 1 ∨ typeOf d.data = 107))
    ⟨fun h => ⟨h.1, h.2⟩, fun h => ⟨h.origin, h.type⟩⟩

/-- What the call returns, if anything, is the datagram it took last, and that
is the answer to its own T. -/
def ReturnsOwnReply {σ : Type} (port : Port σ) (answers : Nat → Option Nat) (call : Nat) (conv : Slot)
    (msg : List UInt8) (cap : Nat) (w : σ) : Prop :=
  ∀ rbuf, (m9Rpc port conv msg cap w).1 = some rbuf →
    ∃ d, (m9Taken port conv msg cap w).getLast? = some d ∧ rbuf = d.data.take cap ∧
      IsAnswer answers call msg d

/-- Every call, on every port and so for every schedule of datagrams: it
returns its own reply exactly if the datagrams it takes with its tag are that
reply. -/
theorem m9_rpc_own_reply_iff {σ : Type} (port : Port σ) (answers : Nat → Option Nat) (call : Nat)
    (conv : Slot) (msg : List UInt8) (cap : Nat) (w : σ) :
    ReturnsOwnReply port answers call conv msg cap w ↔
      ∀ d ∈ m9Taken port conv msg cap w, d.matchesTag (tagOf msg) = true → IsAnswer answers call msg d := by
  have htakes := m9Rpc_takes port conv msg cap w
  unfold ReturnsOwnReply
  cases hreply : (m9Rpc port conv msg cap w).1 with
  | none =>
    rw [hreply] at htakes
    refine iff_of_true (fun _ h => nomatch h) fun d hd htag => ?_
    rw [htakes d hd] at htag
    cases htag
  | some rbuf =>
    rw [hreply] at htakes
    obtain ⟨earlier, last, htaken, hearlier, htag, rfl⟩ := htakes
    have hlast : (earlier ++ [last]).getLast? = some last := by simp
    rw [htaken, hlast]
    constructor
    · intro hown d hd hmatch
      obtain ⟨e, he, -, hanswer⟩ := hown _ rfl
      cases he
      rcases List.mem_append.mp hd with hd | hd
      · rw [hearlier d hd] at hmatch
        cases hmatch
      · rw [List.mem_singleton.mp hd]
        exact hanswer
    · rintro hall _ ⟨⟩
      exact ⟨last, rfl, rfl, hall last (by simp) htag⟩

/-- The peer sends its own Tattach with tag 1 while it attaches to this node's
server; the call that sent Tattach with tag 1 returns it. -/
theorem m9_rpc_returns_peer_request :
    let peer : Addr := ⟨[2, 0, 0, 0, 0, 1], rfl⟩
    let w := (nodePort 512).connect 0 peer ((nodePort 512).convAlloc (World.hearing peer [some (tAttach 1)])).2
    ¬ ReturnsOwnReply (nodePort 512) (fun _ => none) 0 0 (tAttach 1) 512 w := by
  intro peer w hown
  have hreply : (m9Rpc (nodePort 512) 0 (tAttach 1) 512 w).1 = some (tAttach 1) := by decide +kernel
  obtain ⟨d, -, -, hanswer⟩ := hown _ hreply
  cases hanswer.origin

end DectMesh.Aether
