import DectMesh.Aether.Drain

/-! Two ports whose calls agree, step by step, on related states: a session over
the one is a session over the other. -/
namespace DectMesh.Aether

open DectMesh.Lib

section

variable {σ τ : Type} (rel : σ → τ → Prop)

def Agree {α : Type} (p : α × σ) (q : α × τ) : Prop := p.1 = q.1 ∧ rel p.2 q.2

structure Port.Simulates (port : Port σ) (other : Port τ) : Prop where
  peer : ∀ conv w v, rel w v → port.peer conv w = other.peer conv v
  euiToAddr : ∀ eui w v, rel w v → Agree rel (port.euiToAddr eui w) (other.euiToAddr eui v)
  sendReliable : ∀ dst msg w v, rel w v → Agree rel (port.sendReliable dst msg w) (other.sendReliable dst msg v)
  msgqGet : ∀ conv wait w v, rel w v → Agree rel (port.msgqGet conv wait w) (other.msgqGet conv wait v)

variable {rel} {port : Port σ} {other : Port τ}

theorem m9Reads_agree (k : port.Simulates rel other) (conv : Slot) (want cap reads : Nat) {w : σ} {v : τ}
    (h : rel w v) : Agree rel (m9Reads port conv want cap reads w) (m9Reads other conv want cap reads v) := by
  induction reads generalizing w v with
  | zero => exact ⟨rfl, h⟩
  | succ reads ih =>
    obtain ⟨hgot, hnext⟩ := k.msgqGet conv 1500 w v h
    unfold m9Reads
    cases hget : port.msgqGet conv 1500 w with
    | mk got w' =>
      cases hother : other.msgqGet conv 1500 v with
      | mk got' v' =>
        rw [hget, hother] at hgot hnext
        dsimp only at hgot hnext
        subst hgot
        cases got with
        | none => exact ⟨rfl, hnext⟩
        | some d =>
          dsimp only
          split
          · exact ⟨rfl, hnext⟩
          · split
            · exact ⟨rfl, hnext⟩
            · exact ih hnext

theorem m9Attempts_agree (k : port.Simulates rel other) (conv : Slot) (route : Option Addr) (msg : List UInt8)
    (cap attempts : Nat) {w : σ} {v : τ} (h : rel w v) :
    Agree rel (m9Attempts port conv route msg cap attempts w) (m9Attempts other conv route msg cap attempts v) := by
  induction attempts generalizing w v with
  | zero => exact ⟨rfl, h⟩
  | succ attempts ih =>
    have hsends := k.sendReliable (route.getD (other.peer conv v)) msg w v h
    unfold m9Attempts
    rw [k.peer conv w v h]
    cases hsend : port.sendReliable (route.getD (other.peer conv v)) msg w with
    | mk sr w' =>
      cases hother : other.sendReliable (route.getD (other.peer conv v)) msg v with
      | mk sr' v' =>
        rw [hsend, hother] at hsends
        obtain ⟨hsr, hnext⟩ := hsends
        dsimp only at hsr hnext ⊢
        subst hsr
        split
        · exact ih hnext
        · obtain ⟨hended, hread⟩ := m9Reads_agree k conv (tagOf msg) cap 2 hnext
          cases hreads : m9Reads port conv (tagOf msg) cap 2 w' with
          | mk ended w'' =>
            cases hreads' : m9Reads other conv (tagOf msg) cap 2 v' with
            | mk ended' v'' =>
              rw [hreads, hreads'] at hended hread
              dsimp only at hended hread
              subst hended
              cases ended with
              | reply rbuf => exact ⟨rfl, hread⟩
              | hangup => exact ⟨rfl, hread⟩
              | resend => exact ih hread

theorem m9Rpc_agree (k : port.Simulates rel other) (conv : Slot) (msg : List UInt8) (cap : Nat) {w : σ} {v : τ}
    (h : rel w v) : Agree rel (m9Rpc port conv msg cap w) (m9Rpc other conv msg cap v) := by
  obtain ⟨hroute, hnext⟩ := k.euiToAddr (other.peer conv v) w v h
  unfold m9Rpc
  rw [k.peer conv w v h]
  dsimp only
  rw [hroute]
  exact m9Attempts_agree k conv _ msg cap 2 hnext

variable (maxMsg : Nat)

theorem m9Steps_agree (k : port.Simulates rel other) (conv : Slot) (requests : List (List UInt8 × UInt8))
    (number : Nat) {w : σ} {v : τ} (h : rel w v) :
    Agree rel (m9Steps port maxMsg conv requests number w) (m9Steps other maxMsg conv requests number v) := by
  induction requests generalizing number w v with
  | nil => exact ⟨rfl, h⟩
  | cons request rest ih =>
    obtain ⟨hreply, hnext⟩ := m9Rpc_agree k conv request.1 maxMsg h
    unfold m9Steps
    dsimp only
    rw [hreply]
    split
    · exact ih (number + 1) hnext
    · exact ⟨rfl, hnext⟩

theorem m9OpenDevfile_agree (k : port.Simulates rel other) (conv : Slot) (tag : Nat) (file : List UInt8)
    (mode : UInt8) {w : σ} {v : τ} (h : rel w v) :
    (m9OpenDevfile port maxMsg conv tag file mode w).1 = (m9OpenDevfile other maxMsg conv tag file mode v).1 ∧
      Agree rel (m9OpenDevfile port maxMsg conv tag file mode w).2
        (m9OpenDevfile other maxMsg conv tag file mode v).2 := by
  obtain ⟨hstep, hnext⟩ := m9Steps_agree maxMsg k conv (openRequests maxMsg tag file mode) 1 h
  unfold m9OpenDevfile
  dsimp only
  rw [hstep]
  exact ⟨rfl, rfl, hnext⟩

theorem drainLoop_agree (k : port.Simulates rel other) (conv : Slot) (cap rounds tag : Nat) (d : Drained) {w : σ}
    {v : τ} (h : rel w v) :
    Agree rel (drainLoop port maxMsg conv cap rounds tag d w) (drainLoop other maxMsg conv cap rounds tag d v) := by
  induction rounds generalizing tag d w v with
  | zero => exact ⟨rfl, h⟩
  | succ rounds ih =>
    obtain ⟨hreply, hnext⟩ := m9Rpc_agree k conv (tRead tag (cUInt (maxMsg - 16))) maxMsg h
    unfold drainLoop
    split
    · cases hcall : m9Rpc port conv (tRead tag (cUInt (maxMsg - 16))) maxMsg w with
      | mk r w' =>
        cases hother : m9Rpc other conv (tRead tag (cUInt (maxMsg - 16))) maxMsg v with
        | mk r' v' =>
          rw [hcall, hother] at hreply hnext
          dsimp only at hreply hnext
          subst hreply
          cases r with
          | none => exact ⟨rfl, hnext⟩
          | some rbuf =>
            dsimp only
            split
            · split
              · exact ⟨rfl, hnext⟩
              · exact ih _ _ hnext
            · exact ⟨rfl, hnext⟩
    · exact ⟨rfl, h⟩

theorem drainSession_agree (k : port.Simulates rel other) (conv : Slot) (cap : Nat) {w : σ} {v : τ} (h : rel w v) :
    Agree rel (drainSession port maxMsg conv cap w) (drainSession other maxMsg conv cap v) := by
  obtain ⟨hstep, htag, hnext⟩ := m9OpenDevfile_agree maxMsg k conv 1 mfltName 0 h
  unfold drainSession
  dsimp only
  rw [hstep]
  split
  · rw [htag]
    exact drainLoop_agree maxMsg k conv cap 16 _ .start hnext
  · exact ⟨rfl, hnext⟩

end

end DectMesh.Aether
