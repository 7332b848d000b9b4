import DectMesh.Relay.UartFraming

/-! Runs of the receive path in which nothing is lost: where the bytes read so
far are, message by message. -/
namespace DectMesh.Relay.UartFraming

open DectMesh.Lib

/-- What is under way in each phase of the hand-up: `pending` has been received
but not delivered, `rest` is still to come and `k` bytes of its head are here. -/
def Phase (s : MeshRx) (pending rest : List (List UInt8)) (k : Nat) : Prop :=
  match s.handler with
  | .idle =>
      (pending = [] ∧ Holds s (rest.headD []) k) ∨ ∃ msg, pending = [msg] ∧ k = 0 ∧ Framed s msg
  | .entered len =>
      ∃ msg, pending = [msg] ∧ k = 0 ∧ s.queued = false ∧ len = msg.length ∧ s.bytes msg.length = msg
  | .copied msg => pending = [msg] ∧ k = 0 ∧ s.queued = false
  | .lenCleared msg => pending = [msg] ∧ k = 0 ∧ s.queued = false ∧ s.rxLen = 0
  | .hdrCleared msg | .expectedCleared msg =>
      pending = [msg] ∧ k = 0 ∧ s.queued = false ∧ s.rxLen = 0 ∧ s.haveHdr = false
  | .released msg =>
      (pending = [msg] ∧ Holds s (rest.headD []) k) ∨
        ∃ next, pending = [msg, next] ∧ k = 0 ∧ Framed s next

structure Clean (msgs : List (List UInt8)) (s : MeshRx) (pending rest : List (List UInt8)) (k : Nat) :
    Prop where
  split : msgs = s.delivered ++ pending ++ rest
  position : s.received = (s.delivered ++ pending).flatten.length + k
  partway : k < (rest.headD []).length ∨ rest = [] ∧ k = 0
  phase : Phase s pending rest k

def ReadsNext (msgs : List (List UInt8)) (s : MeshRx) : RxEvent → Prop
  | .fifo batch => batch <+: msgs.flatten.drop s.received
  | _ => True

@[simp] theorem meshUartIsr_received (cap : Nat) (s : MeshRx) (batch : List UInt8) :
    (meshUartIsr cap s batch).received = s.received + batch.length := by
  unfold meshUartIsr
  dsimp only
  split
  · rfl
  · exact (isrBatch_same cap _ batch).received

theorem work_received {s s' : MeshRx} (h : meshRxWorkHandler s = some s') : s'.received = s.received := by
  unfold meshRxWorkHandler at h
  split at h
  · split at h
    · cases h
      rfl
    · cases h
  all_goals
    cases h
    rfl

theorem along_readsNext {cap : Nat} {msgs : List (List UInt8)} {s : MeshRx} {events : List RxEvent}
    (h : fifoBytes events <+: msgs.flatten.drop s.received) :
    Along (step cap) (ReadsNext msgs) s events := by
  induction events generalizing s with
  | nil => trivial
  | cons event rest ih =>
    cases event with
    | fifo batch =>
      refine ⟨(List.prefix_append batch (fifoBytes rest)).trans h, fun s' hs' => ih ?_⟩
      cases Option.some.inj hs'
      obtain ⟨later, hlater⟩ := h
      refine ⟨later, ?_⟩
      rw [meshUartIsr_received, ← List.drop_drop, ← hlater, fifoBytes, List.append_assoc, List.drop_left]
    | work => exact ⟨trivial, fun s' hs' => ih (by rw [work_received hs']; exact h)⟩
    | reset =>
      refine ⟨trivial, fun s' hs' => ih ?_⟩
      cases Option.some.inj hs'
      exact h

theorem clean_init (msgs : List (List UInt8)) (hne : ∀ msg ∈ msgs, msg ≠ []) :
    Clean msgs .init [] msgs 0 where
  split := rfl
  position := rfl
  partway := by
    cases msgs with
    | nil => exact .inr ⟨rfl, rfl⟩
    | cons msg rest => exact .inl (List.length_pos_iff.mpr (hne msg List.mem_cons_self))
  phase := .inl ⟨rfl, holds_zero rfl rfl rfl rfl _⟩

theorem Clean.offset {msgs pending rest : List (List UInt8)} {s : MeshRx} {k : Nat}
    (h : Clean msgs s pending rest k) : offsetIn msgs s.received = k := by
  rw [h.split, h.position]
  exact offsetIn_flatten_add _ _ _ (h.partway.imp id And.left)

theorem Clean.due {msgs pending rest : List (List UInt8)} {s : MeshRx} {k : Nat}
    (h : Clean msgs s pending rest k) : msgs.flatten.drop s.received = rest.flatten.drop k := by
  have hflat : (s.delivered ++ pending ++ rest).flatten =
      (s.delivered ++ pending).flatten ++ rest.flatten := List.flatten_append
  rw [h.split, h.position, hflat, ← List.drop_drop, List.drop_left]

theorem clean_work {msgs pending rest : List (List UInt8)} {s s' : MeshRx} {k : Nat}
    (h : Clean msgs s pending rest k) (hwork : meshRxWorkHandler s = some s') :
    ∃ pending', Clean msgs s' pending' rest k := by
  obtain ⟨hsplit, hposition, hpartway, hphase⟩ := h
  unfold Phase at hphase
  unfold meshRxWorkHandler at hwork
  cases hhandler : s.handler with
  | idle =>
    simp only [hhandler] at hphase hwork
    split at hwork
    · rename_i hqueued
      cases hwork
      rcases hphase with ⟨-, hholds⟩ | ⟨msg, hpending, hk, hframed⟩
      · rw [hholds.notQueued] at hqueued
        contradiction
      · exact ⟨pending, hsplit, hposition, hpartway, msg, hpending, hk, rfl, hframed.len, hframed.bytes⟩
    · cases hwork
  | entered len =>
    simp only [hhandler] at hphase hwork
    cases hwork
    obtain ⟨msg, hpending, hk, hqueued, rfl, hbytes⟩ := hphase
    refine ⟨pending, hsplit, hposition, hpartway, ?_⟩
    simp only [Phase, hbytes]
    exact ⟨hpending, hk, hqueued⟩
  | copied msg =>
    simp only [hhandler] at hphase hwork
    cases hwork
    exact ⟨pending, hsplit, hposition, hpartway, hphase.1, hphase.2.1, hphase.2.2, rfl⟩
  | lenCleared msg =>
    simp only [hhandler] at hphase hwork
    cases hwork
    obtain ⟨hpending, hk, hqueued, hlen⟩ := hphase
    exact ⟨pending, hsplit, hposition, hpartway, hpending, hk, hqueued, hlen, rfl⟩
  | hdrCleared msg =>
    simp only [hhandler] at hphase hwork
    cases hwork
    exact ⟨pending, hsplit, hposition, hpartway, hphase⟩
  | expectedCleared msg =>
    simp only [hhandler] at hphase hwork
    cases hwork
    obtain ⟨hpending, rfl, hqueued, hlen, hhdr⟩ := hphase
    refine ⟨pending, hsplit, hposition, hpartway, .inl ⟨hpending, ?_⟩⟩
    apply holds_zero <;> first | rfl | assumption
  | released msg =>
    simp only [hhandler] at hphase hwork
    cases hwork
    rcases hphase with ⟨rfl, hholds⟩ | ⟨next, rfl, hk, hframed⟩
    · refine ⟨[], by simpa using hsplit, by simpa using hposition, hpartway, .inl ⟨rfl, ?_⟩⟩
      exact ⟨hholds.idle, hholds.notQueued, hholds.len, hholds.bytes, hholds.hdr, hholds.expected⟩
    · refine ⟨[next], by simpa using hsplit, by simpa using hposition, hpartway, .inr ⟨next, rfl, hk, ?_⟩⟩
      exact ⟨hframed.queued, hframed.len, hframed.bytes⟩

/-- A reset between messages finds nothing of the next message to lose. -/
theorem clean_reset {msgs pending rest : List (List UInt8)} {s : MeshRx} {k : Nat}
    (h : Clean msgs s pending rest k) (hbetween : ResetBetween msgs s .reset) :
    Clean msgs (meshRxReset s) pending rest k := by
  have hk : k = 0 := h.offset.symm.trans hbetween
  obtain ⟨hsplit, hposition, hpartway, hphase⟩ := h
  subst hk
  refine ⟨hsplit, hposition, hpartway, ?_⟩
  unfold Phase at hphase ⊢
  cases hhandler : s.handler with
  | idle =>
    simp only [hhandler, meshRxReset] at hphase ⊢
    exact hphase.imp (fun h => ⟨h.1, holds_zero rfl h.2.notQueued rfl rfl _⟩)
      (fun ⟨msg, hp, hk, hf⟩ => ⟨msg, hp, hk, hf.queued, hf.len, hf.bytes⟩)
  | entered len =>
    simp only [hhandler, meshRxReset] at hphase ⊢
    exact hphase
  | copied msg =>
    simp only [hhandler, meshRxReset] at hphase ⊢
    exact hphase
  | lenCleared msg =>
    simp only [hhandler, meshRxReset] at hphase ⊢
    exact ⟨hphase.1, trivial, hphase.2.2.1, trivial⟩
  | hdrCleared msg | expectedCleared msg =>
    simp only [hhandler, meshRxReset] at hphase ⊢
    exact ⟨hphase.1, trivial, hphase.2.2.1, trivial, trivial⟩
  | released msg =>
    simp only [hhandler, meshRxReset] at hphase ⊢
    exact hphase.imp (fun h => ⟨h.1, holds_zero rfl h.2.notQueued rfl rfl _⟩)
      (fun ⟨next, hp, hk, hf⟩ => ⟨next, hp, hk, hf.queued, hf.len, hf.bytes⟩)

theorem Clean.holds {msgs pending rest : List (List UInt8)} {s : MeshRx} {k : Nat}
    (h : Clean msgs s pending rest k) (hidle : s.handingUp = false) :
    Holds s (rest.headD []) k ∧
      ((s.handler = .idle ∧ pending = []) ∨ ∃ msg, s.handler = .released msg ∧ pending = [msg]) := by
  have hphase := h.phase
  unfold Phase at hphase
  unfold MeshRx.handingUp at hidle
  cases hhandler : s.handler with
  | idle =>
    simp only [hhandler, WorkHandler.inside, Bool.or_false] at hphase hidle
    rcases hphase with ⟨hpending, hholds⟩ | ⟨msg, -, -, hframed⟩
    · exact ⟨hholds, .inl ⟨rfl, hpending⟩⟩
    · rw [hframed.queued] at hidle
      contradiction
  | released msg =>
    simp only [hhandler, WorkHandler.inside, Bool.or_false] at hphase hidle
    rcases hphase with ⟨hpending, hholds⟩ | ⟨next, -, -, hframed⟩
    · exact ⟨hholds, .inr ⟨msg, rfl, hpending⟩⟩
    · rw [hframed.queued] at hidle
      contradiction
  | _ => simp [hhandler, WorkHandler.inside] at hidle

theorem clean_batch {cap k : Nat} {msgs pending rest : List (List UInt8)} {s : MeshRx}
    {msg batch : List UInt8} (hwf : ∀ m ∈ msgs, WellFormed cap m)
    (h : Clean msgs s pending (msg :: rest) k) (hidle : s.handingUp = false)
    (hnext : ReadsNext msgs s (.fifo batch)) (hfits : batch.length ≤ msg.length - k) :
    ∃ pending' rest' k', Clean msgs (meshUartIsr cap s batch) pending' rest' k' := by
  obtain ⟨hholds, hwhere⟩ := h.holds hidle
  simp only [List.headD_cons] at hholds
  have hmsg : WellFormed cap msg := hwf msg (by rw [h.split]; simp)
  have hk : k < msg.length := by simpa using h.partway
  obtain ⟨later, hlater⟩ : batch <+: msg.drop k := by
    unfold ReadsNext at hnext
    rw [h.due, List.flatten_cons, List.drop_append_of_le_length hk.le] at hnext
    exact List.prefix_of_prefix_length_le hnext (List.prefix_append _ _) (by simpa using hfits)
  let t := { s with received := s.received + batch.length }
  have ht : Holds t msg k :=
    ⟨hholds.idle, hholds.notQueued, hholds.len, hholds.bytes, hholds.hdr, hholds.expected⟩
  have hisr : meshUartIsr cap s batch = isrBatch cap t batch := by
    simp [meshUartIsr, hholds.idle, t]
  have hsame := isrBatch_same cap t batch
  rw [hisr]
  by_cases hend : later = []
  · -- the batch ends the message
    subst hend
    rw [List.append_nil] at hlater
    have hbatch : batch ≠ [] := by
      rintro rfl
      have := congrArg List.length hlater
      simp at this
      omega
    have hlen : batch.length = msg.length - k := by rw [hlater, List.length_drop]
    have hframed := (isrBatch_complete batch [] hmsg ht hlater.symm hbatch).1
    rw [List.append_nil] at hframed
    refine ⟨pending ++ [msg], rest, 0, ?_, ?_, ?_, ?_⟩
    · rw [hsame.delivered, h.split]
      simp [t]
    · rw [hsame.received, hsame.delivered]
      have := h.position
      simp only [List.flatten_append, List.length_append, List.flatten_singleton, t] at this ⊢
      omega
    · cases rest with
      | nil => exact .inr ⟨rfl, rfl⟩
      | cons next rest =>
        have := (hwf next (by rw [h.split]; simp)).1
        exact .inl (by simp; omega)
    · unfold Phase
      rcases hwhere with ⟨hhandler, rfl⟩ | ⟨old, hhandler, rfl⟩
      · simp only [hsame.handler.trans hhandler]
        exact .inr ⟨msg, rfl, trivial, hframed⟩
      · simp only [hsame.handler.trans hhandler]
        exact .inr ⟨msg, rfl, trivial, hframed⟩
  · -- the message goes on behind the batch
    have hkept := isrBatch_prefix hmsg ht hlater.symm hend
    have hlt : k + batch.length < msg.length := by
      have hlen := congrArg List.length hlater
      have := List.length_pos_iff.mpr hend
      simp at hlen
      omega
    refine ⟨pending, msg :: rest, k + batch.length, ?_, ?_, .inl hlt, ?_⟩
    · rw [hsame.delivered]
      exact h.split
    · rw [hsame.received, hsame.delivered]
      have := h.position
      simp only [t] at this ⊢
      omega
    · unfold Phase
      rcases hwhere with ⟨hhandler, rfl⟩ | ⟨old, hhandler, rfl⟩
      · simp only [hsame.handler.trans hhandler]
        exact .inl ⟨trivial, hkept⟩
      · simp only [hsame.handler.trans hhandler]
        exact .inl ⟨trivial, hkept⟩

theorem meshUartIsr_nil (cap : Nat) (s : MeshRx) : meshUartIsr cap s [] = s := by
  unfold meshUartIsr
  dsimp only
  split <;> rfl

theorem Clean.fits {msgs pending rest : List (List UInt8)} {s : MeshRx} {k : Nat} {batch : List UInt8}
    (h : Clean msgs s pending rest k) (hbatch : batch ≠ [])
    (hle : batch.length ≤ toBoundary msgs s.received) :
    ∃ msg later, rest = msg :: later ∧ batch.length ≤ msg.length - k := by
  have hpos := List.length_pos_iff.mpr hbatch
  rw [h.split, h.position] at hle
  cases rest with
  | nil =>
    rw [List.append_nil, toBoundary_flatten] at hle
    omega
  | cons msg later =>
    have hk : k < msg.length := by simpa using h.partway
    rw [toBoundary_flatten_add _ _ _ _ hk] at hle
    exact ⟨msg, later, rfl, hle⟩

def Careful (msgs : List (List UInt8)) (s : MeshRx) (event : RxEvent) : Prop :=
  ReadsNext msgs s event ∧ ResetBetween msgs s event ∧ ReadFits msgs s event

theorem clean_step {cap : Nat} {msgs : List (List UInt8)} (hwf : ∀ m ∈ msgs, WellFormed cap m)
    (s : MeshRx) (event : RxEvent) (s' : MeshRx) (h : ∃ pending rest k, Clean msgs s pending rest k)
    (hcareful : Careful msgs s event) (hstep : step cap s event = some s') :
    ∃ pending rest k, Clean msgs s' pending rest k := by
  obtain ⟨pending, rest, k, hclean⟩ := h
  obtain ⟨hnext, hbetween, hfits⟩ := hcareful
  cases event with
  | fifo batch =>
    cases Option.some.inj hstep
    by_cases hbatch : batch = []
    · subst hbatch
      rw [meshUartIsr_nil]
      exact ⟨pending, rest, k, hclean⟩
    · obtain ⟨hidle, hle⟩ := hfits hbatch
      obtain ⟨msg, later, rfl, hroom⟩ := hclean.fits hbatch hle
      exact clean_batch hwf hclean hidle hnext hroom
  | work =>
    obtain ⟨pending', hclean'⟩ := clean_work hclean hstep
    exact ⟨pending', rest, k, hclean'⟩
  | reset =>
    cases Option.some.inj hstep
    exact ⟨pending, rest, k, clean_reset hclean hbetween⟩

theorem run_received {cap : Nat} {s final : MeshRx} {events : List RxEvent}
    (hrun : run (step cap) s events = some final) :
    final.received = s.received + (fifoBytes events).length := by
  induction events generalizing s with
  | nil =>
    cases Option.some.inj hrun
    rfl
  | cons event rest ih =>
    obtain ⟨next, hnext, hrest⟩ := run_cons_eq_some.mp hrun
    rw [ih hrest]
    cases event with
    | fifo batch =>
      cases Option.some.inj hnext
      simp [fifoBytes, Nat.add_assoc]
    | work => simp [fifoBytes, work_received hnext]
    | reset =>
      cases Option.some.inj hnext
      rfl

theorem Clean.delivered_all {msgs pending rest : List (List UInt8)} {s : MeshRx} {k : Nat}
    (h : Clean msgs s pending rest k) (hrest : s.quiescent)
    (hall : s.received = msgs.flatten.length) : s.delivered = msgs := by
  obtain ⟨hhandler, hqueued⟩ := hrest
  have hidle : s.handingUp = false := by
    simp [MeshRx.handingUp, WorkHandler.inside, hhandler, hqueued]
  have hdue := h.due
  rw [hall, List.drop_length] at hdue
  have hnone : rest = [] := by
    cases rest with
    | nil => rfl
    | cons msg later =>
      have hk : k < msg.length := by simpa using h.partway
      have := congrArg List.length hdue
      simp at this
      omega
  rcases (h.holds hidle).2 with ⟨-, hpending⟩ | ⟨msg, hreleased, -⟩
  · have := h.split
    rw [hpending, hnone, List.append_nil, List.append_nil] at this
    exact this.symm
  · rw [hhandler] at hreleased
    cases hreleased

end DectMesh.Relay.UartFraming
