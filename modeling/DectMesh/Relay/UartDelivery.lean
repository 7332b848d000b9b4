import DectMesh.Relay.UartClean

/-! What a read out of turn costs: the bytes that may still be delivered are
counted, and a byte dropped is never made up for. -/
namespace DectMesh.Relay.UartFraming

open DectMesh.Lib

def WorkHandler.weight : WorkHandler → Nat
  | .idle => 0
  | .entered len => len
  | .copied msg | .lenCleared msg | .hdrCleared msg | .expectedCleared msg | .released msg => msg.length

/-- The bytes received that may still be delivered, or have been. -/
def MeshRx.weight (s : MeshRx) : Nat :=
  s.delivered.flatten.length + s.handler.weight + (if s.queued then s.procLen else 0) +
    if s.processing then 0 else s.rxLen

/-- Without a reset during a hand-up, `mesh_rx_processing` is set exactly
during it, and the handler finds the accumulator as it cleared it. -/
structure Guarded (s : MeshRx) : Prop where
  busy : s.processing = s.handingUp
  single : s.handler.inside = true → s.queued = false
  cleared : ∀ msg, s.handler = .lenCleared msg ∨ s.handler = .hdrCleared msg ∨
    s.handler = .expectedCleared msg → s.rxLen = 0

def MeshRx.Live (s : MeshRx) : Prop := s.processing = false ∧ s.queued = false

theorem MeshRx.Live.weight {s : MeshRx} (h : s.Live) :
    s.weight = s.delivered.flatten.length + s.handler.weight + s.rxLen := by
  simp [MeshRx.weight, h.1, h.2]

/-- The effect of one byte on the weight, `n` bytes allowed: either the batch
goes on with a live accumulator, or a message is due. -/
def Charged (s : MeshRx) (n : Nat) (out : MeshRx × Bool) : Prop :=
  out.1.weight ≤ s.weight + n ∧
    ((out.2 = false ∧ out.1.Live) ∨ (out.2 = true ∧ out.1.processing = true ∧ out.1.queued = true))

theorem frameDone_charged {s : MeshRx} (h : s.Live) : Charged s 0 (frameDone s) := by
  unfold frameDone
  split
  · rename_i hfull
    refine ⟨?_, .inr ⟨rfl, rfl, rfl⟩⟩
    have := hfull.2
    rw [h.weight]
    simp [MeshRx.weight]
    omega
  · exact ⟨Nat.le_refl _, .inl ⟨rfl, h⟩⟩

theorem readHeader_charged {s : MeshRx} (cap : Nat) (h : s.Live) : Charged s 0 (readHeader cap s) := by
  unfold readHeader
  split
  · refine ⟨?_, .inl ⟨rfl, h⟩⟩
    simp [MeshRx.weight, h.1, h.2]
  · have hset : MeshRx.Live { s with rxExpected := leNat (s.bytes 4), haveHdr := true } := h
    have hcharged := frameDone_charged hset
    refine ⟨?_, hcharged.2⟩
    have := hcharged.1
    rw [hset.weight] at this
    rw [h.weight]
    exact this

theorem isrByte_charged {s : MeshRx} (cap : Nat) (byte : UInt8) (h : s.Live) :
    Charged s 1 (isrByte cap s byte) := by
  have hstored : (store (wrapFull cap s) byte).Live ∧
      (store (wrapFull cap s) byte).weight ≤ s.weight + 1 := by
    have hlive : (store (wrapFull cap s) byte).Live := by
      unfold wrapFull
      split <;> exact h
    refine ⟨hlive, ?_⟩
    rw [hlive.weight, h.weight]
    unfold wrapFull
    split
    · simp [store]
    · simp [store]
      omega
  have hcharged : Charged (store (wrapFull cap s) byte) 0 (isrByte cap s byte) := by
    unfold isrByte accept
    split
    · exact readHeader_charged cap hstored.1
    · exact frameDone_charged hstored.1
  exact ⟨hcharged.1.trans (Nat.add_le_add_right hstored.2 0), hcharged.2⟩

theorem isrBatch_charged {s : MeshRx} (cap : Nat) (batch : List UInt8) (h : s.Live) :
    (isrBatch cap s batch).weight ≤ s.weight + batch.length ∧
      (isrBatch cap s batch).processing = (isrBatch cap s batch).queued := by
  induction batch generalizing s with
  | nil => exact ⟨Nat.le_refl _, h.1.trans h.2.symm⟩
  | cons byte rest ih =>
    obtain ⟨hweight, hcase⟩ := isrByte_charged cap byte h
    rw [isrBatch_cons]
    rcases hcase with ⟨hgo, hlive⟩ | ⟨hstop, hproc, hqueued⟩
    · obtain ⟨hrest, heq⟩ := ih hlive
      simp only [hgo, Bool.false_eq_true, if_false, List.length_cons]
      exact ⟨by omega, heq⟩
    · simp only [hstop, if_true, List.length_cons]
      exact ⟨by omega, hproc.trans hqueued.symm⟩

theorem Guarded.live {s : MeshRx} (h : Guarded s) (hidle : s.handingUp = false) : s.Live := by
  refine ⟨h.busy.trans hidle, ?_⟩
  unfold MeshRx.handingUp at hidle
  cases hq : s.queued
  · rfl
  · simp [hq] at hidle

theorem handingUp_of_handler {s t : MeshRx} (hsame : t.handler = s.handler)
    (hidle : s.handingUp = false) : t.handingUp = t.queued := by
  unfold MeshRx.handingUp at hidle ⊢
  rw [Bool.or_eq_false_iff] at hidle
  rw [hsame, hidle.2, Bool.or_false]

theorem guarded_fifo {cap : Nat} {s : MeshRx} (batch : List UInt8) (h : Guarded s) :
    Guarded (meshUartIsr cap s batch) ∧ (meshUartIsr cap s batch).weight ≤ s.weight + batch.length := by
  let t := { s with received := s.received + batch.length }
  cases hproc : s.processing with
  | true =>
    have hdrop : meshUartIsr cap s batch = t := by simp [meshUartIsr, hproc, t]
    rw [hdrop]
    exact ⟨⟨h.busy, h.single, h.cleared⟩, Nat.le_add_right _ _⟩
  | false =>
    have hidle : s.handingUp = false := h.busy.symm.trans hproc
    have hlive : t.Live := h.live hidle
    have hisr : meshUartIsr cap s batch = isrBatch cap t batch := by simp [meshUartIsr, hproc, t]
    have hsame := isrBatch_same cap t batch
    obtain ⟨hweight, heq⟩ := isrBatch_charged cap batch hlive
    rw [hisr]
    have hinside : s.handler.inside = false := by
      unfold MeshRx.handingUp at hidle
      exact (Bool.or_eq_false_iff.mp hidle).2
    refine ⟨⟨?_, ?_, ?_⟩, hweight⟩
    · rw [handingUp_of_handler hsame.handler (show t.handingUp = false from hidle)]
      exact heq
    · rw [hsame.handler]
      exact fun hin => absurd (hin.symm.trans hinside) (by decide)
    · intro msg hmsg
      rw [hsame.handler] at hmsg
      change s.handler = _ ∨ s.handler = _ ∨ s.handler = _ at hmsg
      rcases hmsg with hmsg | hmsg | hmsg <;> simp [WorkHandler.inside, hmsg] at hinside

theorem guarded_work {s s' : MeshRx} (h : Guarded s) (hwork : meshRxWorkHandler s = some s') :
    Guarded s' ∧ s'.weight ≤ s.weight := by
  obtain ⟨hbusy, hsingle, hcleared⟩ := h
  unfold meshRxWorkHandler at hwork
  unfold MeshRx.handingUp at hbusy
  cases hhandler : s.handler with
  | idle =>
    simp only [hhandler, WorkHandler.inside, Bool.or_false] at hwork hbusy
    split at hwork
    · rename_i hqueued
      cases hwork
      rw [hqueued] at hbusy
      refine ⟨⟨hbusy, fun _ => rfl, by simp⟩, ?_⟩
      simp [MeshRx.weight, WorkHandler.weight, hhandler, hqueued, hbusy]
    · cases hwork
  | entered len | copied msg =>
    simp only [hhandler, WorkHandler.inside, Bool.or_true] at hwork hbusy hsingle
    cases hwork
    refine ⟨⟨by simp [MeshRx.handingUp, WorkHandler.inside, hbusy], fun _ => hsingle trivial, by simp⟩, ?_⟩
    simp [MeshRx.weight, WorkHandler.weight, hhandler, hbusy]
  | lenCleared msg | hdrCleared msg =>
    have hlen := hcleared msg (by simp [hhandler])
    simp only [hhandler, WorkHandler.inside, Bool.or_true] at hwork hbusy hsingle
    cases hwork
    refine ⟨⟨by simp [MeshRx.handingUp, WorkHandler.inside, hbusy], fun _ => hsingle trivial,
      by simp [hlen]⟩, ?_⟩
    simp [MeshRx.weight, WorkHandler.weight, hhandler]
  | expectedCleared msg =>
    have hlen := hcleared msg (by simp [hhandler])
    simp only [hhandler, WorkHandler.inside, Bool.or_true] at hwork hbusy hsingle
    cases hwork
    refine ⟨⟨by simp [MeshRx.handingUp, WorkHandler.inside, hsingle], fun _ => hsingle trivial,
      by simp⟩, ?_⟩
    simp [MeshRx.weight, WorkHandler.weight, hhandler, hbusy, hlen]
  | released msg =>
    simp only [hhandler, WorkHandler.inside, Bool.or_false] at hwork hbusy
    cases hwork
    refine ⟨⟨by simp [MeshRx.handingUp, WorkHandler.inside, hbusy], by simp [WorkHandler.inside],
      by simp⟩, ?_⟩
    simp [MeshRx.weight, WorkHandler.weight, hhandler]

theorem guarded_step {cap : Nat} {s s' : MeshRx} {event : RxEvent} (h : Guarded s)
    (hreset : ResetAfterHandUp s event) (hstep : step cap s event = some s') :
    Guarded s' ∧ s'.weight ≤ s.weight + (fifoBytes [event]).length := by
  cases event with
  | fifo batch =>
    cases Option.some.inj hstep
    simpa [fifoBytes] using guarded_fifo batch h
  | work => exact guarded_work h hstep
  | reset =>
    cases Option.some.inj hstep
    have hidle : s.handingUp = false := hreset
    have hlive := h.live hidle
    refine ⟨⟨?_, h.single, fun _ _ => rfl⟩, ?_⟩
    · have hrest : (meshRxReset s).handingUp = s.queued := handingUp_of_handler rfl hidle
      exact (hrest.trans hlive.2).symm
    · rw [hlive.weight]
      simp [MeshRx.weight, meshRxReset, hlive.2, fifoBytes]

theorem guarded_init : Guarded .init where
  busy := rfl
  single := fun _ => rfl
  cleared := fun _ _ => rfl

theorem fifoBytes_cons (event : RxEvent) (rest : List RxEvent) :
    fifoBytes (event :: rest) = fifoBytes [event] ++ fifoBytes rest := by
  cases event <;> simp [fifoBytes]

theorem guarded_run {cap : Nat} {s final : MeshRx} {events : List RxEvent} (h : Guarded s)
    (hreset : Along (step cap) ResetAfterHandUp s events) (hrun : run (step cap) s events = some final) :
    final.weight ≤ s.weight + (fifoBytes events).length := by
  induction events generalizing s with
  | nil =>
    cases Option.some.inj hrun
    exact Nat.le_add_right _ _
  | cons event rest ih =>
    obtain ⟨next, hnext, hrest⟩ := run_cons_eq_some.mp hrun
    obtain ⟨hguarded, hweight⟩ := guarded_step h hreset.1 hnext
    have hlater := ih hguarded (hreset.2 next hnext) hrest
    rw [fifoBytes_cons, List.length_append]
    omega

theorem overlong_loses {cap k : Nat} {msgs pending rest : List (List UInt8)} {s : MeshRx}
    {msg batch : List UInt8} (hwf : ∀ m ∈ msgs, WellFormed cap m)
    (h : Clean msgs s pending (msg :: rest) k) (hidle : s.handingUp = false)
    (hnext : ReadsNext msgs s (.fifo batch)) (hlong : msg.length - k < batch.length) :
    (meshUartIsr cap s batch).weight < s.weight + batch.length := by
  obtain ⟨hholds, hwhere⟩ := h.holds hidle
  simp only [List.headD_cons] at hholds
  have hmsg : WellFormed cap msg := hwf msg (by rw [h.split]; simp)
  have hk : k < msg.length := by simpa using h.partway
  obtain ⟨extra, hextra⟩ : msg.drop k <+: batch := by
    unfold ReadsNext at hnext
    rw [h.due, List.flatten_cons, List.drop_append_of_le_length hk.le] at hnext
    exact List.prefix_of_prefix_length_le (List.prefix_append _ _) hnext (by simp; omega)
  let t := { s with received := s.received + batch.length }
  have ht : Holds t msg k :=
    ⟨hholds.idle, hholds.notQueued, hholds.len, hholds.bytes, hholds.hdr, hholds.expected⟩
  have hisr : meshUartIsr cap s batch = isrBatch cap t batch := by
    simp [meshUartIsr, hholds.idle, t]
  have hsame := isrBatch_same cap t batch
  have hne : msg.drop k ≠ [] := by simp; omega
  have hfull := isrBatch_complete (msg.drop k) extra hmsg ht rfl hne
  rw [hextra] at hfull
  have hlive : s.Live := ⟨hholds.idle, hholds.notQueued⟩
  rw [hisr, hlive.weight, hholds.len]
  simp only [MeshRx.weight, hsame.delivered, hsame.handler, hfull.2, hfull.1.queued, hfull.1.len, if_true, t]
  omega

theorem unfit_loses {cap : Nat} {msgs : List (List UInt8)} (hwf : ∀ m ∈ msgs, WellFormed cap m)
    {s s' : MeshRx} {event : RxEvent} (h : ∃ pending rest k, Clean msgs s pending rest k)
    (hguarded : Guarded s) (hnext : ReadsNext msgs s event) (hunfit : ¬ ReadFits msgs s event)
    (hstep : step cap s event = some s') : s'.weight < s.weight + (fifoBytes [event]).length := by
  cases event with
  | work => exact absurd trivial hunfit
  | reset => exact absurd trivial hunfit
  | fifo batch =>
    obtain ⟨pending, rest, k, hclean⟩ := h
    cases Option.some.inj hstep
    simp only [ReadFits, Classical.not_imp, not_and] at hunfit
    obtain ⟨hne, hunfit⟩ := hunfit
    have hpos := List.length_pos_iff.mpr hne
    simp only [fifoBytes, List.append_nil]
    cases hbusy : s.handingUp with
    | true =>
      -- the bytes are read and dropped
      have hproc := hguarded.busy.trans hbusy
      have hdrop : meshUartIsr cap s batch = { s with received := s.received + batch.length } := by
        simp [meshUartIsr, hproc]
      rw [hdrop]
      exact Nat.lt_add_of_pos_right hpos
    | false =>
      have hlong := hunfit hbusy
      cases rest with
      | nil =>
        unfold ReadsNext at hnext
        rw [hclean.due] at hnext
        exact absurd (List.prefix_nil.mp (by simpa using hnext)) hne
      | cons msg later =>
        have hk : k < msg.length := by simpa using hclean.partway
        rw [hclean.split, hclean.position, toBoundary_flatten_add _ _ _ _ hk, Nat.not_le] at hlong
        exact overlong_loses hwf hclean hbusy hnext hlong

theorem fits_of_delivered {cap : Nat} {msgs : List (List UInt8)} (hwf : ∀ m ∈ msgs, WellFormed cap m)
    {s final : MeshRx} {events : List RxEvent} (h : ∃ pending rest k, Clean msgs s pending rest k)
    (hguarded : Guarded s) (hweight : s.weight ≤ s.received)
    (hstream : fifoBytes events = msgs.flatten.drop s.received)
    (hbetween : Along (step cap) (ResetBetween msgs) s events)
    (hreset : Along (step cap) ResetAfterHandUp s events) (hrun : run (step cap) s events = some final)
    (hall : final.received = msgs.flatten.length) (hdelivered : final.delivered = msgs) :
    Along (step cap) (ReadFits msgs) s events := by
  induction events generalizing s with
  | nil => trivial
  | cons event rest ih =>
    obtain ⟨next, hnext, hrest⟩ := run_cons_eq_some.mp hrun
    have hreads : Along (step cap) (ReadsNext msgs) s (event :: rest) := along_readsNext ⟨[], by simp [hstream]⟩
    obtain ⟨hguarded', hweight'⟩ := guarded_step hguarded hreset.1 hnext
    have hreceived : next.received = s.received + (fifoBytes [event]).length :=
      run_received (run_cons_eq_some.mpr ⟨next, hnext, run_nil next⟩)
    by_cases hfits : ReadFits msgs s event
    · refine ⟨hfits, fun other hother => ?_⟩
      cases hnext.symm.trans hother
      have hclean := clean_step hwf s event next h ⟨hreads.1, hbetween.1, hfits⟩ hnext
      refine ih hclean hguarded' (by omega) ?_ (hbetween.2 next hnext) (hreset.2 next hnext) hrest
      rw [fifoBytes_cons] at hstream
      rw [hreceived, ← List.drop_drop, ← hstream, List.drop_left]
    · exfalso
      have hloss := unfit_loses hwf h hguarded hreads.1 hfits hnext
      have hlater := guarded_run hguarded' (hreset.2 next hnext) hrest
      have htotal := run_received hrest
      have hfinal : msgs.flatten.length ≤ final.weight := by
        rw [← hdelivered]
        simp only [MeshRx.weight]
        omega
      omega

/-- Every run of the receive path on a prefix of a stream of well-formed
messages, with resets between messages only. Reads that fit deliver the
messages in order, all of them once the stream has been read and handed up;
with no reset into a hand-up, only reads that fit do. -/
theorem mesh_rx_delivers_messages {cap : Nat} {msgs : List (List UInt8)} {events : List RxEvent}
    {s : MeshRx} (hwf : ∀ msg ∈ msgs, WellFormed cap msg) (hstream : fifoBytes events <+: msgs.flatten)
    (hbetween : Along (step cap) (ResetBetween msgs) .init events)
    (hrun : run (step cap) .init events = some s) :
    (Along (step cap) (ReadFits msgs) .init events →
      s.delivered <+: msgs ∧ (fifoBytes events = msgs.flatten → s.quiescent → s.delivered = msgs)) ∧
    (Along (step cap) ResetAfterHandUp .init events → fifoBytes events = msgs.flatten →
      s.delivered = msgs → Along (step cap) (ReadFits msgs) .init events) := by
  have hne : ∀ msg ∈ msgs, msg ≠ [] := by
    rintro msg hmsg rfl
    exact absurd (hwf [] hmsg).1 (by decide)
  have hinit : ∃ pending rest k, Clean msgs .init pending rest k := ⟨[], msgs, 0, clean_init msgs hne⟩
  have hreceived : s.received = (fifoBytes events).length := by
    rw [run_received hrun]
    exact Nat.zero_add _
  have hreads : Along (step cap) (ReadsNext msgs) .init events := along_readsNext hstream
  constructor
  · intro hfits
    have hcareful : Along (step cap) (Careful msgs) .init events :=
      along_and hreads (along_and hbetween hfits)
    obtain ⟨pending, rest, k, hclean⟩ := run_invariant _ (clean_step hwf) hinit hcareful hrun
    refine ⟨⟨pending ++ rest, ?_⟩, fun hall hquiet => ?_⟩
    · rw [← List.append_assoc]
      exact hclean.split.symm
    · exact hclean.delivered_all hquiet (by rw [hreceived, hall])
  · intro hreset hall hdelivered
    exact fits_of_delivered hwf hinit guarded_init (Nat.le_refl _) hall hbetween hreset hrun
      (by rw [hreceived, hall]) hdelivered

theorem mesh_rx_delivers_two_replies :
    let msgs := [[7, 0, 0, 0, 121, 1, 0], [7, 0, 0, 0, 121, 2, 0]]
    let handUp := List.replicate 7 RxEvent.work
    let events := [.fifo [7, 0, 0], .fifo [0, 121, 1, 0]] ++ handUp ++ [.fifo [7, 0, 0, 0, 121, 2, 0]] ++ handUp
    ∃ s, run (step 8192) .init events = some s ∧ s.delivered = msgs := by
  intro msgs handUp events
  obtain ⟨s, hrun, hquiet⟩ : ∃ s, run (step 8192) .init events = some s ∧ s.quiescent :=
    ⟨_, rfl, by decide⟩
  have hwf : ∀ msg ∈ msgs, WellFormed 8192 msg := by decide
  have hspec := mesh_rx_delivers_messages hwf (by decide) (by decide) hrun
  exact ⟨s, hrun, (hspec.1 (by decide)).2 (by decide) hquiet⟩

/-- A read that holds the end of one reply and the whole next one loses the
next one. -/
theorem mesh_rx_loses_coalesced_reply :
    ¬ ∀ (msgs : List (List UInt8)) (events : List RxEvent) (s : MeshRx),
      (∀ msg ∈ msgs, WellFormed 8192 msg) → fifoBytes events = msgs.flatten →
      Along (step 8192) (ResetBetween msgs) .init events → run (step 8192) .init events = some s →
      s.quiescent → s.delivered = msgs := by
  intro hclaim
  let msgs : List (List UInt8) := [[7, 0, 0, 0, 121, 1, 0], [7, 0, 0, 0, 121, 2, 0]]
  let events := [RxEvent.fifo [7, 0, 0, 0, 121], .fifo [1, 0, 7, 0, 0, 0, 121, 2, 0]] ++
    List.replicate 7 .work
  have hlost := hclaim msgs events _ (by decide) (by decide) (by decide) rfl (by decide)
  revert hlost
  decide

end DectMesh.Relay.UartFraming
