import DectMesh.Relay.UartFraming

/-! The accumulator of uart1 on arbitrary bytes, without resets: whatever comes
in and whenever the handler runs, its lengths stay in bounds and what is handed
up is framed. -/
namespace DectMesh.Relay.UartFraming

open DectMesh.Lib

structure Bounded (cap : Nat) (s : MeshRx) : Prop where
  len : s.rxLen ≤ cap
  held : s.haveHdr = true → s.rxLen ≤ s.rxExpected ∧ 7 ≤ s.rxExpected ∧ s.rxExpected ≤ cap

structure Header (cap n : Nat) (s : MeshRx) : Prop where
  seven : 7 ≤ s.rxLen
  due : s.rxLen + n ≤ s.rxExpected
  fits : s.rxExpected ≤ cap
  size : leNat (s.bytes 4) = s.rxExpected

/-- The accumulator takes bytes, and at least `n` more are due for the header
it holds. -/
structure Live (cap n : Nat) (s : MeshRx) : Prop where
  idle : s.processing = false
  notQueued : s.queued = false
  short : s.haveHdr = false → s.rxLen < 7 ∧ s.rxLen ≤ cap
  held : s.haveHdr = true → Header cap n s

structure Whole (cap : Nat) (s : MeshRx) : Prop where
  busy : s.processing = true
  queued : s.queued = true
  bounded : Bounded cap s
  framed : WellFormed cap (s.bytes s.procLen)

variable {cap n : Nat} {s s' : MeshRx}

theorem Header.seven_le (h : Header cap n s) : 7 ≤ s.rxExpected :=
  h.seven.trans ((Nat.le_add_right _ _).trans h.due)

theorem Live.bounded (h : Live cap n s) : Bounded cap s := by
  constructor
  · cases hhdr : s.haveHdr with
    | false => exact (h.short hhdr).2
    | true =>
      have hheld := h.held hhdr
      exact ((Nat.le_add_right _ _).trans hheld.due).trans hheld.fits
  · intro hhdr
    have hheld := h.held hhdr
    exact ⟨(Nat.le_add_right _ _).trans hheld.due, hheld.seven_le, hheld.fits⟩

theorem Live.aside (h : Live cap n s) (handler : WorkHandler) (received : Nat) (delivered : List (List UInt8)) :
    Live cap n { s with handler := handler, received := received, delivered := delivered } where
  idle := h.idle
  notQueued := h.notQueued
  short := h.short
  held hhdr :=
    have hheld := h.held hhdr
    ⟨hheld.seven, hheld.due, hheld.fits, hheld.size⟩

theorem Bounded.aside (h : Bounded cap s) (queued : Bool) (handler : WorkHandler) (received : Nat)
    (delivered : List (List UInt8)) :
    Bounded cap { s with queued := queued, handler := handler, received := received, delivered := delivered } :=
  ⟨h.len, h.held⟩

theorem Whole.aside (h : Whole cap s) (handler : WorkHandler) (received : Nat) (delivered : List (List UInt8)) :
    Whole cap { s with handler := handler, received := received, delivered := delivered } :=
  ⟨h.busy, h.queued, h.bounded.aside _ _ _ _, h.framed⟩

theorem live_empty (hidle : s.processing = false) (hqueued : s.queued = false) (hlen : s.rxLen = 0)
    (hhdr : s.haveHdr = false) : Live cap 1 s where
  idle := hidle
  notQueued := hqueued
  short _ := by
    rw [hlen]
    exact ⟨by decide, Nat.zero_le cap⟩
  held hheld := by
    rw [hhdr] at hheld
    cases hheld

/-! ## One byte -/

theorem wrapFull_live (hcap : 0 < cap) (h : Live cap 1 s) :
    Live cap 1 (wrapFull cap s) ∧ (wrapFull cap s).rxLen < cap := by
  unfold wrapFull
  split
  · exact ⟨live_empty h.idle h.notQueued rfl rfl, hcap⟩
  · rename_i hroom
    exact ⟨h, Nat.lt_of_not_le hroom⟩

theorem store_bytes (byte : UInt8) {k : Nat} (h : k ≤ s.rxLen) : (store s byte).bytes k = s.bytes k := by
  apply List.map_congr_left
  intro i hi
  exact Function.update_of_ne (Nat.ne_of_lt ((List.mem_range.mp hi).trans_le h)) _ _

theorem frameDone_live (h : Live cap 0 s) :
    (frameDone s).2 = false ∧ Live cap 1 (frameDone s).1 ∨ (frameDone s).2 = true ∧ Whole cap (frameDone s).1 := by
  unfold frameDone
  split
  · rename_i hdone
    have hheld := h.held hdone.1
    refine .inr ⟨rfl, rfl, rfl, ⟨h.bounded.len, h.bounded.held⟩, ?_⟩
    have hseven := hheld.seven_le
    refine ⟨by simpa using hseven, by simpa using hheld.fits, ?_⟩
    rw [MeshRx.bytes_take _ (Nat.le_trans (by decide) hseven), MeshRx.bytes_length]
    exact hheld.size
  · rename_i hopen
    refine .inl ⟨rfl, h.idle, h.notQueued, h.short, fun hhdr => ?_⟩
    have hheld := h.held hhdr
    refine ⟨hheld.seven, ?_, hheld.fits, hheld.size⟩
    exact Nat.lt_of_not_le fun hle => hopen ⟨hhdr, hle⟩

theorem isrByte_live (hcap : 0 < cap) (h : Live cap 1 s) (byte : UInt8) :
    (isrByte cap s byte).2 = false ∧ Live cap 1 (isrByte cap s byte).1 ∨
      (isrByte cap s byte).2 = true ∧ Whole cap (isrByte cap s byte).1 := by
  obtain ⟨hlive, hroom⟩ := wrapFull_live hcap h
  rw [isrByte, accept]
  split
  · rename_i hseven
    have hshort : (wrapFull cap s).haveHdr = false := hseven.1
    have hlen : (store (wrapFull cap s) byte).rxLen = 7 := by
      have hbefore := (hlive.short hshort).1
      have hafter : 7 ≤ (wrapFull cap s).rxLen + 1 := hseven.2
      show (wrapFull cap s).rxLen + 1 = 7
      omega
    unfold readHeader
    split
    · exact .inl ⟨rfl, live_empty hlive.idle hlive.notQueued rfl hshort⟩
    · rename_i hsize
      apply frameDone_live
      have hheader : true = false → False := Bool.noConfusion
      refine ⟨hlive.idle, hlive.notQueued, fun hhdr => (hheader hhdr).elim, fun _ => ⟨hseven.2, ?_, ?_, rfl⟩⟩ <;>
        simp only [hlen] <;> omega
  · rename_i hnot
    apply frameDone_live
    refine ⟨hlive.idle, hlive.notQueued, fun hshort => ⟨?_, hroom⟩, fun hhdr => ?_⟩
    · exact Nat.lt_of_not_le fun hseven => hnot ⟨hshort, hseven⟩
    · have hheld := hlive.held hhdr
      refine ⟨hheld.seven.trans (Nat.le_succ _), hheld.due, hheld.fits, ?_⟩
      rw [store_bytes byte (Nat.le_trans (by decide) hheld.seven)]
      exact hheld.size

theorem isrBatch_live (hcap : 0 < cap) (h : Live cap 1 s) (batch : List UInt8) :
    Live cap 1 (isrBatch cap s batch) ∨ Whole cap (isrBatch cap s batch) := by
  induction batch generalizing s with
  | nil => exact .inl h
  | cons byte rest ih =>
    rw [isrBatch_cons]
    rcases isrByte_live hcap h byte with ⟨hgoes, hlive⟩ | ⟨hstops, hwhole⟩
    · rw [hgoes]
      exact ih hlive
    · rw [hstops]
      exact .inr hwhole

/-! ## The interrupt and the handler -/

def WorkHandler.msg : WorkHandler → Option (List UInt8)
  | .idle | .entered _ => none
  | .copied msg | .lenCleared msg | .hdrCleared msg | .expectedCleared msg | .released msg => some msg

def WorkHandler.Cleared (cap : Nat) (s : MeshRx) : WorkHandler → Prop
  | .entered len => WellFormed cap (s.bytes len)
  | .copied _ => True
  | .lenCleared _ => s.rxLen = 0
  | .hdrCleared _ | .expectedCleared _ => s.rxLen = 0 ∧ s.haveHdr = false
  | .idle | .released _ => False

structure Taking (cap : Nat) (s : MeshRx) : Prop where
  busy : s.processing = true
  notQueued : s.queued = false
  bounded : Bounded cap s
  cleared : s.handler.Cleared cap s

structure RxInv (cap : Nat) (s : MeshRx) : Prop where
  phase : s.handler.inside = false ∧ (Live cap 1 s ∨ Whole cap s) ∨ Taking cap s
  carried : ∀ msg ∈ s.handler.msg, WellFormed cap msg
  delivered : ∀ msg ∈ s.delivered, WellFormed cap msg

theorem RxInv.bounded (h : RxInv cap s) : Bounded cap s := by
  rcases h.phase with ⟨-, hlive | hwhole⟩ | htaking
  · exact hlive.bounded
  · exact hwhole.bounded
  · exact htaking.bounded

theorem rxInv_init : RxInv cap .init where
  phase := .inl ⟨rfl, .inl (live_empty rfl rfl rfl rfl)⟩
  carried := nofun
  delivered := nofun

theorem rxInv_received (h : RxInv cap s) (total : Nat) : RxInv cap { s with received := total } := by
  obtain ⟨hphase, hcarried, hdelivered⟩ := h
  refine ⟨?_, hcarried, hdelivered⟩
  rcases hphase with ⟨houtside, hlive | hwhole⟩ | htaking
  · exact .inl ⟨houtside, .inl (hlive.aside s.handler total s.delivered)⟩
  · exact .inl ⟨houtside, .inr (hwhole.aside s.handler total s.delivered)⟩
  · refine .inr ⟨htaking.busy, htaking.notQueued, htaking.bounded.aside _ _ _ _, ?_⟩
    have hcleared := htaking.cleared
    show s.handler.Cleared cap _
    cases hat : s.handler <;> rw [hat] at hcleared <;> exact hcleared

/-- Bytes that come while a message is handed up are dropped. -/
theorem rxInv_batch (hcap : 0 < cap) (h : RxInv cap s) (batch : List UInt8) :
    RxInv cap (if s.processing then s else isrBatch cap s batch) := by
  cases hbusy : s.processing with
  | true => exact h
  | false =>
    have hsame := isrBatch_same cap s batch
    rw [if_neg Bool.false_ne_true]
    refine ⟨.inl ⟨?_, ?_⟩, hsame.handler ▸ h.carried, hsame.delivered ▸ h.delivered⟩
    · rw [hsame.handler]
      rcases h.phase with ⟨houtside, -⟩ | htaking
      · exact houtside
      · rw [htaking.busy] at hbusy
        cases hbusy
    · rcases h.phase with ⟨-, hlive | hwhole⟩ | htaking
      · exact isrBatch_live hcap hlive batch
      · rw [hwhole.busy] at hbusy
        cases hbusy
      · rw [htaking.busy] at hbusy
        cases hbusy

theorem rxInv_fifo (hcap : 0 < cap) (h : RxInv cap s) (batch : List UInt8) : RxInv cap (meshUartIsr cap s batch) :=
  rxInv_batch hcap (rxInv_received h _) batch

/-- Inside the handler nothing but the handler changes the accumulator. -/
theorem RxInv.taking (h : RxInv cap s) (hinside : s.handler.inside = true) : Taking cap s := by
  rcases h.phase with ⟨houtside, -⟩ | htaking
  · rw [houtside] at hinside
    cases hinside
  · exact htaking

theorem rxInv_work (h : RxInv cap s) (hstep : meshRxWorkHandler s = some s') : RxInv cap s' := by
  unfold meshRxWorkHandler at hstep
  have htaking := h.taking
  have hcarried := h.carried
  cases hat : s.handler with
  | idle =>
    rw [hat] at hstep htaking
    dsimp only at hstep
    split at hstep
    · rename_i hqueued
      cases hstep
      rcases h.phase with ⟨-, hlive | hwhole⟩ | htaking
      · rw [hlive.notQueued] at hqueued
        cases hqueued
      · exact ⟨.inr ⟨hwhole.busy, rfl, hwhole.bounded.aside _ _ _ _, hwhole.framed⟩, nofun, h.delivered⟩
      · rw [htaking.notQueued] at hqueued
        cases hqueued
    · cases hstep
  | entered len =>
    rw [hat] at hstep htaking
    obtain ⟨hbusy, hqueued, hbounded, hcleared⟩ := htaking rfl
    rw [hat] at hcleared
    cases hstep
    refine ⟨.inr ⟨hbusy, hqueued, hbounded.aside _ _ _ _, trivial⟩, ?_, h.delivered⟩
    rintro msg ⟨⟩
    exact hcleared
  | copied msg =>
    rw [hat] at hstep htaking hcarried
    obtain ⟨hbusy, hqueued, hbounded, -⟩ := htaking rfl
    cases hstep
    refine ⟨.inr ⟨hbusy, hqueued, ⟨Nat.zero_le _, fun hhdr => ?_⟩, rfl⟩, hcarried, h.delivered⟩
    exact ⟨Nat.zero_le _, (hbounded.held hhdr).2⟩
  | lenCleared msg =>
    rw [hat] at hstep htaking hcarried
    obtain ⟨hbusy, hqueued, hbounded, hcleared⟩ := htaking rfl
    rw [hat] at hcleared
    cases hstep
    exact ⟨.inr ⟨hbusy, hqueued, ⟨hbounded.len, nofun⟩, hcleared, rfl⟩, hcarried, h.delivered⟩
  | hdrCleared msg =>
    rw [hat] at hstep htaking hcarried
    obtain ⟨hbusy, hqueued, hbounded, hcleared⟩ := htaking rfl
    rw [hat] at hcleared
    cases hstep
    refine ⟨.inr ⟨hbusy, hqueued, ⟨hbounded.len, fun hhdr => ?_⟩, hcleared⟩, hcarried, h.delivered⟩
    rw [show s.haveHdr = false from hcleared.2] at hhdr
    cases hhdr
  | expectedCleared msg =>
    rw [hat] at hstep htaking hcarried
    obtain ⟨-, hqueued, -, hcleared⟩ := htaking rfl
    rw [hat] at hcleared
    cases hstep
    exact ⟨.inl ⟨rfl, .inl (live_empty rfl hqueued hcleared.1 hcleared.2)⟩, hcarried, h.delivered⟩
  | released msg =>
    rw [hat] at hstep hcarried
    cases hstep
    have hdelivered : ∀ m ∈ s.delivered ++ [msg], WellFormed cap m := by
      intro m hm
      rcases List.mem_append.mp hm with hold | hnew
      · exact h.delivered m hold
      · rw [List.mem_singleton.mp hnew]
        exact hcarried msg rfl
    rcases h.phase with ⟨-, hlive | hwhole⟩ | htaking
    · exact ⟨.inl ⟨rfl, .inl (hlive.aside .idle s.received _)⟩, nofun, hdelivered⟩
    · exact ⟨.inl ⟨rfl, .inr (hwhole.aside .idle s.received _)⟩, nofun, hdelivered⟩
    · have hcleared := htaking.cleared
      rw [hat] at hcleared
      exact hcleared.elim

/-- Without a reset, whatever bytes come in, in whatever batches and with the
handler at any pace: the accumulator keeps within its bounds, and every buffer
handed to `recv_cb` has the length that its first four bytes tell. -/
theorem accumulator_safe (hcap : 0 < cap) {events : List RxEvent} (hresets : .reset ∉ events)
    (hrun : run (step cap) .init events = some s) :
    Bounded cap s ∧ ∀ msg ∈ s.delivered, WellFormed cap msg := by
  have hgood : Along (step cap) (fun _ event => event ≠ .reset) .init events :=
    along_of_mem fun _ event hevent hreset => hresets (hreset ▸ hevent)
  have hinv : RxInv cap s := by
    refine run_invariant (RxInv cap) (fun s event s' hinv hreset hstep => ?_) rxInv_init hgood hrun
    cases event with
    | fifo batch =>
      cases Option.some.inj hstep
      exact rxInv_fifo hcap hinv batch
    | work => exact rxInv_work hinv hstep
    | reset => exact absurd rfl hreset
  exact ⟨hinv.bounded, hinv.delivered⟩

/-- A size of two, and behind it a message of seven bytes in two batches. -/
def garbageFirst : List RxEvent :=
  [.fifo [2, 0, 0, 0, 9, 9, 9, 7, 0], .fifo [0, 0, 117, 1, 0, 5], .work, .work, .fifo [7], .work, .work, .work,
    .work, .work]

theorem accumulator_safe_garbage :
    ∃ s, run (step 8192) .init garbageFirst = some s ∧ s.delivered = [[7, 0, 0, 0, 117, 1, 0]] ∧
      Bounded 8192 s ∧ ∀ msg ∈ s.delivered, WellFormed 8192 msg := by
  have hends : (run (step 8192) .init garbageFirst).any
      (fun s => decide (s.delivered = [[7, 0, 0, 0, 117, 1, 0]])) = true := by decide +kernel
  obtain ⟨s, hrun, hdelivered⟩ := (Option.any_eq_true _ _).mp hends
  exact ⟨s, hrun, of_decide_eq_true hdelivered, accumulator_safe (by decide) (by decide) hrun⟩

end DectMesh.Relay.UartFraming
