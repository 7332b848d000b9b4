import DectMesh.Lib.Run
import DectMesh.Lib.Wire
import Mathlib.Logic.Function.Basic

/-! The relay's receive path on uart1: `mesh_uart_isr` accumulates one 9P
message, `mesh_rx_work_handler` hands it to the client on a work queue, and
`mesh_rx_reset` clears the accumulator before a (re)attach. -/
namespace DectMesh.Relay.UartFraming

open DectMesh.Lib

/-- Where `mesh_rx_work_handler` stands. Each constructor is the state after
one of its statements; the interrupt and the reset may come between any two. -/
inductive WorkHandler where
  | idle
  | entered (len : Nat)
  | copied (msg : List UInt8)
  | lenCleared (msg : List UInt8)
  | hdrCleared (msg : List UInt8)
  | expectedCleared (msg : List UInt8)
  | released (msg : List UInt8)
  deriving DecidableEq

/-- The framing globals of the relay. `buf` is the content of `mesh_rx_buf`,
which survives a cleared length. `received` and `delivered` are history: the
bytes read from the FIFO so far and the buffers passed to `recv_cb`. -/
structure MeshRx where
  buf : Nat → UInt8
  rxLen : Nat
  rxExpected : Nat
  haveHdr : Bool
  processing : Bool
  procLen : Nat
  queued : Bool
  handler : WorkHandler
  received : Nat
  delivered : List (List UInt8)

def MeshRx.init : MeshRx where
  buf := fun _ => 0
  rxLen := 0
  rxExpected := 0
  haveHdr := false
  processing := false
  procLen := 0
  queued := false
  handler := .idle
  received := 0
  delivered := []

def MeshRx.bytes (s : MeshRx) (n : Nat) : List UInt8 := (List.range n).map s.buf

/-- A full accumulator starts over. `cap` is `sizeof(mesh_rx_buf)`. -/
def wrapFull (cap : Nat) (s : MeshRx) : MeshRx :=
  if cap ≤ s.rxLen then { s with rxLen := 0, haveHdr := false } else s

def store (s : MeshRx) (byte : UInt8) : MeshRx :=
  { s with buf := Function.update s.buf s.rxLen byte, rxLen := s.rxLen + 1 }

/-- A whole message goes to the work queue, which ends the batch. Submitting an
item that is still queued changes nothing. -/
def frameDone (s : MeshRx) : MeshRx × Bool :=
  if s.haveHdr ∧ s.rxExpected ≤ s.rxLen then
    ({ s with procLen := s.rxExpected, processing := true, queued := true }, true)
  else (s, false)

/-- The size field once seven bytes are there; an impossible size resynchronises
and skips the completion test. -/
def readHeader (cap : Nat) (s : MeshRx) : MeshRx × Bool :=
  if leNat (s.bytes 4) < 7 ∨ cap < leNat (s.bytes 4) then
    ({ s with rxExpected := leNat (s.bytes 4), rxLen := 0 }, false)
  else frameDone { s with rxExpected := leNat (s.bytes 4), haveHdr := true }

def accept (cap : Nat) (s : MeshRx) : MeshRx × Bool :=
  if s.haveHdr = false ∧ 7 ≤ s.rxLen then readHeader cap s else frameDone s

/-- One byte of a FIFO batch; `true` is the `break` out of the batch. -/
def isrByte (cap : Nat) (s : MeshRx) (byte : UInt8) : MeshRx × Bool :=
  accept cap (store (wrapFull cap s) byte)

/-- The batch loop: what follows the byte that completes a message is dropped. -/
def isrBatch (cap : Nat) (s : MeshRx) : List UInt8 → MeshRx
  | [] => s
  | byte :: rest =>
      let (s, stop) := isrByte cap s byte
      if stop then s else isrBatch cap s rest

/-- One `uart_fifo_read` of `mesh_uart_isr`. -/
def meshUartIsr (cap : Nat) (s : MeshRx) (batch : List UInt8) : MeshRx :=
  let s := { s with received := s.received + batch.length }
  if s.processing then s else isrBatch cap s batch

/-- The next statement of `mesh_rx_work_handler`, if the item is due. -/
def meshRxWorkHandler (s : MeshRx) : Option MeshRx :=
  match s.handler with
  | .idle => if s.queued then some { s with queued := false, handler := .entered s.procLen } else none
  | .entered len => some { s with handler := .copied (s.bytes len) }
  | .copied msg => some { s with rxLen := 0, handler := .lenCleared msg }
  | .lenCleared msg => some { s with haveHdr := false, handler := .hdrCleared msg }
  | .hdrCleared msg => some { s with rxExpected := 0, handler := .expectedCleared msg }
  | .expectedCleared msg => some { s with processing := false, handler := .released msg }
  | .released msg => some { s with delivered := s.delivered ++ [msg], handler := .idle }

/-- Runs with the interrupt masked, so it is one step. -/
def meshRxReset (s : MeshRx) : MeshRx :=
  { s with rxLen := 0, haveHdr := false, rxExpected := 0, processing := false }

inductive RxEvent where
  | fifo (batch : List UInt8)
  | work
  | reset
  deriving DecidableEq

def step (cap : Nat) (s : MeshRx) : RxEvent → Option MeshRx
  | .fifo batch => some (meshUartIsr cap s batch)
  | .work => meshRxWorkHandler s
  | .reset => some (meshRxReset s)

def fifoBytes : List RxEvent → List UInt8
  | [] => []
  | .fifo batch :: rest => batch ++ fifoBytes rest
  | _ :: rest => fifoBytes rest

/-! ## Messages and positions in their stream -/

def WellFormed (cap : Nat) (msg : List UInt8) : Prop :=
  7 ≤ msg.length ∧ msg.length ≤ cap ∧ leNat (msg.take 4) = msg.length

instance (cap : Nat) (msg : List UInt8) : Decidable (WellFormed cap msg) :=
  inferInstanceAs (Decidable (_ ∧ _ ∧ _))

def offsetIn : List (List UInt8) → Nat → Nat
  | [], pos => pos
  | msg :: rest, pos => if pos < msg.length then pos else offsetIn rest (pos - msg.length)

def toBoundary : List (List UInt8) → Nat → Nat
  | [], _ => 0
  | msg :: rest, pos => if pos < msg.length then msg.length - pos else toBoundary rest (pos - msg.length)

theorem offsetIn_flatten_add (done rest : List (List UInt8)) (k : Nat)
    (hk : k < (rest.headD []).length ∨ rest = []) :
    offsetIn (done ++ rest) (done.flatten.length + k) = k := by
  induction done with
  | nil =>
    cases rest with
    | nil => simp [offsetIn]
    | cons msg rest =>
      have hlt : k < msg.length := by simpa using hk
      simp [offsetIn, hlt]
  | cons msg done ih =>
    have hge : ¬ msg.length + done.flatten.length + k < msg.length := by omega
    have hsub : msg.length + done.flatten.length + k - msg.length = done.flatten.length + k := by omega
    simp only [List.cons_append, offsetIn, List.flatten_cons, List.length_append, hge, if_false, hsub, ih]

theorem toBoundary_flatten_add (done rest : List (List UInt8)) (msg : List UInt8) (k : Nat)
    (hk : k < msg.length) :
    toBoundary (done ++ msg :: rest) (done.flatten.length + k) = msg.length - k := by
  induction done with
  | nil => simp [toBoundary, hk]
  | cons head done ih =>
    have hge : ¬ head.length + done.flatten.length + k < head.length := by omega
    have hsub : head.length + done.flatten.length + k - head.length = done.flatten.length + k := by omega
    simp only [List.cons_append, toBoundary, List.flatten_cons, List.length_append, hge, if_false, hsub, ih]

theorem toBoundary_flatten (done : List (List UInt8)) (k : Nat) :
    toBoundary done (done.flatten.length + k) = 0 := by
  induction done with
  | nil => rfl
  | cons head done ih =>
    have hge : ¬ head.length + done.flatten.length + k < head.length := by omega
    have hsub : head.length + done.flatten.length + k - head.length = done.flatten.length + k := by omega
    simp only [toBoundary, List.flatten_cons, List.length_append, hge, if_false, hsub, ih]

/-! ## What a run may do -/

def WorkHandler.inside : WorkHandler → Bool
  | .idle | .released _ => false
  | _ => true

/-- A completed message is on its way to `recv_cb` and `mesh_rx_processing` is
still due to be cleared. -/
def MeshRx.handingUp (s : MeshRx) : Bool := s.queued || s.handler.inside

def ResetBetween (msgs : List (List UInt8)) (s : MeshRx) : RxEvent → Prop
  | .reset => offsetIn msgs s.received = 0
  | _ => True

def ResetAfterHandUp (s : MeshRx) : RxEvent → Prop
  | .reset => s.handingUp = false
  | _ => True

/-- A FIFO read brings bytes only while no message is handed up, and none that
lie behind the end of the message being received. -/
def ReadFits (msgs : List (List UInt8)) (s : MeshRx) : RxEvent → Prop
  | .fifo batch => batch ≠ [] → s.handingUp = false ∧ batch.length ≤ toBoundary msgs s.received
  | _ => True

instance (msgs : List (List UInt8)) (s : MeshRx) : ∀ event, Decidable (ResetBetween msgs s event)
  | .fifo _ | .work => .isTrue trivial
  | .reset => inferInstanceAs (Decidable (offsetIn msgs s.received = 0))

instance (msgs : List (List UInt8)) (s : MeshRx) : ∀ event, Decidable (ReadFits msgs s event)
  | .fifo batch =>
      inferInstanceAs (Decidable (batch ≠ [] → s.handingUp = false ∧ batch.length ≤ toBoundary msgs s.received))
  | .work | .reset => .isTrue trivial

def MeshRx.quiescent (s : MeshRx) : Prop := s.handler = .idle ∧ s.queued = false

instance (s : MeshRx) : Decidable s.quiescent := inferInstanceAs (Decidable (_ ∧ _))

/-! ## The interrupt on a message of the stream -/

@[simp] theorem MeshRx.bytes_length (s : MeshRx) (n : Nat) : (s.bytes n).length = n := by
  simp [MeshRx.bytes]

theorem MeshRx.bytes_take (s : MeshRx) {m n : Nat} (h : m ≤ n) : (s.bytes n).take m = s.bytes m := by
  simp [MeshRx.bytes, ← List.map_take, List.take_range, Nat.min_eq_left h]

theorem map_range_update (buf : Nat → UInt8) (n : Nat) (byte : UInt8) :
    (List.range (n + 1)).map (Function.update buf n byte) = (List.range n).map buf ++ [byte] := by
  rw [List.range_succ, List.map_append, List.map_singleton, Function.update_self]
  congr 1
  apply List.map_congr_left
  intro i hi
  rw [Function.update_of_ne (Nat.ne_of_lt (List.mem_range.mp hi))]

structure Holds (s : MeshRx) (msg : List UInt8) (k : Nat) : Prop where
  idle : s.processing = false
  notQueued : s.queued = false
  len : s.rxLen = k
  bytes : s.bytes k = msg.take k
  hdr : s.haveHdr = decide (7 ≤ k)
  expected : 7 ≤ k → s.rxExpected = msg.length

structure Framed (s : MeshRx) (msg : List UInt8) : Prop where
  queued : s.queued = true
  len : s.procLen = msg.length
  bytes : s.bytes msg.length = msg

theorem holds_zero {s : MeshRx} (hidle : s.processing = false) (hqueued : s.queued = false)
    (hlen : s.rxLen = 0) (hhdr : s.haveHdr = false) (msg : List UInt8) : Holds s msg 0 where
  idle := hidle
  notQueued := hqueued
  len := hlen
  bytes := rfl
  hdr := by simpa using hhdr
  expected := by omega

structure SameHandUp (s s' : MeshRx) : Prop where
  handler : s'.handler = s.handler
  received : s'.received = s.received
  delivered : s'.delivered = s.delivered

theorem SameHandUp.trans {s t u : MeshRx} (h : SameHandUp s t) (h' : SameHandUp t u) : SameHandUp s u where
  handler := h'.handler.trans h.handler
  received := h'.received.trans h.received
  delivered := h'.delivered.trans h.delivered

theorem frameDone_same (s : MeshRx) : SameHandUp s (frameDone s).1 := by
  unfold frameDone
  split <;> exact ⟨rfl, rfl, rfl⟩

theorem readHeader_same (cap : Nat) (s : MeshRx) : SameHandUp s (readHeader cap s).1 := by
  unfold readHeader
  split
  · exact ⟨rfl, rfl, rfl⟩
  · have h := frameDone_same { s with rxExpected := leNat (s.bytes 4), haveHdr := true }
    exact ⟨h.handler, h.received, h.delivered⟩

theorem isrByte_same (cap : Nat) (s : MeshRx) (byte : UInt8) : SameHandUp s (isrByte cap s byte).1 := by
  have hstore : SameHandUp s (store (wrapFull cap s) byte) := by
    unfold wrapFull
    split <;> exact ⟨rfl, rfl, rfl⟩
  refine hstore.trans ?_
  unfold isrByte accept
  split
  · exact readHeader_same _ _
  · exact frameDone_same _

theorem isrBatch_same (cap : Nat) (s : MeshRx) (batch : List UInt8) :
    SameHandUp s (isrBatch cap s batch) := by
  induction batch generalizing s with
  | nil => exact ⟨rfl, rfl, rfl⟩
  | cons byte rest ih =>
    unfold isrBatch
    dsimp only
    split
    · exact isrByte_same cap s byte
    · exact (isrByte_same cap s byte).trans (ih _)

theorem isrByte_store {cap k : Nat} {s : MeshRx} {msg later : List UInt8} {byte : UInt8}
    (hwf : WellFormed cap msg) (h : Holds s msg k) (hnext : msg.drop k = byte :: later) :
    ∃ t, isrByte cap s byte = frameDone t ∧ Holds t msg (k + 1) := by
  have hk : k < msg.length := by
    have := congrArg List.length hnext
    simp at this
    omega
  obtain ⟨hseven, hcap, hsize⟩ := hwf
  have hwrap : wrapFull cap s = s := by
    rw [wrapFull, if_neg]
    rw [h.len]
    omega
  have hidle : (store s byte).processing = false := h.idle
  have hqueued : (store s byte).queued = false := h.notQueued
  have hlen : (store s byte).rxLen = k + 1 := congrArg (· + 1) h.len
  have hbytes : (store s byte).bytes (k + 1) = msg.take (k + 1) := by
    rw [List.take_add, hnext, ← h.bytes, ← h.len]
    exact map_range_update s.buf s.rxLen byte
  rw [isrByte, hwrap, accept]
  split
  · rename_i hhdr
    rw [hlen] at hhdr
    have hexp : leNat ((store s byte).bytes 4) = msg.length := by
      rw [← (store s byte).bytes_take (show 4 ≤ k + 1 by omega), hbytes, List.take_take,
        Nat.min_eq_left (by omega), hsize]
    rw [readHeader, hexp, if_neg (by omega)]
    exact ⟨_, rfl, hidle, hqueued, hlen, hbytes, by simp [hhdr.2], fun _ => rfl⟩
  · rename_i hhdr
    refine ⟨_, rfl, hidle, hqueued, hlen, hbytes, ?_, ?_⟩
    · have hold : (store s byte).haveHdr = decide (7 ≤ k) := h.hdr
      rw [hlen, hold] at hhdr
      rw [hold, decide_eq_decide]
      simp at hhdr
      omega
    · intro hnow
      have hold : (store s byte).haveHdr = decide (7 ≤ k) := h.hdr
      rw [hlen, hold] at hhdr
      simp at hhdr
      exact h.expected (by omega)

theorem frameDone_holds {s : MeshRx} {msg : List UInt8} {k : Nat} (h : Holds s msg k)
    (hk : k < msg.length) : frameDone s = (s, false) := by
  unfold frameDone
  rw [if_neg]
  rintro ⟨hhdr, hle⟩
  rw [h.hdr, decide_eq_true_eq] at hhdr
  rw [h.expected hhdr, h.len] at hle
  omega

theorem frameDone_full {s : MeshRx} {msg : List UInt8} (hseven : 7 ≤ msg.length)
    (h : Holds s msg msg.length) :
    frameDone s = ({ s with procLen := msg.length, processing := true, queued := true }, true) := by
  unfold frameDone
  rw [h.hdr, h.expected hseven, h.len]
  simp [hseven]

theorem isrBatch_cons (cap : Nat) (s : MeshRx) (byte : UInt8) (rest : List UInt8) :
    isrBatch cap s (byte :: rest) =
      if (isrByte cap s byte).2 then (isrByte cap s byte).1
      else isrBatch cap (isrByte cap s byte).1 rest := rfl

theorem isrBatch_next {cap k : Nat} {s : MeshRx} {msg later : List UInt8} {byte : UInt8}
    (rest : List UInt8) (hwf : WellFormed cap msg) (h : Holds s msg k)
    (hnext : msg.drop k = byte :: later) (hlater : later ≠ []) :
    ∃ t, isrBatch cap s (byte :: rest) = isrBatch cap t rest ∧ Holds t msg (k + 1) ∧
      msg.drop (k + 1) = later := by
  obtain ⟨t, heq, ht⟩ := isrByte_store hwf h hnext
  have hdrop : msg.drop (k + 1) = later := by
    rw [← List.drop_drop, hnext]
    rfl
  have hk : k + 1 < msg.length := by
    have hlen := congrArg List.length hdrop
    have := List.length_pos_iff.mpr hlater
    simp at hlen
    omega
  refine ⟨t, ?_, ht, hdrop⟩
  rw [isrBatch_cons, heq, frameDone_holds ht hk]
  rfl

theorem isrBatch_prefix {cap k : Nat} {s : MeshRx} {msg batch later : List UInt8}
    (hwf : WellFormed cap msg) (h : Holds s msg k) (hdrop : msg.drop k = batch ++ later)
    (hlater : later ≠ []) : Holds (isrBatch cap s batch) msg (k + batch.length) := by
  induction batch generalizing s k with
  | nil => exact h
  | cons byte rest ih =>
    obtain ⟨t, heq, ht, hdrop'⟩ := isrBatch_next rest hwf h hdrop (by simp [hlater])
    rw [heq, List.length_cons, Nat.add_comm rest.length 1, ← Nat.add_assoc]
    exact ih ht hdrop'

/-- The end of a message frames it and the rest of the batch is lost. -/
theorem isrBatch_complete {cap k : Nat} {s : MeshRx} {msg : List UInt8} (batch extra : List UInt8)
    (hwf : WellFormed cap msg) (h : Holds s msg k) (hdrop : msg.drop k = batch) (hbatch : batch ≠ []) :
    Framed (isrBatch cap s (batch ++ extra)) msg ∧
      (isrBatch cap s (batch ++ extra)).processing = true := by
  induction batch generalizing s k with
  | nil => contradiction
  | cons byte rest ih =>
    cases rest with
    | nil =>
      obtain ⟨t, heq, ht⟩ := isrByte_store hwf h hdrop
      have hk : k + 1 = msg.length := by
        have := congrArg List.length hdrop
        simp at this
        omega
      rw [hk] at ht
      rw [List.singleton_append, isrBatch_cons, heq, frameDone_full hwf.1 ht]
      refine ⟨⟨rfl, rfl, ?_⟩, rfl⟩
      have := ht.bytes
      rwa [List.take_length] at this
    | cons next rest =>
      obtain ⟨t, heq, ht, hdrop'⟩ := isrBatch_next (next :: rest ++ extra) hwf h hdrop (by simp)
      rw [List.cons_append, heq]
      exact ih ht hdrop' (by simp)

end DectMesh.Relay.UartFraming
