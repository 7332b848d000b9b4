import DectMesh.Aether.NodePort

/-! `aether_net_drain_peer`: the handshake and the Tread loop, with every copy
into the caller's buffer. -/
namespace DectMesh.Aether

open DectMesh.Lib

def mfltName : List UInt8 := [0x6d, 0x66, 0x6c, 0x74]

/-- One `memcpy(out + dst, rbuf + 11, len)`; `src` is what the reply holds
from offset 11 on. -/
structure Copy where
  dst : Int
  len : Nat
  src : List UInt8
  deriving DecidableEq

def Copy.InBounds (cap : Nat) (c : Copy) : Prop :=
  c.len ≤ c.src.length ∧ 0 ≤ c.dst ∧ c.dst + c.len ≤ cap

instance (cap : Nat) (c : Copy) : Decidable (c.InBounds cap) := inferInstanceAs (Decidable (_ ∧ _ ∧ _))

def isRread (rbuf : List UInt8) : Bool := 11 ≤ rbuf.length && typeOf rbuf = 117

def rreadCount (rbuf : List UInt8) : Nat := leNat ((rbuf.drop 7).take 4)

structure Drained where
  total : Int
  copies : List Copy
  counts : List Nat

def Drained.start : Drained := ⟨0, [], []⟩

def Drained.seen (d : Drained) (rbuf : List UInt8) : Drained :=
  { d with counts := d.counts ++ [rreadCount rbuf] }

/-- `n` bytes more; `total` is signed and 32 bits wide. -/
def Drained.copy (d : Drained) (n : Nat) (src : List UInt8) : Drained :=
  { d with total := cWrap (d.total + n), copies := d.copies ++ [⟨d.total, n, src⟩] }

/-- The two clamps on a count: the comparisons are signed, `n` is not. -/
def clampToReply (n r : Nat) : Nat := if (r : Int) - 11 < cInt n then r - 11 else n

def clampToRoom (n cap : Nat) (total : Int) : Nat :=
  if cInt cap - 1 - total < cInt n then cUInt (cap - 1 - total) else n

def copyLen (rbuf : List UInt8) (cap : Nat) (total : Int) : Nat :=
  clampToRoom (clampToReply (rreadCount rbuf) rbuf.length) cap total

section

variable {σ : Type} (port : Port σ) (maxMsg : Nat)

def drainLoop (conv : Slot) (cap : Nat) : Nat → Nat → Drained → σ → Drained × σ
  | 0, _, d, w => (d, w)
  | rounds + 1, tag, d, w =>
      if d.total < cInt cap - 8 then
        match m9Rpc port conv (tRead tag (cUInt (maxMsg - 16))) maxMsg w with
        | (none, w) => (d, w)
        | (some rbuf, w) =>
            if isRread rbuf then
              if copyLen rbuf cap d.total = 0 then (d.seen rbuf, w)
              else
                drainLoop conv cap rounds (tag + 1)
                  ((d.seen rbuf).copy (copyLen rbuf cap d.total) (rbuf.drop 11)) w
            else (d, w)
      else (d, w)

def drainSession (conv : Slot) (cap : Nat) (w : σ) : Drained × σ :=
  match m9OpenDevfile port maxMsg conv 1 mfltName 0 w with
  | (step, tag, w) => if step = 0 then drainLoop port maxMsg conv cap 16 tag .start w else (.start, w)

/-- The result is `total`, or -28 without a free slot. -/
def drainPeer (eui : Addr) (cap : Nat) (w : σ) : Drained × σ :=
  match port.convAlloc w with
  | (none, w) => ({ Drained.start with total := -28 }, w)
  | (some conv, w) =>
      let (d, w) := drainSession port maxMsg conv cap (port.connect conv eui w)
      (d, port.convFree conv w)

end

/-! ## Bounds of the copies -/

theorem isRread_length {rbuf : List UInt8} (h : isRread rbuf = true) : 11 ≤ rbuf.length := by
  simp only [isRread, Bool.and_eq_true, decide_eq_true_eq] at h
  exact h.1

theorem rreadCount_lt {rbuf : List UInt8} (h : isRread rbuf = true) : rreadCount rbuf < 4294967296 := by
  have hlen := isRread_length h
  have hbytes : ((rbuf.drop 7).take 4).length = 4 := by
    simp
    omega
  have hlt := leNat_lt ((rbuf.drop 7).take 4)
  rw [hbytes] at hlt
  exact hlt

theorem copyLen_small {rbuf : List UInt8} {cap : Nat} {total : Int} (hread : isRread rbuf = true)
    (hn : rreadCount rbuf < 2147483648) (hshort : rbuf.length < 65536) (hcap : cap < 2147483648)
    (_htotal : 0 ≤ total) (hroom : total < cInt cap - 8) :
    copyLen rbuf cap total ≤ rbuf.length - 11 ∧ total + copyLen rbuf cap total ≤ cap - 1 := by
  have hr := isRread_length hread
  rw [cInt_of_lt hcap] at hroom
  have hreply : clampToReply (rreadCount rbuf) rbuf.length ≤ rbuf.length - 11 ∧
      clampToReply (rreadCount rbuf) rbuf.length < 2147483648 := by
    unfold clampToReply
    rw [cInt_of_lt hn]
    split <;> omega
  unfold copyLen clampToRoom
  rw [cInt_of_lt hcap, cInt_of_lt hreply.2]
  split
  · rw [cUInt_of_lt (by omega) (by omega)]
    omega
  · omega

theorem copyLen_large {rbuf : List UInt8} {cap : Nat} {total : Int} (hread : isRread rbuf = true)
    (hn : 2147483648 ≤ rreadCount rbuf) (hroom : total < cInt cap - 8) :
    copyLen rbuf cap total = rreadCount rbuf := by
  have hr := isRread_length hread
  have hneg := cInt_neg_of_le hn (rreadCount_lt hread)
  have hreply : clampToReply (rreadCount rbuf) rbuf.length = rreadCount rbuf := by
    unfold clampToReply
    rw [if_neg (by omega)]
  unfold copyLen clampToRoom
  rw [hreply, if_neg (by omega)]

@[simp] theorem Drained.seen_counts (d : Drained) (rbuf : List UInt8) :
    (d.seen rbuf).counts = d.counts ++ [rreadCount rbuf] := rfl

@[simp] theorem Drained.seen_total (d : Drained) (rbuf : List UInt8) : (d.seen rbuf).total = d.total := rfl

@[simp] theorem Drained.copy_copies (d : Drained) (n : Nat) (src : List UInt8) :
    (d.copy n src).copies = d.copies ++ [⟨d.total, n, src⟩] := rfl

@[simp] theorem Drained.copy_counts (d : Drained) (n : Nat) (src : List UInt8) :
    (d.copy n src).counts = d.counts := rfl

@[simp] theorem Drained.copy_total (d : Drained) (n : Nat) (src : List UInt8) :
    (d.copy n src).total = cWrap (d.total + n) := rfl

variable {σ : Type} (port : Port σ) (maxMsg : Nat)

theorem drainLoop_extends (conv : Slot) (cap rounds tag : Nat) (d : Drained) (w : σ) :
    d.copies <+: (drainLoop port maxMsg conv cap rounds tag d w).1.copies ∧
      d.counts <+: (drainLoop port maxMsg conv cap rounds tag d w).1.counts := by
  induction rounds generalizing tag d w with
  | zero => exact ⟨List.prefix_rfl, List.prefix_rfl⟩
  | succ rounds ih =>
    unfold drainLoop
    split
    · split
      · exact ⟨List.prefix_rfl, List.prefix_rfl⟩
      · rename_i rbuf w' _
        split
        · split
          · exact ⟨List.prefix_rfl, List.prefix_append _ _⟩
          · obtain ⟨hcopies, hcounts⟩ := ih (tag + 1)
              ((d.seen rbuf).copy (copyLen rbuf cap d.total) (rbuf.drop 11)) w'
            rw [Drained.copy_copies] at hcopies
            rw [Drained.copy_counts] at hcounts
            exact ⟨(List.prefix_append _ _).trans hcopies, (List.prefix_append _ _).trans hcounts⟩
        · exact ⟨List.prefix_rfl, List.prefix_rfl⟩
    · exact ⟨List.prefix_rfl, List.prefix_rfl⟩

variable {port maxMsg}

/-- What the caller is owed: every copy in bounds and a total within `cap`. -/
def Drained.Safe (cap : Nat) (d : Drained) : Prop :=
  (∀ c ∈ d.copies, c.InBounds cap) ∧ d.total ≤ cap

instance (cap : Nat) (d : Drained) : Decidable (d.Safe cap) := inferInstanceAs (Decidable (_ ∧ _))

def Drained.SmallCounts (d : Drained) : Prop := ∀ n ∈ d.counts, n < 2147483648

instance (d : Drained) : Decidable d.SmallCounts := inferInstanceAs (Decidable (∀ n ∈ _, _))

theorem Drained.seen_small {d : Drained} {rbuf : List UInt8} (h : d.SmallCounts)
    (hn : rreadCount rbuf < 2147483648) : (d.seen rbuf).SmallCounts := by
  intro m hm
  rw [Drained.seen_counts] at hm
  rcases List.mem_append.mp hm with hm | hm
  · exact h m hm
  · rw [List.mem_singleton.mp hm]
    exact hn

theorem Drained.Safe.copy {d : Drained} {n cap : Nat} {src : List UInt8} (h : d.Safe cap)
    (htotal : 0 ≤ d.total) (hn : n ≤ src.length) (hroom : d.total + n ≤ cap - 1)
    (hcap : cap < 2147483648) : (d.copy n src).Safe cap ∧ 0 ≤ (d.copy n src).total := by
  have hsum : (d.copy n src).total = d.total + n := by
    rw [Drained.copy_total, cWrap_of_lt (by omega) (by omega)]
  refine ⟨⟨fun c hc => ?_, by omega⟩, by omega⟩
  rw [Drained.copy_copies] at hc
  rcases List.mem_append.mp hc with hc | hc
  · exact h.1 c hc
  · rw [List.mem_singleton.mp hc]
    refine ⟨hn, htotal, ?_⟩
    show d.total + n ≤ cap
    omega

theorem drainLoop_safe_iff {conv : Slot} {cap rounds tag : Nat} {d : Drained} {w : σ}
    (hcap : cap < 2147483648) (hsafe : d.Safe cap) (hsmall : d.SmallCounts) (htotal : 0 ≤ d.total) :
    (drainLoop port maxMsg conv cap rounds tag d w).1.Safe cap ↔
      (drainLoop port maxMsg conv cap rounds tag d w).1.SmallCounts := by
  induction rounds generalizing tag d w with
  | zero => exact iff_of_true hsafe hsmall
  | succ rounds ih =>
    unfold drainLoop
    split
    · rename_i hroom
      split
      · exact iff_of_true hsafe hsmall
      · rename_i rbuf w' hrpc
        split
        · rename_i hread
          have hr := isRread_length hread
          by_cases hlow : rreadCount rbuf < 2147483648
          · have hclamp := copyLen_small hread hlow (m9Rpc_length hrpc) hcap htotal hroom
            have hseen := Drained.seen_small hsmall hlow
            split
            · exact iff_of_true hsafe hseen
            · have hlen : copyLen rbuf cap d.total ≤ (rbuf.drop 11).length := by
                rw [List.length_drop]
                exact hclamp.1
              have hcopied := (show (d.seen rbuf).Safe cap from hsafe).copy htotal hlen hclamp.2 hcap
              exact ih hcopied.1 hseen hcopied.2
          · -- the count goes into the copy as it is
            have hlarge := copyLen_large hread (Nat.not_lt.mp hlow) hroom
            rw [hlarge, if_neg (by omega)]
            obtain ⟨hcopies, hcounts⟩ := drainLoop_extends port maxMsg conv cap rounds (tag + 1)
              ((d.seen rbuf).copy (rreadCount rbuf) (rbuf.drop 11)) w'
            refine iff_of_false (fun hall => ?_) (fun hall => ?_)
            · have hbad := (hall.1 ⟨d.total, rreadCount rbuf, rbuf.drop 11⟩
                (hcopies.subset (by simp))).1
              have hlen : rreadCount rbuf ≤ rbuf.length - 11 := by
                rw [← List.length_drop]
                exact hbad
              have hshort := m9Rpc_length hrpc
              omega
            · exact hlow (hall _ (hcounts.subset (by simp)))
        · exact iff_of_true hsafe hsmall
    · exact iff_of_true hsafe hsmall

theorem drainSession_safe_iff {conv : Slot} {cap : Nat} {w : σ} (hcap : cap < 2147483648) :
    (drainSession port maxMsg conv cap w).1.Safe cap ↔ (drainSession port maxMsg conv cap w).1.SmallCounts := by
  have hsafe : Drained.start.Safe cap := ⟨fun _ h => (nomatch h), Int.natCast_nonneg cap⟩
  have hsmall : Drained.start.SmallCounts := fun _ h => (nomatch h)
  unfold drainSession
  split
  split
  · exact drainLoop_safe_iff hcap hsafe hsmall (Int.le_refl 0)
  · exact iff_of_true hsafe hsmall

theorem drainLoop_int {conv : Slot} {cap rounds tag : Nat} {d : Drained} {w : σ}
    (h : -2147483648 ≤ d.total ∧ d.total < 2147483648) :
    -2147483648 ≤ (drainLoop port maxMsg conv cap rounds tag d w).1.total ∧
      (drainLoop port maxMsg conv cap rounds tag d w).1.total < 2147483648 := by
  induction rounds generalizing tag d w with
  | zero => exact h
  | succ rounds ih =>
    unfold drainLoop
    split
    · split
      · exact h
      · split
        · split
          · exact h
          · exact ih (cWrap_int _)
        · exact h
    · exact h

theorem drainSession_int (conv : Slot) (cap : Nat) (w : σ) :
    -2147483648 ≤ (drainSession port maxMsg conv cap w).1.total ∧
      (drainSession port maxMsg conv cap w).1.total < 2147483648 := by
  unfold drainSession
  split
  split
  · exact drainLoop_int (by decide)
  · show (-2147483648 : Int) ≤ 0 ∧ (0 : Int) < 2147483648
    decide

/-- Every drain, whatever the port and the peer do: the copies stay in bounds
and the total within the buffer exactly if no Rread count has its sign bit
set. -/
theorem drain_in_bounds_iff (port : Port σ) (maxMsg : Nat) (eui : Addr) {cap : Nat} (w : σ)
    (hcap : cap < 2147483648) :
    (drainPeer port maxMsg eui cap w).1.Safe cap ↔ (drainPeer port maxMsg eui cap w).1.SmallCounts := by
  unfold drainPeer
  split
  · refine iff_of_true ⟨fun _ h => (nomatch h), ?_⟩ fun _ h => (nomatch h)
    show (-28 : Int) ≤ cap
    omega
  · exact drainSession_safe_iff hcap

theorem drain_in_bounds_three_bytes :
    let peer : Addr := ⟨[2, 0, 0, 0, 0, 1], rfl⟩
    let w := World.hearing peer ((openReplies 512 ++ [frame 117 4 (leBytes 4 3 ++ [1, 2, 3])]).map some)
    (drainPeer (nodePort 512) 512 peer 1024 w).1.Safe 1024 ∧
      (drainPeer (nodePort 512) 512 peer 1024 w).1.total = 3 := by
  intro peer w
  exact ⟨(drain_in_bounds_iff (nodePort 512) 512 peer w (by decide)).mpr (by decide +kernel),
    by decide +kernel⟩

/-- An Rread without data and with the count 2^32 - 1 is copied as it says. -/
theorem drain_copies_past_reply :
    let peer : Addr := ⟨[2, 0, 0, 0, 0, 1], rfl⟩
    let w := World.hearing peer ((openReplies 512 ++ [frame 117 4 (leBytes 4 0xffffffff)]).map some)
    ¬ (drainPeer (nodePort 512) 512 peer 1024 w).1.Safe 1024 := by
  decide +kernel

end DectMesh.Aether
