import DectMesh.Telemetry.ForwarderPort
import Mathlib.Data.List.GetD

/-! The host tools' reading of an Rread: the count comes from the wire and tells
how much to copy out of the message buffer, which also holds what earlier
messages left there. -/
namespace DectMesh.Tools

open DectMesh.Lib
open DectMesh.Aether (frame)
open DectMesh.Telemetry (GatewayReply)

abbrev Memory := Nat → UInt8

def Memory.put (bytes : List UInt8) (mem : Memory) : Memory := fun i => bytes.getD i (mem i)

def Memory.load (mem : Memory) (pos n : Nat) : List UInt8 := (List.range n).map fun i => mem (pos + i)

structure Cap where
  bytes : Nat
  int : bytes < 2147483648

structure ReadResult where
  ret : Int
  copied : List UInt8

/-- `if ((int)n > limit) n = limit;` -/
def clamp (limit : Int) (n : Nat) : Nat := if limit < cInt n then cUInt limit else n

/-- `memcpy(out, buf + pos, n); return n;` -/
def copyOut (mem : Memory) (pos n : Nat) : ReadResult := ⟨cInt n, mem.load pos n⟩

def tread (fid off cap : Nat) : List UInt8 := frame 116 1 (leBytes 4 fid ++ leBytes 8 off ++ leBytes 4 cap)

/-- What lies in `mbuf` when the reply to a Tread has come: its size is gone and
its rest is read over the request. -/
def replyMemory (fid off : Nat) (cap : Cap) (mem : Memory) (reply : GatewayReply) : Memory :=
  (mem.put (tread fid off cap.bytes)).put (reply.bytes.drop 4)

/-- `do_read` behind its call. `wrong` is returned for a reply of another type. -/
def decodeRead (wrong : Int) (cap : Cap) (mem : Memory) : ReadResult :=
  if mem 0 ≠ 117 then ⟨wrong, []⟩ else copyOut mem 7 (clamp cap.bytes (leNat (mem.load 3 4)))

def readReply (wrong : Int) (fid off : Nat) (cap : Cap) (mem : Memory) (reply : GatewayReply) : ReadResult :=
  decodeRead wrong cap (replyMemory fid off cap mem reply)

def forwarderDoRead : Nat → Nat → Cap → Memory → GatewayReply → ReadResult := readReply (-3)

def convDoRead : Nat → Nat → Cap → Memory → GatewayReply → ReadResult := readReply (-1)

/-- A datagram that `mesh_rpc` takes for a peer's reply, in its buffer of 600
bytes. -/
structure PeerReply where
  bytes : List UInt8
  long : 7 ≤ bytes.length
  fits : bytes.length ≤ 600

def peerRead (cap : Cap) (mem : Memory) (reply : PeerReply) : ReadResult :=
  let mem := mem.put reply.bytes
  if mem 4 ≠ 117 then ⟨-1, []⟩
  else copyOut mem 11 (clamp (reply.bytes.length - 11) (clamp cap.bytes (leNat (mem.load 7 4))))

/-- What is copied is the reply's own data or its beginning, at most the room
for it, and its length is returned. -/
structure ReadResult.Faithful (r : ReadResult) (reply : List UInt8) (cap : Cap) : Prop where
  own : r.copied <+: reply.drop 11
  within : r.copied.length ≤ cap.bytes
  ret : reply.getD 4 0 = 117 → r.ret = r.copied.length

def countOf (reply : List UInt8) : Nat := leNat ((reply.drop 7).take 4)

/-- The count is no negative `int`, and no larger than the data unless the room
is no larger either. Without a whole count there is no room, or what is there of
it are zeros up to the last byte. -/
def CountFits (reply : List UInt8) (cap : Cap) : Prop :=
  reply.getD 4 0 = 117 →
    if 11 ≤ reply.length then countOf reply < 2147483648 ∧ min (countOf reply) cap.bytes ≤ reply.length - 11
    else cap.bytes = 0 ∨ reply.drop 7 = [0, 0, 0]

/-- There is a whole count and it is no negative `int`. -/
def PeerCountFits (reply : List UInt8) : Prop :=
  reply.getD 4 0 = 117 → 11 ≤ reply.length ∧ countOf reply < 2147483648

/-! ## Memory -/

section

variable {mem : Memory} {bytes own : List UInt8} {pos n : Nat}

@[simp] theorem Memory.length_load (mem : Memory) (pos n : Nat) : (mem.load pos n).length = n := by
  simp [Memory.load]

theorem Memory.put_lt (h : n < bytes.length) (d : UInt8) : mem.put bytes n = bytes.getD n d := by
  rw [Memory.put, List.getD_eq_getElem _ _ h, List.getD_eq_getElem _ _ h]

theorem Memory.put_ge (h : bytes.length ≤ n) : mem.put bytes n = mem n :=
  List.getD_eq_default _ _ h

theorem Memory.load_put (h : pos + n ≤ bytes.length) : (mem.put bytes).load pos n = (bytes.drop pos).take n := by
  apply List.ext_getElem
  · simp only [Memory.length_load, List.length_take, List.length_drop]
    omega
  · intro i hi hi'
    rw [Memory.length_load] at hi
    have hlt : pos + i < bytes.length := by omega
    simp [Memory.load, Memory.put, List.getElem?_eq_getElem hlt]

theorem Memory.load_take {m : Nat} (h : m ≤ n) : (mem.load pos n).take m = mem.load pos m := by
  simp [Memory.load, ← List.map_take, List.take_range, Nat.min_eq_left h]

theorem Memory.load_begins (h : mem.load pos own.length = own) : mem.load pos n <+: own ↔ n ≤ own.length := by
  constructor
  · exact fun hbegins => by simpa using hbegins.length_le
  · intro hn
    rw [← Memory.load_take hn, h]
    exact List.take_prefix n own

theorem cInt_eq_iff (hn : n < 4294967296) : cInt n = n ↔ n < 2147483648 := by
  constructor
  · intro heq
    by_contra hbig
    have hneg := cInt_neg_of_le (Nat.le_of_not_lt hbig) hn
    omega
  · exact cInt_of_lt

/-! ## Clamping -/

theorem clamp_small {limit : Nat} (hn : n < 2147483648) (hlimit : limit < 2147483648) :
    clamp limit n = min n limit := by
  rw [clamp, cInt_of_lt hn]
  split
  · rw [cUInt_of_lt (by omega) (by omega)]
    omega
  · omega

theorem clamp_big {limit : Nat} (hn : 2147483648 ≤ n) (hlt : n < 4294967296) : clamp limit n = n := by
  have hneg := cInt_neg_of_le hn hlt
  rw [clamp, if_neg (by omega)]

theorem clamp_lt {limit : Int} (hn : n < 4294967296) : clamp limit n < 4294967296 := by
  unfold clamp cUInt
  split <;> omega

theorem clamp_neg {limit : Int} (hlow : -2147483648 ≤ limit) (hneg : limit < 0) (hn : n < 4294967296) :
    2147483648 ≤ clamp limit n := by
  unfold clamp
  split
  · unfold cUInt
    omega
  · by_contra hsmall
    rename_i hle
    rw [cInt_of_lt (Nat.lt_of_not_le hsmall)] at hle
    omega

/-! ## The three decoders -/

theorem copyOut_faithful {reply : List UInt8} {cap : Cap} (hdata : mem.load pos (reply.length - 11) = reply.drop 11)
    (htype : reply.getD 4 0 = 117) (hn : n < 4294967296) :
    (copyOut mem pos n).Faithful reply cap ↔ n ≤ reply.length - 11 ∧ n ≤ cap.bytes ∧ n < 2147483648 := by
  have hlength : (reply.drop 11).length = reply.length - 11 := List.length_drop
  have hbegins : mem.load pos n <+: reply.drop 11 ↔ n ≤ reply.length - 11 := by
    rw [← hlength]
    exact Memory.load_begins (by rw [hlength, hdata])
  constructor
  · rintro ⟨hown, hwithin, hret⟩
    refine ⟨hbegins.mp hown, by simpa [copyOut] using hwithin, ?_⟩
    exact (cInt_eq_iff hn).mp (by simpa [copyOut] using hret htype)
  · rintro ⟨hown, hwithin, hint⟩
    refine ⟨hbegins.mpr hown, by simpa [copyOut] using hwithin, fun _ => ?_⟩
    simpa [copyOut] using (cInt_eq_iff hn).mpr hint

theorem nothing_faithful {wrong : Int} {reply : List UInt8} {cap : Cap} (htype : reply.getD 4 0 ≠ 117) :
    (ReadResult.mk wrong []).Faithful reply cap :=
  ⟨List.nil_prefix, Nat.zero_le _, fun h => absurd h htype⟩

theorem replyMemory_type {fid off : Nat} {cap : Cap} {reply : GatewayReply} :
    replyMemory fid off cap mem reply 0 = reply.bytes.getD 4 0 := by
  have hlong := reply.long
  rw [replyMemory, Memory.put_lt (by rw [List.length_drop]; omega) 0]
  simp

theorem replyMemory_short {fid off : Nat} {cap : Cap} {reply : GatewayReply} (hshort : reply.bytes.length < 11) :
    ∃ a b c, (replyMemory fid off cap mem reply).load 3 4 = [a, b, c, 0] ∧
      (reply.bytes.drop 7 = [a, b, c] ∨ (reply.bytes.drop 7).length < 3 ∧ c = 1) := by
  have hlength : (reply.bytes.drop 4).length = reply.bytes.length - 4 := List.length_drop
  have hlast : replyMemory fid off cap mem reply 6 = 0 := by
    rw [replyMemory, Memory.put_ge (by omega)]
    rfl
  refine ⟨_, _, _, by rw [← hlast]; rfl, ?_⟩
  by_cases hten : reply.bytes.length = 10
  · obtain ⟨a, b, c, htail⟩ := List.length_eq_three.mp (show (reply.bytes.drop 7).length = 3 by simp [hten])
    have hbyte : ∀ i, i < 3 → replyMemory fid off cap mem reply (3 + i) = (reply.bytes.drop 7).getD i 0 := by
      intro i hi
      rw [replyMemory, Memory.put_lt (by omega) 0]
      simp only [List.getD, List.getElem?_drop]
      congr 2
      omega
    refine .inl ?_
    show reply.bytes.drop 7 = [replyMemory fid off cap mem reply (3 + 0), replyMemory fid off cap mem reply (3 + 1),
      replyMemory fid off cap mem reply (3 + 2)]
    rw [hbyte 0 (by decide), hbyte 1 (by decide), hbyte 2 (by decide), htail]
    rfl
  · refine .inr ⟨by rw [List.length_drop]; omega, ?_⟩
    show replyMemory fid off cap mem reply 5 = 1
    rw [replyMemory, Memory.put_ge (by omega)]
    rfl

theorem leNat_three (a b c : UInt8) : leNat [a, b, c, 0] = a.toNat + 256 * b.toNat + 65536 * c.toNat := by
  simp only [leNat, UInt8.toNat_zero]
  omega

theorem leNat_three_zero {a b c : UInt8} : leNat [a, b, c, 0] = 0 ↔ [a, b, c] = [0, 0, 0] := by
  rw [leNat_three]
  simp only [List.cons.injEq, and_true, ← UInt8.toNat_inj, UInt8.toNat_zero]
  omega

theorem short_count_zero {fid off : Nat} {cap : Cap} {reply : GatewayReply} (hshort : reply.bytes.length < 11) :
    leNat ((replyMemory fid off cap mem reply).load 3 4) < 2147483648 ∧
      (leNat ((replyMemory fid off cap mem reply).load 3 4) = 0 ↔ reply.bytes.drop 7 = [0, 0, 0]) := by
  obtain ⟨a, b, c, hload, htail⟩ := @replyMemory_short mem fid off cap reply hshort
  rw [hload]
  refine ⟨?_, ?_⟩
  · have ha := a.toNat_lt
    have hb := b.toNat_lt
    have hc := c.toNat_lt
    rw [leNat_three]
    omega
  · rcases htail with htail | ⟨hlength, rfl⟩
    · rw [htail, leNat_three_zero]
    · refine iff_of_false (fun hzero => ?_) (fun htail => ?_)
      · cases leNat_three_zero.mp hzero
      · rw [htail] at hlength
        exact absurd hlength (by decide)

theorem readReply_faithful_iff (wrong : Int) (fid off : Nat) (cap : Cap) (mem : Memory) (reply : GatewayReply) :
    (readReply wrong fid off cap mem reply).Faithful reply.bytes cap ↔ CountFits reply.bytes cap := by
  rw [readReply, decodeRead, replyMemory_type]
  by_cases htype : reply.bytes.getD 4 0 = 117
  · have hcap := cap.int
    have hfits : reply.bytes.length ≤ 8192 := reply.fits
    have hcount : leNat ((replyMemory fid off cap mem reply).load 3 4) < 4294967296 := by
      simpa using leNat_lt ((replyMemory fid off cap mem reply).load 3 4)
    have hdata : (replyMemory fid off cap mem reply).load 7 (reply.bytes.length - 11) = reply.bytes.drop 11 := by
      by_cases hlong : 11 ≤ reply.bytes.length
      · rw [replyMemory, Memory.load_put (by rw [List.length_drop]; omega), List.drop_drop]
        exact List.take_of_length_le (by rw [List.length_drop])
      · rw [Nat.sub_eq_zero_of_le (by omega), List.drop_of_length_le (by omega)]
        rfl
    rw [if_neg (not_not_intro htype), copyOut_faithful hdata htype (clamp_lt hcount), CountFits]
    simp only [htype, true_imp_iff]
    by_cases hlong : 11 ≤ reply.bytes.length
    · rw [if_pos hlong]
      have hwhole : leNat ((replyMemory fid off cap mem reply).load 3 4) = countOf reply.bytes := by
        rw [replyMemory, Memory.load_put (by rw [List.length_drop]; omega), List.drop_drop]
        rfl
      rw [hwhole] at hcount ⊢
      by_cases hsmall : countOf reply.bytes < 2147483648
      · rw [clamp_small hsmall hcap]
        omega
      · rw [clamp_big (Nat.le_of_not_lt hsmall) hcount]
        omega
    · rw [if_neg hlong]
      obtain ⟨hsmall, hzero⟩ := short_count_zero (Nat.lt_of_not_le hlong)
      rw [← hzero, clamp_small hsmall hcap]
      omega
  · rw [if_pos htype]
    exact iff_of_true (nothing_faithful htype) fun h => absurd h htype

theorem peerRead_faithful_iff (cap : Cap) (mem : Memory) (reply : PeerReply) :
    (peerRead cap mem reply).Faithful reply.bytes cap ↔ PeerCountFits reply.bytes := by
  have hlong := reply.long
  have hfits := reply.fits
  have hread : peerRead cap mem reply =
      if mem.put reply.bytes 4 ≠ 117 then ⟨-1, []⟩
      else copyOut (mem.put reply.bytes) 11
        (clamp (reply.bytes.length - 11) (clamp cap.bytes (leNat ((mem.put reply.bytes).load 7 4)))) := rfl
  rw [hread, Memory.put_lt (by omega) 0]
  by_cases htype : reply.bytes.getD 4 0 = 117
  · have hcap := cap.int
    have hcount : leNat ((mem.put reply.bytes).load 7 4) < 4294967296 := by
      simpa using leNat_lt ((mem.put reply.bytes).load 7 4)
    have hdata : (mem.put reply.bytes).load 11 (reply.bytes.length - 11) = reply.bytes.drop 11 := by
      by_cases hwhole : 11 ≤ reply.bytes.length
      · rw [Memory.load_put (by omega)]
        exact List.take_of_length_le (by rw [List.length_drop])
      · rw [Nat.sub_eq_zero_of_le (by omega), List.drop_of_length_le (by omega)]
        rfl
    rw [if_neg (not_not_intro htype), copyOut_faithful hdata htype (clamp_lt (clamp_lt hcount)), PeerCountFits]
    simp only [htype, true_imp_iff]
    by_cases hwhole : 11 ≤ reply.bytes.length
    · have hcountOf : leNat ((mem.put reply.bytes).load 7 4) = countOf reply.bytes := by
        rw [Memory.load_put (by omega)]
        rfl
      have hroom : ((reply.bytes.length : Int) - 11) = ((reply.bytes.length - 11 : Nat) : Int) := by omega
      rw [hcountOf] at hcount ⊢
      rw [hroom]
      by_cases hsmall : countOf reply.bytes < 2147483648
      · rw [clamp_small hsmall hcap, clamp_small (by omega) (by omega)]
        omega
      · rw [clamp_big (Nat.le_of_not_lt hsmall) hcount, clamp_big (Nat.le_of_not_lt hsmall) hcount]
        omega
    · -- the room left behind the header is negative and no limit at all
      have hlimit : (reply.bytes.length : Int) - 11 < 0 := by omega
      have hcap : clamp cap.bytes (leNat ((mem.put reply.bytes).load 7 4)) < 4294967296 := clamp_lt hcount
      have hhuge := clamp_neg (by omega) hlimit hcap
      omega
  · rw [if_pos htype]
    exact iff_of_true (nothing_faithful htype) fun h => absurd h htype

end

/-- `do_read` of the forwarder and of aether_conv is faithful exactly to replies
whose count fits, and `peer_read` exactly to those with a whole count that is no
negative `int`. -/
theorem decoding_faithful_iff (fid off : Nat) (cap : Cap) (mem : Memory) (reply : GatewayReply)
    (dgram : PeerReply) :
    ((forwarderDoRead fid off cap mem reply).Faithful reply.bytes cap ↔ CountFits reply.bytes cap) ∧
    ((convDoRead fid off cap mem reply).Faithful reply.bytes cap ↔ CountFits reply.bytes cap) ∧
    ((peerRead cap mem dgram).Faithful dgram.bytes cap ↔ PeerCountFits dgram.bytes) :=
  ⟨readReply_faithful_iff (-3) fid off cap mem reply, readReply_faithful_iff (-1) fid off cap mem reply,
    peerRead_faithful_iff cap mem dgram⟩

/-- An Rread without data that counts five bytes, and one that ends behind its
tag. -/
theorem decoding_unfaithful :
    (¬ ∀ fid off cap mem reply, (forwarderDoRead fid off cap mem reply).Faithful reply.bytes cap) ∧
    (¬ ∀ fid off cap mem reply, (convDoRead fid off cap mem reply).Faithful reply.bytes cap) ∧
    ¬ ∀ cap mem reply, (peerRead cap mem reply).Faithful reply.bytes cap := by
  refine ⟨fun hclaim => ?_, fun hclaim => ?_, fun hclaim => ?_⟩
  · have hown := (hclaim 5 0 ⟨64, by decide⟩ (fun _ => 0)
      ⟨[11, 0, 0, 0, 117, 1, 0, 5, 0, 0, 0], by decide, by decide, rfl⟩).own
    revert hown
    decide +kernel
  · have hown := (hclaim 5 0 ⟨64, by decide⟩ (fun _ => 0)
      ⟨[11, 0, 0, 0, 117, 1, 0, 5, 0, 0, 0], by decide, by decide, rfl⟩).own
    revert hown
    decide +kernel
  · have hfits := (peerRead_faithful_iff ⟨64, by decide⟩ (fun _ => 0)
      ⟨[7, 0, 0, 0, 117, 1, 0], by decide, by decide⟩).mp (hclaim _ _ _)
    exact absurd (hfits rfl).1 (by decide)

end DectMesh.Tools
