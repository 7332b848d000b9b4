import DectMesh.Aether.Drain
import DectMesh.Aether.PeerPort
import Mathlib.Data.List.Flatten

/-! What a drain keeps of the batches that the peer hands out, whatever the mesh
delays: an executed Tread takes its batch off the peer for good. -/
namespace DectMesh.Aether

open DectMesh.Lib DectMesh.Mesh9p

/-- The peer's `dev/mflt`: a Tread is refused, or it hands out a batch of at most
the bytes that the drain asks for. -/
def HandsOut {S : Type} (maxMsg : Nat) (handle : Handler S) : Prop :=
  ∀ msg s, looksLike9pT maxMsg msg = true → typeOf msg = 116 →
    typeOf (handle msg s).1 = 107 ∨ ∃ batch : List UInt8, batch.length ≤ maxMsg - 16 ∧
      (handle msg s).1 = frame 117 (tagOf msg) (leBytes 4 batch.length ++ batch)

/-- What a request takes off the peer: the batch in the Rread to a Tread. -/
def Exchange.batch (e : Exchange) : List UInt8 :=
  if typeOf e.msg = 116 ∧ typeOf e.reply = 117 then e.reply.drop 11 else []

def handedOut (served : List Exchange) : List UInt8 := (served.map Exchange.batch).flatten

def Copy.store (out : List UInt8) (c : Copy) : List UInt8 :=
  out.take c.dst.toNat ++ c.src.take c.len ++ out.drop (c.dst.toNat + c.len)

def Drained.output (cap : Nat) (d : Drained) : List UInt8 :=
  (d.copies.foldl Copy.store (List.replicate cap 0)).take d.total.toNat

/-- Of every executed Tread with something in its batch, the reply came to a call
that wants its tag. -/
def Timely {S : Type} (w : Air S) : Prop :=
  ∀ i < w.served.length, ∀ e ∈ w.served[i]?, e.batch ≠ [] → i ∈ w.answered

instance {S : Type} (w : Air S) : Decidable (Timely w) :=
  inferInstanceAs (Decidable (∀ i < w.served.length, ∀ e ∈ w.served[i]?, _))

theorem handedOut_append (served later : List Exchange) :
    handedOut (served ++ later) = handedOut served ++ handedOut later := by
  simp [handedOut]

theorem handedOut_sublist {kept served : List Exchange} (h : kept.Sublist served) :
    (handedOut kept).Sublist (handedOut served) := (h.map Exchange.batch).flatten

/-! ## The buffer -/

structure Filled (cap : Nat) (d : Drained) (out : List UInt8) : Prop where
  total : d.total = out.length
  room : out.length ≤ cap - 1
  buffer : (d.copies.foldl Copy.store (List.replicate cap 0)).length = cap
  front : (d.copies.foldl Copy.store (List.replicate cap 0)).take out.length = out

theorem Filled.output {cap : Nat} {d : Drained} {out : List UInt8} (h : Filled cap d out) : d.output cap = out := by
  rw [Drained.output, h.total, Int.toNat_natCast]
  exact h.front

theorem filled_start (cap : Nat) : Filled cap .start [] where
  total := rfl
  room := Nat.zero_le _
  buffer := List.length_replicate
  front := rfl

theorem Filled.copy {cap n : Nat} {d : Drained} {out src : List UInt8} (h : Filled cap d out) (hcap : cap < 2147483648)
    (hn : n ≤ src.length) (hroom : out.length + n ≤ cap - 1) : Filled cap (d.copy n src) (out ++ src.take n) := by
  have hlength : (out ++ src.take n).length = out.length + n := by
    rw [List.length_append, List.length_take, Nat.min_eq_left hn]
  have htotal : (d.copy n src).total = ((out.length + n : Nat) : Int) := by
    rw [Drained.copy_total, h.total, cWrap_of_lt (by omega) (by omega)]
    rfl
  have hstore : (d.copy n src).copies.foldl Copy.store (List.replicate cap 0) =
      out ++ src.take n ++ (d.copies.foldl Copy.store (List.replicate cap 0)).drop (out.length + n) := by
    rw [Drained.copy_copies, List.foldl_append, List.foldl_cons, List.foldl_nil, Copy.store, h.total,
      Int.toNat_natCast, h.front]
  have hbuffer := h.buffer
  refine ⟨by rw [hlength]; exact htotal, by omega, ?_, ?_⟩
  · rw [hstore, List.length_append, List.length_drop, hlength, hbuffer]
    have hroom' := h.room
    omega
  · rw [hstore]
    exact List.take_left' rfl

theorem Filled.seen {cap : Nat} {d : Drained} {out : List UInt8} (h : Filled cap d out) (rbuf : List UInt8) :
    Filled cap (d.seen rbuf) out := ⟨h.total, h.room, h.buffer, h.front⟩

theorem Filled.batch {cap : Nat} {d : Drained} {out : List UInt8} (h : Filled cap d out) (hcap : cap < 2147483648)
    (batch : List UInt8) :
    Filled cap (d.copy (min batch.length (cap - 1 - out.length)) batch) (out ++ batch.take (cap - 1 - out.length)) := by
  have hroom := h.room
  have hcopy := h.copy hcap (Nat.min_le_left batch.length (cap - 1 - out.length)) (by omega)
  have hwhole : batch.take (min batch.length (cap - 1 - out.length)) = batch.take (cap - 1 - out.length) := by
    rw [← List.take_take, List.take_of_length_le (List.length_take_le' _ _)]
  rw [hwhole] at hcopy
  exact hcopy

theorem signed_of_room {cap : Nat} {total : Int} (hcap : cap < 4294967296) (htotal : 0 ≤ total)
    (hroom : total < cInt cap - 8) : cap < 2147483648 := by
  by_contra hlarge
  have hneg := cInt_neg_of_le (Nat.not_lt.mp hlarge) hcap
  omega

theorem copyLen_batch (tag : Nat) {cap : Nat} {total : Int} {batch : List UInt8} (hbatch : batch.length < 65536)
    (hcap : cap < 2147483648) (htotal : 0 ≤ total) (hroom : total < cInt cap - 8) :
    copyLen (frame 117 tag (leBytes 4 batch.length ++ batch)) cap total = min batch.length (cap - 1 - total.toNat) := by
  have hcount : rreadCount (frame 117 tag (leBytes 4 batch.length ++ batch)) = batch.length := by
    have hbytes : ((frame 117 tag (leBytes 4 batch.length ++ batch)).drop 7).take 4 = leBytes 4 batch.length := by
      simp [frame, leBytes]
    rw [rreadCount, hbytes]
    exact (leNat_leBytes 4 _).trans (Nat.mod_eq_of_lt (by omega))
  have hlength : (frame 117 tag (leBytes 4 batch.length ++ batch)).length = 11 + batch.length := by
    simp
    omega
  have hreply : clampToReply batch.length (11 + batch.length) = batch.length := by
    unfold clampToReply
    rw [cInt_of_lt (by omega), if_neg (by omega)]
  rw [cInt_of_lt hcap] at hroom
  unfold copyLen clampToRoom
  rw [hcount, hlength, hreply, cInt_of_lt hcap, cInt_of_lt (by omega)]
  split
  · rw [cUInt_of_lt (by omega) (by omega)]
    omega
  · omega

/-! ## One round -/

section

variable {S : Type} {maxMsg cap : Nat} {handle : Handler S}

/-- Executed requests behind the earlier ones, and newly answered numbers among
them: which of them the earlier ones have no say in. -/
theorem timely_append {w w' : Air S} {copies : List Exchange} {fresh : List Nat}
    (hserved : w'.served = w.served ++ copies) (hanswered : w'.answered = w.answered ++ fresh)
    (hpast : w.Past) (hfresh : ∀ i ∈ fresh, w.served.length ≤ i) :
    Timely w' ↔ Timely w ∧ ∀ j e, copies[j]? = some e → e.batch ≠ [] →
      w.served.length + j ∈ fresh := by
  unfold Timely
  rw [hserved, hanswered]
  constructor
  · intro hall
    constructor
    · intro i hi e he hbatch
      have hget : e ∈ (w.served ++ copies)[i]? := by
        rw [List.getElem?_append_left hi]
        exact he
      rcases List.mem_append.mp (hall i (by rw [List.length_append]; omega) e hget hbatch) with hi' | hi'
      · exact hi'
      · have hbehind := hfresh i hi'
        omega
    · intro j e he hbatch
      have hj := (List.getElem?_eq_some_iff.mp he).1
      have hget : (w.served ++ copies)[w.served.length + j]? = some e := by
        rw [List.getElem?_append_right (Nat.le_add_right _ _), Nat.add_sub_cancel_left]
        exact he
      rcases List.mem_append.mp (hall (w.served.length + j) (by rw [List.length_append]; omega) e hget hbatch)
        with hi' | hi'
      · have hbefore := hpast _ hi'
        omega
      · exact hi'
  · rintro ⟨hold, hnew⟩ i hi e he hbatch
    by_cases hbefore : i < w.served.length
    · rw [List.getElem?_append_left hbefore] at he
      exact List.mem_append_left _ (hold i hbefore e he hbatch)
    · rw [List.getElem?_append_right (by omega)] at he
      have hmem := hnew (i - w.served.length) e he hbatch
      rw [Nat.add_sub_cancel' (by omega)] at hmem
      exact List.mem_append_right _ hmem

/-- The output is made of batches that were handed out, in order, unless there was
no room for all of them. -/
def Gathered (cap : Nat) (w : Air S) (out : List UInt8) : Prop :=
  (∃ kept : List Exchange, kept.Sublist w.served ∧ out = handedOut kept) ∨ cap - 1 < (handedOut w.served).length

theorem Gathered.nothing {w w' : Air S} {out : List UInt8} {copies : List Exchange} (h : Gathered cap w out)
    (hserved : w'.served = w.served ++ copies) : Gathered cap w' out := by
  have hmore : w.served.Sublist w'.served := hserved ▸ List.sublist_append_left _ _
  rcases h with ⟨kept, hkept, hout⟩ | hover
  · exact .inl ⟨kept, hkept.trans hmore, hout⟩
  · exact .inr (hover.trans_le (handedOut_sublist hmore).length_le)

theorem Gathered.batch {w w' : Air S} {out : List UInt8} {before after : List Exchange} {e : Exchange}
    (h : Gathered cap w out) (hserved : w'.served = w.served ++ (before ++ e :: after)) :
    Gathered cap w' (out ++ e.batch.take (cap - 1 - out.length)) := by
  rcases h with ⟨kept, hkept, rfl⟩ | hover
  · have hone : [e].Sublist (before ++ e :: after) := by simp
    have hnext : (kept ++ [e]).Sublist w'.served := hserved ▸ hkept.append hone
    have hbatches : handedOut (kept ++ [e]) = handedOut kept ++ e.batch := by
      rw [handedOut_append]
      simp [handedOut]
    by_cases hroom : e.batch.length ≤ cap - 1 - (handedOut kept).length
    · exact .inl ⟨kept ++ [e], hnext, by rw [List.take_of_length_le hroom, hbatches]⟩
    · have hlength := (handedOut_sublist hnext).length_le
      rw [hbatches, List.length_append] at hlength
      exact .inr (by omega)
  · exact .inr (hover.trans_le (handedOut_sublist (hserved ▸ List.sublist_append_left _ _)).length_le)

/-- What the caller has of what the peer handed out: no more, and all of it
exactly if all replies were in time and there was room. -/
structure Accounted (cap : Nat) (d : Drained) (w : Air S) (out : List UInt8) : Prop where
  filled : Filled cap d out
  short : out.length ≤ (handedOut w.served).length
  exact : out = handedOut w.served ↔ Timely w ∧ (handedOut w.served).length ≤ cap - 1
  gathered : Gathered cap w out
  past : w.Past

theorem handedOut_eq_nil {copies : List Exchange} : handedOut copies = [] ↔ ∀ e ∈ copies, e.batch = [] := by
  simp [handedOut]

theorem Accounted.nothing {d : Drained} {w w' : Air S} {out : List UInt8} {copies : List Exchange} {fresh : List Nat}
    (h : Accounted cap d w out) (hserved : w'.served = w.served ++ copies)
    (hanswered : w'.answered = w.answered ++ fresh)
    (hfresh : ∀ i ∈ fresh, ∃ j e, i = w.served.length + j ∧ copies[j]? = some e ∧ e.batch = []) :
    Accounted cap d w' out := by
  have hbehind : ∀ i ∈ fresh, w.served.length ≤ i := by
    intro i hi
    obtain ⟨j, -, rfl, -⟩ := hfresh i hi
    exact Nat.le_add_right _ _
  have htimely := timely_append hserved hanswered h.past hbehind
  have hempty : (∀ j e, copies[j]? = some e → e.batch ≠ [] → w.served.length + j ∈ fresh) ↔
      handedOut copies = [] := by
    rw [handedOut_eq_nil]
    constructor
    · intro hall e he
      obtain ⟨j, hj⟩ := List.getElem?_of_mem he
      by_contra hbatch
      obtain ⟨j', e', heq, hj', hbatch'⟩ := hfresh _ (hall j e hj hbatch)
      have hsame : j = j' := by omega
      rw [hsame, hj'] at hj
      cases hj
      exact hbatch hbatch'
    · intro hall j e hj hbatch
      exact absurd (hall e (List.mem_of_getElem? hj)) hbatch
  rw [hempty] at htimely
  have hhanded : handedOut w'.served = handedOut w.served ++ handedOut copies := by
    rw [hserved, handedOut_append]
  refine ⟨h.filled, ?_, ?_, h.gathered.nothing hserved, ?_⟩
  · rw [hhanded, List.length_append]
    exact h.short.trans (Nat.le_add_right _ _)
  · rw [hhanded, htimely]
    by_cases hnil : handedOut copies = []
    · rw [hnil, List.append_nil, h.exact]
      simp
    · refine iff_of_false (fun heq => ?_) (fun hboth => hnil hboth.1.2)
      have hlength := congrArg List.length heq
      rw [List.length_append] at hlength
      have hpos := List.length_pos_iff.mpr hnil
      have hshort := h.short
      omega
  · intro i hi
    rw [hserved, List.length_append]
    rw [hanswered] at hi
    rcases List.mem_append.mp hi with hi | hi
    · exact (h.past i hi).trans_le (Nat.le_add_right _ _)
    · obtain ⟨j, e, rfl, hj, -⟩ := hfresh i hi
      have hlt := (List.getElem?_eq_some_iff.mp hj).1
      omega

theorem only_middle (before after : List Exchange) (e : Exchange) (start : Nat) :
    (∀ j c, (before ++ e :: after)[j]? = some c → c.batch ≠ [] →
        start + j ∈ [start + before.length]) ↔ handedOut before = [] ∧ handedOut after = [] := by
  rw [handedOut_eq_nil, handedOut_eq_nil]
  constructor
  · intro hall
    constructor
    · intro c hc
      obtain ⟨j, hj⟩ := List.getElem?_of_mem hc
      have hlt := (List.getElem?_eq_some_iff.mp hj).1
      by_contra hbatch
      have hmem := hall j c (by rw [List.getElem?_append_left hlt]; exact hj) hbatch
      have heq := List.mem_singleton.mp hmem
      omega
    · intro c hc
      obtain ⟨j, hj⟩ := List.getElem?_of_mem hc
      have hget : (before ++ e :: after)[before.length + (j + 1)]? = some c := by
        rw [List.getElem?_append_right (Nat.le_add_right _ _), Nat.add_sub_cancel_left, List.getElem?_cons_succ]
        exact hj
      by_contra hbatch
      have heq := List.mem_singleton.mp (hall _ c hget hbatch)
      omega
  · rintro ⟨hnone, hnone'⟩ j c hj hbatch
    rcases Nat.lt_trichotomy j before.length with hlt | rfl | hgt
    · rw [List.getElem?_append_left hlt] at hj
      exact absurd (hnone c (List.mem_of_getElem? hj)) hbatch
    · exact List.mem_singleton_self _
    · rw [List.getElem?_append_right hgt.le] at hj
      obtain ⟨k, hk⟩ : ∃ k, j - before.length = k + 1 := ⟨j - before.length - 1, by omega⟩
      rw [hk, List.getElem?_cons_succ] at hj
      exact absurd (hnone' c (List.mem_of_getElem? hj)) hbatch

theorem Accounted.batch {d d' : Drained} {w w' : Air S} {out : List UInt8} {before after : List Exchange} {e : Exchange}
    (h : Accounted cap d w out) (hserved : w'.served = w.served ++ (before ++ e :: after))
    (hanswered : w'.answered = w.answered ++ [w.served.length + before.length])
    (hfilled : Filled cap d' (out ++ e.batch.take (cap - 1 - out.length))) :
    Accounted cap d' w' (out ++ e.batch.take (cap - 1 - out.length)) := by
  have htimely := timely_append hserved hanswered h.past (fun i hi => by
    rw [List.mem_singleton.mp hi]
    exact Nat.le_add_right _ _)
  have hother := only_middle before after e w.served.length
  have hhanded : handedOut w'.served =
      handedOut w.served ++ (handedOut before ++ (e.batch ++ handedOut after)) := by
    rw [hserved, handedOut_append, handedOut_append]
    rfl
  have hshort := h.short
  have htake : (e.batch.take (cap - 1 - out.length)).length = min (cap - 1 - out.length) e.batch.length :=
    List.length_take
  refine ⟨hfilled, ?_, ?_, h.gathered.batch hserved, ?_⟩
  · rw [hhanded]
    simp only [List.length_append, htake]
    omega
  · rw [hhanded, htimely, hother]
    constructor
    · intro heq
      have hlength := congrArg List.length heq
      simp only [List.length_append, htake] at hlength
      have hroom := hfilled.room
      rw [List.length_append, htake] at hroom
      -- nothing but this batch can be new, and all of it was copied
      have hnone : handedOut before = [] := List.length_eq_zero_iff.mp (by omega)
      have hnone' : handedOut after = [] := List.length_eq_zero_iff.mp (by omega)
      have hwhole : e.batch.take (cap - 1 - out.length) = e.batch := List.take_of_length_le (by omega)
      rw [hnone, hnone', hwhole, List.nil_append, List.append_nil] at heq
      have hold : out = handedOut w.served := List.append_cancel_right heq
      refine ⟨⟨(h.exact.mp hold).1, hnone, hnone'⟩, ?_⟩
      simp only [List.length_append, hnone, hnone', List.length_nil]
      omega
    · rintro ⟨⟨hold, hnone, hnone'⟩, hroom⟩
      simp only [List.length_append, hnone, hnone', List.length_nil] at hroom
      have heq : out = handedOut w.served := h.exact.mpr ⟨hold, by omega⟩
      have hwhole : e.batch.take (cap - 1 - out.length) = e.batch := by
        apply List.take_of_length_le
        rw [heq]
        omega
      rw [hnone, hnone', hwhole, ← heq, List.nil_append, List.append_nil]
  · intro i hi
    rw [hserved, List.length_append, List.length_append, List.length_cons]
    rw [hanswered] at hi
    rcases List.mem_append.mp hi with hi | hi
    · have hlt := h.past i hi
      omega
    · rw [List.mem_singleton.mp hi]
      omega

/-! ## The loop -/

variable {plan : Nat → List Nat}

def TreadReply (tag : Nat) (e : Exchange) (rbuf : List UInt8) : Prop :=
  (typeOf rbuf = 107 ∧ e.batch = []) ∨
    (e.batch.length < 65536 ∧ rbuf = frame 117 tag (leBytes 4 e.batch.length ++ e.batch))

theorem Exchange.Genuine.treadReply {e : Exchange} (h : e.Genuine maxMsg handle) (hmax : maxMsg < 65536)
    (hbatches : HandsOut maxMsg handle) (htype : typeOf e.msg = 116) : TreadReply (tagOf e.msg) e e.reply := by
  obtain ⟨hshape, s, hreply⟩ := h
  rcases hbatches e.msg s hshape htype with hrerror | ⟨batch, hfits, hframe⟩
  · rw [← hreply] at hrerror
    refine .inl ⟨hrerror, ?_⟩
    rw [Exchange.batch, hrerror, if_neg fun hboth => absurd hboth.2 (by decide)]
  · rw [← hreply] at hframe
    have hdrop : e.reply.drop 11 = batch := by
      rw [hframe]
      simp [frame, leBytes]
    have hbatch : e.batch = batch := by
      rw [Exchange.batch, if_pos ⟨htype, by rw [hframe, typeOf_frame]⟩, hdrop]
    rw [TreadReply, hbatch]
    exact .inr ⟨by omega, hframe⟩

/-- A Tread's call: its copies, and the reply to one of them. -/
theorem m9Rpc_tread (hserver : Replies maxMsg handle) (hmax : maxMsg < 65536) (hbatches : HandsOut maxMsg handle)
    {conv : Slot} {tag count : Nat} {w w' : Air S} {r : Option (List UInt8)} (h : Heard maxMsg handle w)
    (htag : tag < 65535) (hearlier : ∀ e ∈ w.served, tagOf e.msg < tag ∨ tagOf e.msg = 65535)
    (hcall : m9Rpc (airPort maxMsg handle plan) conv (tRead tag count) maxMsg w = (r, w')) :
    Heard maxMsg handle w' ∧ ∃ copies, w'.served = w.served ++ copies ∧ (∀ e ∈ copies, tagOf e.msg = tag) ∧
      match r with
      | none => w'.answered = w.answered
      | some rbuf => ∃ before e after, copies = before ++ e :: after ∧
          w'.answered = w.answered ++ [w.served.length + before.length] ∧ TreadReply tag e rbuf := by
  have hmsg : tagOf (tRead tag count) = tag := (tagOf_frame _ _ _).trans (Nat.mod_eq_of_lt (by omega))
  obtain ⟨hheard, ⟨copies, hserved, hcopies⟩, hanswered⟩ := m9Rpc_air hserver hmax h hcall
  refine ⟨hheard, copies, hserved, fun e he => by rw [hcopies e he, hmsg], ?_⟩
  rw [hmsg] at hanswered
  cases r with
  | none => exact hanswered
  | some rbuf =>
    obtain ⟨i, e, hanswer, hi, hwant, hrbuf⟩ := hanswered
    rw [hserved] at hi
    -- the tag tells this call's copies from the earlier requests
    have hbehind : w.served.length ≤ i := by
      by_contra hbefore
      rw [List.getElem?_append_left (by omega)] at hi
      rcases hearlier e (List.mem_of_getElem? hi) with hless | hversion <;> omega
    rw [List.getElem?_append_right hbehind] at hi
    obtain ⟨hlt, hget⟩ := List.getElem?_eq_some_iff.mp hi
    have hmem : e ∈ copies := List.mem_of_getElem? hi
    have hgenuine := hheard.served e (hserved ▸ List.mem_append_right _ hmem)
    have htype : typeOf e.msg = 116 := by
      rw [hcopies e hmem, tRead, typeOf_frame]
    refine ⟨copies.take (i - w.served.length), e, copies.drop (i - w.served.length + 1), ?_, ?_, ?_⟩
    · rw [← hget, List.getElem_cons_drop, List.take_append_drop]
    · have hindex : w.served.length + (copies.take (i - w.served.length)).length = i := by
        rw [List.length_take]
        omega
      rw [hindex]
      exact hanswer
    · rw [hrbuf, List.take_of_length_le (hgenuine.size hserver).2, ← hwant]
      exact hgenuine.treadReply hmax hbatches htype

theorem isRread_rerror {rbuf : List UInt8} (h : typeOf rbuf = 107) : isRread rbuf = false := by
  rw [isRread, h]
  simp

theorem isRread_frame (tag : Nat) (batch : List UInt8) :
    isRread (frame 117 tag (leBytes 4 batch.length ++ batch)) = true := by
  simp [isRread]
  omega

theorem drainLoop_accounted (hserver : Replies maxMsg handle) (hmax : maxMsg < 65536)
    (hbatches : HandsOut maxMsg handle) (hcap : cap < 4294967296) {conv : Slot} {rounds tag : Nat} {d : Drained}
    {w : Air S} {out : List UInt8} (hheard : Heard maxMsg handle w) (haccount : Accounted cap d w out)
    (hearlier : ∀ e ∈ w.served, tagOf e.msg < tag ∨ tagOf e.msg = 65535) (hrounds : tag + rounds ≤ 65535) :
    ∃ out', Accounted cap (drainLoop (airPort maxMsg handle plan) maxMsg conv cap rounds tag d w).1
      (drainLoop (airPort maxMsg handle plan) maxMsg conv cap rounds tag d w).2 out' := by
  induction rounds generalizing tag d w out with
  | zero => exact ⟨out, haccount⟩
  | succ rounds ih =>
    unfold drainLoop
    split
    · rename_i hroom
      have htotal := haccount.filled.total
      have hsigned := signed_of_room hcap (by omega) hroom
      cases hcall : m9Rpc (airPort maxMsg handle plan) conv (tRead tag (cUInt (maxMsg - 16))) maxMsg w with
      | mk r next =>
        obtain ⟨hnext, copies, hserved, hcopies, hanswered⟩ :=
          m9Rpc_tread hserver hmax hbatches hheard (by omega) hearlier hcall
        cases r with
        | none =>
          have hnone : next.answered = w.answered ++ [] := by
            rw [List.append_nil]
            exact hanswered
          exact ⟨out, haccount.nothing hserved hnone fun i hi => absurd hi List.not_mem_nil⟩
        | some rbuf =>
          obtain ⟨before, e, after, rfl, hnumber, hreply⟩ := hanswered
          rcases hreply with ⟨hrerror, hbatch⟩ | ⟨hsmall, rfl⟩
          · dsimp only
            rw [if_neg (by rw [isRread_rerror hrerror]; decide)]
            refine ⟨out, haccount.nothing hserved hnumber fun i hi => ?_⟩
            exact ⟨before.length, e, List.mem_singleton.mp hi, by simp, hbatch⟩
          · have hlen := copyLen_batch tag hsmall hsigned (by omega) hroom
            rw [htotal, Int.toNat_natCast] at hlen
            rw [htotal, cInt_of_lt hsigned] at hroom
            have hseen := haccount.filled.seen (frame 117 tag (leBytes 4 e.batch.length ++ e.batch))
            dsimp only
            rw [if_pos (isRread_frame tag e.batch), htotal, hlen]
            by_cases hempty : min e.batch.length (cap - 1 - out.length) = 0
            · have hbatch : e.batch = [] := List.length_eq_zero_iff.mp (by omega)
              rw [if_pos hempty]
              have haccount' : Accounted cap _ w out :=
                ⟨hseen, haccount.short, haccount.exact, haccount.gathered, haccount.past⟩
              refine ⟨out, haccount'.nothing hserved hnumber fun i hi => ?_⟩
              exact ⟨before.length, e, List.mem_singleton.mp hi, by simp, hbatch⟩
            · have hdrop : (frame 117 tag (leBytes 4 e.batch.length ++ e.batch)).drop 11 = e.batch := by
                simp [frame, leBytes]
              have hfilled := hseen.batch hsigned e.batch
              rw [if_neg hempty, hdrop]
              apply ih hnext (haccount.batch hserved hnumber hfilled)
              · intro c hc
                rw [hserved] at hc
                rcases List.mem_append.mp hc with hc | hc
                · rcases hearlier c hc with hless | hversion
                  · exact .inl (by omega)
                  · exact .inr hversion
                · exact .inl (by rw [hcopies c hc]; omega)
              · omega
    · exact ⟨out, haccount⟩

theorem openRequests_tags {file : List UInt8} {mode : UInt8} {request : List UInt8 × UInt8}
    (h : request ∈ openRequests maxMsg 1 file mode) : tagOf request.1 < 4 ∨ tagOf request.1 = 65535 := by
  simp only [openRequests, List.mem_cons, List.not_mem_nil, or_false] at h
  rcases h with rfl | rfl | rfl | rfl <;> simp [tVersion, tAttach, tWalk, tOpen, tagOf_frame]

theorem accounted_start {w : Air S} (hpast : w.Past) (hreads : ∀ e ∈ w.served, e.batch = []) :
    Accounted cap .start w [] := by
  have hnothing : handedOut w.served = [] := handedOut_eq_nil.mpr hreads
  refine ⟨filled_start cap, Nat.zero_le _, ?_, .inl ⟨[], List.nil_sublist _, rfl⟩, hpast⟩
  rw [hnothing]
  refine iff_of_true rfl ⟨fun i _ e he hbatch => ?_, Nat.zero_le _⟩
  exact absurd (hreads e (List.mem_of_getElem? he)) hbatch

theorem drainSession_accounted (hserver : Replies maxMsg handle) (hmax : maxMsg < 65536)
    (hbatches : HandsOut maxMsg handle) (hcap : cap < 4294967296) (plan : Nat → List Nat) (conv : Slot) {w : Air S}
    (hquiet : w.Quiet) :
    ∃ out, Accounted cap (drainSession (airPort maxMsg handle plan) maxMsg conv cap w).1
      (drainSession (airPort maxMsg handle plan) maxMsg conv cap w).2 out := by
  unfold drainSession m9OpenDevfile
  cases hsteps : m9Steps (airPort maxMsg handle plan) maxMsg conv (openRequests maxMsg 1 mfltName 0) 1 w with
  | mk step next =>
    have hpast : w.Past := by
      intro i hi
      rw [hquiet.answered] at hi
      cases hi
    obtain ⟨hheard, hnext, copies, hserved, hcopies⟩ := m9Steps_air hserver hmax hquiet.heard hpast hsteps
    rw [hquiet.served, List.nil_append] at hserved
    have hreads : ∀ e ∈ next.served, e.batch = [] := by
      intro e he
      obtain ⟨request, hmem, heq⟩ := hcopies e (hserved ▸ he)
      rw [Exchange.batch, heq]
      exact if_neg fun hboth => (openRequests_types hmem).1 hboth.1
    have hearlier : ∀ e ∈ next.served, tagOf e.msg < 4 ∨ tagOf e.msg = 65535 := by
      intro e he
      obtain ⟨request, hmem, heq⟩ := hcopies e (hserved ▸ he)
      rw [heq]
      exact openRequests_tags hmem
    have hstart : Accounted cap .start next [] := accounted_start hnext hreads
    dsimp only
    by_cases hstep : step = 0
    · rw [if_pos hstep, if_pos hstep]
      exact drainLoop_accounted hserver hmax hbatches hcap hheard hstart hearlier (by decide)
    · rw [if_neg hstep]
      exact ⟨[], hstart⟩

/-- Every drain, whatever the mesh delays: its output is all that the executed
Treads handed out exactly if the reply of each came to a call that wants its
tag, or has nothing in it, and the batches together leave a byte of the buffer
free. -/
theorem drain_keeps_all_iff (hserver : Replies maxMsg handle) (hmax : maxMsg < 65536)
    (hbatches : HandsOut maxMsg handle) (hcap : cap < 4294967296) (eui : Addr) {w : Air S} (hquiet : w.Quiet) :
    (drainPeer (airPort maxMsg handle plan) maxMsg eui cap w).1.output cap =
        handedOut (drainPeer (airPort maxMsg handle plan) maxMsg eui cap w).2.served ↔
      Timely (drainPeer (airPort maxMsg handle plan) maxMsg eui cap w).2 ∧
        (handedOut (drainPeer (airPort maxMsg handle plan) maxMsg eui cap w).2.served).length ≤ cap - 1 := by
  have halloc : (airPort maxMsg handle plan).convAlloc w = (w.slot, w) := rfl
  unfold drainPeer
  rw [halloc]
  cases hslot : w.slot with
  | none =>
    have hserved := hquiet.served
    refine iff_of_true ?_ ⟨fun i hi => ?_, ?_⟩
    · rw [hserved]
      rfl
    · rw [hserved] at hi
      cases hi
    · rw [hserved]
      exact Nat.zero_le _
  | some conv =>
    have hconnected : ((airPort maxMsg handle plan).connect conv eui w).Quiet :=
      ⟨hquiet.flight, hquiet.inbox, hquiet.served, hquiet.answered⟩
    obtain ⟨out, haccount⟩ := drainSession_accounted hserver hmax hbatches hcap plan conv hconnected
    rw [← haccount.filled.output] at haccount
    exact haccount.exact

end

theorem samplePeer_handsOut (refused : UInt8) : HandsOut 512 (samplePeer refused) := by
  intro msg batches _ htype
  by_cases hrefused : typeOf msg = refused
  · refine .inl ?_
    rw [samplePeer, if_pos hrefused, typeOf_frame]
  · refine .inr ⟨(batches.headD []).take 496, List.length_take_le _ _, ?_⟩
    rw [samplePeer, if_neg hrefused, htype]
    rfl

theorem Air.fresh_quiet {S : Type} (server : S) : (Air.fresh server).Quiet := ⟨rfl, rfl, rfl, rfl⟩

theorem drain_keeps_two_batches :
    let drained := drainPeer (airPort 512 (samplePeer 0) prompt) 512 ⟨[2, 0, 0, 0, 0, 7], rfl⟩ 64 (.fresh [[1, 2], [3]])
    drained.1.output 64 = handedOut drained.2.served ∧ handedOut drained.2.served = [1, 2, 3] := by
  intro drained
  exact ⟨(drain_keeps_all_iff (samplePeer_replies 0) (by decide) (samplePeer_handsOut 0) (by decide) _
    (Air.fresh_quiet _)).mpr (by decide +kernel), by decide +kernel⟩

/-- The reply to the first Tread is late: the Tread is sent once more, and the
second copy's batch is lost. -/
theorem drain_loses_resent_batch :
    let drained := drainPeer (airPort 512 (samplePeer 0) fun wait => if wait = 4 then [] else [0, 0]) 512
      ⟨[2, 0, 0, 0, 0, 7], rfl⟩ 64 (.fresh [[1, 2], [3]])
    drained.1.output 64 ≠ handedOut drained.2.served := by
  decide +kernel

end DectMesh.Aether
