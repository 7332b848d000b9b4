import Mathlib.Algebra.GroupWithZero.Nat
import Mathlib.Data.List.Basic

/-! The two tools that stream a file to a path: `put` in one pass, the mesh OTA
in passes that resume before the place where the last one ended. -/
namespace DectMesh.Tools

structure Stored where
  off : Nat
  pos : Nat
  len : Nat

/-- What comes of a write: a count, with as many bytes stored, or an error, with
the beginning that was stored before the reply was lost. -/
inductive WriteResult where
  | wrote (w : Nat)
  | failed (stored : Nat)

/-- The file position, the target's offset, and what was stored. `short` is
history: where the first short write ended. -/
structure Cursor where
  pos : Nat
  off : Nat
  stores : List Stored
  short : Option Nat

def Cursor.from (start : Nat) : Cursor := ⟨start, start, [], none⟩

def Cursor.store (c : Cursor) (len : Nat) : Cursor := { c with stores := c.stores ++ [⟨c.off, c.pos, len⟩] }

/-- `off += w`, behind a read of `r` bytes. -/
def Cursor.advance (c : Cursor) (r w : Nat) : Cursor where
  pos := c.pos + r
  off := c.off + w
  stores := c.stores
  short := if c.short = none ∧ w < r then some (c.off + w) else c.short

theorem Cursor.advance_short (c : Cursor) (r w : Nat) :
    (c.advance r w).short = none ↔ c.short = none ∧ r ≤ w := by
  simp only [Cursor.advance]
  split
  · exact iff_of_false nofun (by omega)
  · rename_i hnot
    exact ⟨fun hnone => ⟨hnone, Nat.le_of_not_lt fun hlt => hnot ⟨hnone, hlt⟩⟩, fun hnone => hnone.1⟩

/-- `do_pwrite` of `r` bytes until it comes through, with so many tries left. -/
def pwriteTries (results : Nat → WriteResult) (r : Nat) : Nat → Nat → Cursor → Cursor × Option Nat
  | 0, _, c => (c, none)
  | left + 1, attempt, c =>
      match results attempt with
      | .wrote w => (c.store (min w r), some (min w r))
      | .failed stored => pwriteTries results r left (attempt + 1) (c.store (min stored r))

def streamLoop (tries : Nat) (results : Nat → Nat → WriteResult) : List Nat → Nat → Cursor → Cursor × Bool
  | [], _, c => (c, false)
  | r :: reads, k, c =>
      match pwriteTries (results k) r tries 0 c with
      | (c, none) => (c, true)
      | (c, some w) => streamLoop tries results reads (k + 1) (c.advance r w)

def freads (chunk left : Nat) : List Nat :=
  List.replicate (left / chunk) chunk ++ if left % chunk = 0 then [] else [left % chunk]

def usedChunk (most : Int) (chunk : Int) : Nat := if chunk ≤ 0 ∨ chunk > most then 1024 else chunk.toNat

def putReads (chunk : Int) (n : Nat) : List Nat := freads (usedChunk (8192 - 64) chunk) n

def putStream (chunk : Int) (n : Nat) (results : Nat → WriteResult) : Cursor × Bool :=
  streamLoop 1 (fun k _ => results k) (putReads chunk n) 0 (.from 0)

/-- `do_put` of a file of `n` bytes, up to its `[ok]`. -/
def doPut (chunk : Int) (n : Nat) (opened : Bool) (results : Nat → WriteResult) : Option (List Stored) :=
  if opened then
    if (putStream chunk n results).2 then none else some (putStream chunk n results).1.stores
  else none

/-- A pass: whether the target was set and the path opened, and the results of
its writes by block and attempt. -/
structure PassInput where
  opened : Bool
  results : Nat → Nat → WriteResult

/-- Where a pass began and ended, up to where it put every byte in its place,
and what it stored. -/
structure Pass where
  start : Nat
  clean : Nat
  finish : Nat
  stores : List Stored

def Cursor.clean (c : Cursor) : Nat := c.short.getD c.off

/-- `off > 16384 ? off - 16384 : 0` -/
def backUp (off : Nat) : Nat := if off > 16384 then off - 16384 else 0

def passOf (chunk n : Nat) (input : PassInput) (resumeOff : Nat) : Pass × Bool :=
  let streamed := streamLoop 15 input.results (freads chunk (n - resumeOff)) 0 (.from resumeOff)
  (⟨resumeOff, streamed.1.clean, streamed.1.off, streamed.1.stores⟩, streamed.2)

def meshPasses (chunk n : Nat) : List PassInput → Nat → List Pass × Bool
  | [], _ => ([], false)
  | input :: rest, resumeOff =>
      if input.opened then
        let pass := passOf chunk n input resumeOff
        if pass.2 = false ∧ pass.1.finish ≥ n then ([pass.1], true)
        else
          let later := meshPasses chunk n rest (backUp pass.1.finish)
          (pass.1 :: later.1, later.2)
      else meshPasses chunk n rest resumeOff

/-- `do_mesh_ota` of a file of `n` bytes, up to `completed`. -/
def doMeshOta (chunk : Int) (n : Nat) (attached : Bool) (inputs : List PassInput) : List Pass × Bool :=
  if attached then meshPasses (usedChunk 1024 chunk) n inputs 0 else ([], false)

/-! ## What the target holds -/

def serverStore (file : List UInt8) (target : Nat → Option UInt8) (s : Stored) : Nat → Option UInt8 :=
  fun i => if s.off ≤ i ∧ i < s.off + s.len then file[s.pos + (i - s.off)]? else target i

def targetOf (file : List UInt8) (before : Nat → Option UInt8) (stores : List Stored) : Nat → Option UInt8 :=
  stores.foldl (serverStore file) before

def Placed (file : List UInt8) (target : Nat → Option UInt8) : Prop :=
  ∀ i, i < file.length → target i = file[i]?

section

variable (before : Nat → Option UInt8)

/-- If `put` prints `[ok]`, every byte is in its place. -/
def PutPlaces (chunk : Int) (n : Nat) (opened : Bool) (results : Nat → WriteResult) : Prop :=
  ∀ file : List UInt8, file.length = n → ∀ stores, doPut chunk n opened results = some stores →
    Placed file (targetOf file before stores)

/-- If the OTA completes, every byte is in its place. -/
def MeshPlaces (chunk : Int) (n : Nat) (attached : Bool) (inputs : List PassInput) : Prop :=
  ∀ file : List UInt8, file.length = n → (doMeshOta chunk n attached inputs).2 = true →
    Placed file (targetOf file before ((doMeshOta chunk n attached inputs).1.flatMap (·.stores)))

end

def AllWritten (results : Nat → WriteResult) : List Nat → Nat → Prop
  | [], _ => True
  | _ :: reads, k => (∃ w, results k = .wrote w) ∧ AllWritten results reads (k + 1)

def NoneShort (results : Nat → WriteResult) : List Nat → Nat → Prop
  | [], _ => True
  | r :: reads, k => (∀ w, results k = .wrote w → r ≤ w) ∧ NoneShort results reads (k + 1)

/-- Where bytes were accepted behind a short write, a later pass resumes at or
before the place where that write ended. -/
def Repaired : List Pass → Prop
  | [] => True
  | pass :: later => (pass.clean < pass.finish → ∃ next ∈ later, next.start ≤ pass.clean) ∧ Repaired later

instance Repaired.decidable : ∀ ps, Decidable (Repaired ps)
  | [] => .isTrue trivial
  | _ :: later =>
      have := Repaired.decidable later
      inferInstanceAs (Decidable (_ ∧ _))

theorem targetOf_append (file : List UInt8) (before : Nat → Option UInt8) (stores more : List Stored) :
    targetOf file before (stores ++ more) = targetOf file (targetOf file before stores) more :=
  List.foldl_append

theorem targetOf_outside {file : List UInt8} {before : Nat → Option UInt8} {stores : List Stored} {i : Nat}
    (h : ∀ s ∈ stores, i < s.off ∨ s.off + s.len ≤ i) : targetOf file before stores i = before i := by
  induction stores generalizing before with
  | nil => rfl
  | cons s rest ih =>
    rw [List.forall_mem_cons] at h
    have hrest : targetOf file before (s :: rest) i = targetOf file (serverStore file before s) rest i := rfl
    rw [hrest, ih h.2, serverStore, if_neg (by omega)]

theorem targetOf_last {file : List UInt8} {before : Nat → Option UInt8} (stores : List Stored) {s : Stored}
    {i : Nat} (hfrom : s.off ≤ i) (hto : i < s.off + s.len) :
    targetOf file before (stores ++ [s]) i = file[s.pos + (i - s.off)]? := by
  rw [targetOf_append]
  exact if_pos ⟨hfrom, hto⟩

/-! ## One pass -/

structure Streamed (n start : Nat) (c : Cursor) : Prop where
  start_le : start ≤ c.clean
  clean_le : c.clean ≤ c.off
  pos_le : c.pos ≤ n
  even : c.short = none → c.off = c.pos
  behind : c.short ≠ none → c.off < c.pos
  above : ∀ s ∈ c.stores, start ≤ s.off
  placed : ∀ (file : List UInt8) before i, start ≤ i → i < c.clean →
    targetOf file before c.stores i = file[i]?
  misplaced : c.clean < c.off → ∃ q, c.clean < q ∧ q < n ∧
    ∀ (file : List UInt8) before, targetOf file before c.stores c.clean = file[q]?

theorem streamed_from {n start : Nat} (h : start ≤ n) : Streamed n start (.from start) :=
  ⟨Nat.le_refl _, Nat.le_refl _, h, fun _ => rfl, fun h => absurd rfl h, nofun,
    fun _ _ _ hfrom hto => absurd hto (Nat.not_lt.mpr hfrom), fun h => absurd h (Nat.lt_irrefl _)⟩

theorem Streamed.store {n start : Nat} {c : Cursor} (h : Streamed n start c) (len : Nat) :
    Streamed n start (c.store len) := by
  have hstart := h.start_le
  have hclean := h.clean_le
  have hbelow : ∀ (file : List UInt8) before i, i < c.off →
      targetOf file before (c.store len).stores i = targetOf file before c.stores i := by
    intro file before i hi
    rw [Cursor.store, targetOf_append]
    exact targetOf_outside fun s hs => by rw [List.mem_singleton.mp hs]; exact .inl hi
  refine ⟨h.start_le, h.clean_le, h.pos_le, h.even, h.behind, ?_, ?_, ?_⟩
  · intro s hs
    rcases List.mem_append.mp hs with hbefore | hnew
    · exact h.above s hbefore
    · rw [List.mem_singleton.mp hnew]
      exact Nat.le_trans hstart hclean
  · intro file before i hfrom hto
    have hto : i < c.clean := hto
    rw [hbelow file before i (by omega)]
    exact h.placed file before i hfrom hto
  · intro hlt
    obtain ⟨q, hq, hqn, htarget⟩ := h.misplaced hlt
    refine ⟨q, hq, hqn, fun file before => ?_⟩
    exact (hbelow file before c.clean hlt).trans (htarget file before)

/-- While the offset is the file position, a write puts its bytes in their place. -/
theorem Streamed.advance_even {n start r w : Nat} {c : Cursor} (h : Streamed n start c) (hshort : c.short = none)
    (hroom : c.pos + r ≤ n) (hw : w ≤ r) : Streamed n start ((c.store w).advance r w) := by
  have hstored := h.store w
  have hstart := h.start_le
  have heven := h.even hshort
  have hclean : c.clean = c.off := by rw [Cursor.clean, hshort]; rfl
  have hnext : ((c.store w).advance r w).clean = c.off + w := by
    simp only [Cursor.clean, Cursor.advance, Cursor.store, hshort, true_and]
    split <;> rfl
  have hplaced : ∀ (file : List UInt8) before i, start ≤ i → i < c.off + w →
      targetOf file before (c.store w).stores i = file[i]? := by
    intro file before i hfrom hto
    by_cases hi : i < c.off
    · exact hstored.placed file before i hfrom (hclean ▸ hi)
    · have htarget : targetOf file before (c.store w).stores i = file[c.pos + (i - c.off)]? :=
        targetOf_last c.stores (Nat.le_of_not_lt hi) hto
      rw [htarget]
      congr 1
      omega
  refine ⟨by omega, Nat.le_of_eq hnext, hroom, ?_, ?_, hstored.above, ?_, ?_⟩
  · intro hnone
    simp only [Cursor.advance, Cursor.store, hshort, true_and] at hnone ⊢
    split at hnone
    · cases hnone
    · omega
  · intro hsome
    simp only [Cursor.advance, Cursor.store, hshort, true_and] at hsome ⊢
    split at hsome
    · omega
    · exact absurd rfl hsome
  · rw [hnext]
    exact hplaced
  · intro hlt
    rw [hnext] at hlt
    exact absurd hlt (Nat.lt_irrefl _)

/-- Behind the first short write the bytes come from further on in the file. -/
theorem Streamed.advance_behind {n start r w o : Nat} {c : Cursor} (h : Streamed n start c)
    (hshort : c.short = some o) (hr : 0 < r) (hroom : c.pos + r ≤ n) (hw : w ≤ r) :
    Streamed n start ((c.store w).advance r w) := by
  have hstored := h.store w
  have hstart := h.start_le
  have hbehind := h.behind (by rw [hshort]; nofun)
  have hclean : c.clean = o := by rw [Cursor.clean, hshort]; rfl
  have hle := h.clean_le
  have hnext : ((c.store w).advance r w).short = some o := by
    simp [Cursor.advance, Cursor.store, hshort]
  have hnextClean : ((c.store w).advance r w).clean = o := by rw [Cursor.clean, hnext]; rfl
  have hoff : ((c.store w).advance r w).off = c.off + w := rfl
  have hpos : ((c.store w).advance r w).pos = c.pos + r := rfl
  refine ⟨by omega, by omega, hroom, ?_, by omega, hstored.above, ?_, ?_⟩
  · rw [hnext]
    nofun
  · rw [hnextClean, ← hclean]
    exact hstored.placed
  · intro hlt
    rw [hnextClean]
    by_cases hbefore : o < c.off
    · obtain ⟨q, hq, hqn, htarget⟩ := hstored.misplaced (show c.clean < c.off by omega)
      exact ⟨q, hclean ▸ hq, hqn, fun file before => hclean ▸ htarget file before⟩
    · have hto : o < c.off + w := by omega
      refine ⟨c.pos, by omega, by omega, fun file before => ?_⟩
      have htarget : targetOf file before (c.store w).stores o = file[c.pos + (o - c.off)]? :=
        targetOf_last c.stores (Nat.le_of_not_lt hbefore) hto
      rwa [show c.pos + (o - c.off) = c.pos by omega] at htarget

theorem Streamed.advance {n start r w : Nat} {c : Cursor} (h : Streamed n start c) (hr : 0 < r)
    (hroom : c.pos + r ≤ n) (hw : w ≤ r) : Streamed n start ((c.store w).advance r w) := by
  cases hshort : c.short with
  | none => exact h.advance_even hshort hroom hw
  | some o => exact h.advance_behind hshort hr hroom hw

theorem streamed_tries {n start r : Nat} (results : Nat → WriteResult) (left attempt : Nat) {c : Cursor}
    (h : Streamed n start c) (hr : 0 < r) (hroom : c.pos + r ≤ n) :
    match pwriteTries results r left attempt c with
    | (c', none) => Streamed n start c' ∧ c'.pos = c.pos
    | (c', some w) => Streamed n start (c'.advance r w) ∧ c'.pos = c.pos := by
  induction left generalizing attempt c with
  | zero => exact ⟨h, rfl⟩
  | succ left ih =>
    rw [pwriteTries]
    cases results attempt with
    | wrote w => exact ⟨h.advance hr hroom (Nat.min_le_right _ _), rfl⟩
    | failed stored => exact ih (attempt + 1) (h.store _) hroom

theorem streamed_loop {n start tries : Nat} (results : Nat → Nat → WriteResult) {reads : List Nat} (k : Nat)
    {c : Cursor} (h : Streamed n start c) (hreads : ∀ r ∈ reads, 0 < r) (hend : c.pos + reads.sum = n) :
    Streamed n start (streamLoop tries results reads k c).1 ∧
      ((streamLoop tries results reads k c).2 = false → (streamLoop tries results reads k c).1.pos = n) := by
  induction reads generalizing k c with
  | nil => exact ⟨h, fun _ => hend⟩
  | cons r reads ih =>
    rw [List.forall_mem_cons] at hreads
    rw [List.sum_cons] at hend
    have htries := streamed_tries (results k) tries 0 h hreads.1 (by omega)
    rw [streamLoop]
    revert htries
    cases pwriteTries (results k) r tries 0 c with
    | mk c' accepted =>
      cases accepted with
      | none =>
        rintro ⟨hstalled, -⟩
        exact ⟨hstalled, nofun⟩
      | some w =>
        rintro ⟨hstreamed, hpos⟩
        refine ih (k + 1) hstreamed hreads.2 ?_
        have hadvance : (c'.advance r w).pos = c'.pos + r := rfl
        rw [hadvance, hpos]
        omega

theorem freads_pos {chunk : Nat} (hchunk : 0 < chunk) (left : Nat) : ∀ r ∈ freads chunk left, 0 < r := by
  intro r hr
  rcases List.mem_append.mp hr with hwhole | hrest
  · rw [List.eq_of_mem_replicate hwhole]
    exact hchunk
  · split at hrest
    · cases hrest
    · rw [List.mem_singleton.mp hrest]
      omega

theorem freads_sum (chunk left : Nat) : (freads chunk left).sum = left := by
  have hdiv := Nat.div_add_mod' left chunk
  rw [freads, List.sum_append, List.sum_replicate_nat]
  split
  · rw [List.sum_nil]
    omega
  · rw [List.sum_singleton]
    exact hdiv

theorem usedChunk_pos (most chunk : Int) : 0 < usedChunk most chunk := by
  unfold usedChunk
  split <;> omega

theorem streamed_pass {n start chunk tries : Nat} (hchunk : 0 < chunk) (hstart : start ≤ n)
    (results : Nat → Nat → WriteResult) :
    Streamed n start (streamLoop tries results (freads chunk (n - start)) 0 (.from start)).1 ∧
      ((streamLoop tries results (freads chunk (n - start)) 0 (.from start)).2 = false →
        (streamLoop tries results (freads chunk (n - start)) 0 (.from start)).1.pos = n) := by
  refine streamed_loop results 0 (streamed_from hstart) (freads_pos hchunk _) ?_
  have hpos : (Cursor.from start).pos = start := rfl
  rw [freads_sum, hpos]
  omega

theorem Streamed.clean_eq {n start : Nat} {c : Cursor} (h : Streamed n start c) (hend : n ≤ c.off) :
    c.clean = n := by
  have hpos := h.pos_le
  cases hshort : c.short with
  | none =>
    have heven := h.even hshort
    rw [Cursor.clean, hshort, Option.getD_none]
    omega
  | some o =>
    have hbehind := h.behind (by rw [hshort]; nofun)
    omega

theorem Streamed.off_le {n start : Nat} {c : Cursor} (h : Streamed n start c) : c.off ≤ n := by
  have hpos := h.pos_le
  by_cases hshort : c.short = none
  · have heven := h.even hshort
    omega
  · have hbehind := h.behind hshort
    omega

/-! ## `put` -/

theorem put_stalls_iff (results : Nat → WriteResult) (reads : List Nat) (k : Nat) (c : Cursor) :
    (streamLoop 1 (fun k _ => results k) reads k c).2 = false ↔ AllWritten results reads k := by
  induction reads generalizing k c with
  | nil => exact iff_of_true rfl trivial
  | cons r reads ih =>
    cases hresult : results k with
    | wrote w =>
      simp only [streamLoop, pwriteTries, hresult, AllWritten]
      rw [ih]
      exact (and_iff_right ⟨w, rfl⟩).symm
    | failed stored =>
      simp only [streamLoop, pwriteTries, hresult, AllWritten]
      exact iff_of_false nofun nofun

theorem put_short_iff {results : Nat → WriteResult} {reads : List Nat} {k : Nat} (h : AllWritten results reads k)
    (c : Cursor) : (streamLoop 1 (fun k _ => results k) reads k c).1.short = none ↔
      c.short = none ∧ NoneShort results reads k := by
  induction reads generalizing k c with
  | nil => exact (and_iff_left trivial).symm
  | cons r reads ih =>
    obtain ⟨⟨w, hw⟩, hrest⟩ := h
    have hadvance : ((c.store (min w r)).advance r (min w r)).short = none ↔ c.short = none ∧ r ≤ w := by
      rw [Cursor.advance_short, show r ≤ min w r ↔ r ≤ w by omega]
      rfl
    have hshort : (∀ w', results k = .wrote w' → r ≤ w') ↔ r ≤ w :=
      ⟨fun hall => hall w hw, fun hle w' hw' => by cases hw.symm.trans hw'; exact hle⟩
    simp only [streamLoop, pwriteTries, hw]
    rw [ih hrest, NoneShort, hshort, hadvance, and_assoc]

theorem put_stores_below {results : Nat → WriteResult} {reads : List Nat} {k : Nat}
    (h : AllWritten results reads k) {c : Cursor} (hc : ∀ s ∈ c.stores, s.off + s.len ≤ c.off) :
    ∀ s ∈ (streamLoop 1 (fun k _ => results k) reads k c).1.stores,
      s.off + s.len ≤ (streamLoop 1 (fun k _ => results k) reads k c).1.off := by
  induction reads generalizing k c with
  | nil => exact hc
  | cons r reads ih =>
    obtain ⟨⟨w, hw⟩, hrest⟩ := h
    simp only [streamLoop, pwriteTries, hw]
    refine ih hrest fun s hs => ?_
    have hoff : ((c.store (min w r)).advance r (min w r)).off = c.off + min w r := rfl
    rw [hoff]
    rcases List.mem_append.mp hs with hbefore | hnew
    · have hle := hc s hbefore
      omega
    · have hs := List.mem_singleton.mp hnew
      subst hs
      exact Nat.le_refl _

theorem exists_other (held : Option UInt8) : ∃ b : UInt8, held ≠ some b := by
  by_cases h : held = some 0
  · exact ⟨1, by rw [h]; decide⟩
  · exact ⟨0, h⟩

theorem streamed_put (chunk : Int) (n : Nat) (results : Nat → WriteResult) :
    Streamed n 0 (putStream chunk n results).1 ∧
      ((putStream chunk n results).2 = false → (putStream chunk n results).1.pos = n) := by
  have hpass := @streamed_pass n 0 _ 1 (usedChunk_pos (8192 - 64) chunk) (Nat.zero_le n) fun k _ => results k
  rwa [Nat.sub_zero] at hpass

/-- It ends in front of what it read exactly if a write was short. -/
theorem put_places_iff (before : Nat → Option UInt8) (chunk : Int) (n : Nat) (opened : Bool)
    (results : Nat → WriteResult) : PutPlaces before chunk n opened results ↔
      (opened = true → AllWritten results (putReads chunk n) 0 → NoneShort results (putReads chunk n) 0) := by
  cases opened with
  | false => exact iff_of_true nofun nofun
  | true =>
    obtain ⟨hstreamed, hend⟩ := streamed_put chunk n results
    have hstalls : (putStream chunk n results).2 = false ↔ AllWritten results (putReads chunk n) 0 :=
      put_stalls_iff results (putReads chunk n) 0 (.from 0)
    constructor
    · intro hplaces _ hwritten
      have hnot := hstalls.mpr hwritten
      have hput : doPut chunk n true results = some (putStream chunk n results).1.stores := by
        simp only [doPut, hnot, if_pos, Bool.false_eq_true, if_false]
      have hbelow : ∀ s ∈ (putStream chunk n results).1.stores,
          s.off + s.len ≤ (putStream chunk n results).1.off := put_stores_below hwritten nofun
      refine ((put_short_iff hwritten (.from 0)).mp ?_).2
      by_contra hshort
      have hlt : (putStream chunk n results).1.off < n :=
        Nat.lt_of_lt_of_le (hstreamed.behind hshort) hstreamed.pos_le
      obtain ⟨b, hother⟩ := exists_other (before (putStream chunk n results).1.off)
      have hplaced := hplaces (List.replicate n b) List.length_replicate _ hput _ (by rwa [List.length_replicate])
      rw [targetOf_outside fun s hs => .inr (hbelow s hs), List.getElem?_replicate, if_pos hlt] at hplaced
      exact hother hplaced
    · intro hshort file hlength stores hput
      rw [doPut, if_pos rfl] at hput
      split at hput
      · cases hput
      · rename_i hnot
        rw [Bool.not_eq_true] at hnot
        cases hput
        have hwritten := hstalls.mp hnot
        have hnone : (putStream chunk n results).1.short = none :=
          (put_short_iff hwritten (.from 0)).mpr ⟨rfl, hshort rfl hwritten⟩
        have hclean := hstreamed.clean_eq (Nat.le_of_eq ((hstreamed.even hnone).trans (hend hnot)).symm)
        intro i hi
        exact hstreamed.placed file before i (Nat.zero_le i) (by rw [hclean, ← hlength]; exact hi)

/-! ## The passes of the OTA -/

structure Pass.Kept (n : Nat) (p : Pass) : Prop where
  clean_le : p.clean ≤ p.finish
  finish_le : p.finish ≤ n
  above : ∀ s ∈ p.stores, p.start ≤ s.off
  placed : ∀ (file : List UInt8) before i, p.start ≤ i → i < p.clean →
    targetOf file before p.stores i = file[i]?
  misplaced : p.clean < p.finish → ∃ q, p.clean < q ∧ q < n ∧
    ∀ (file : List UInt8) before, targetOf file before p.stores p.clean = file[q]?

theorem passOf_kept {chunk n : Nat} (hchunk : 0 < chunk) (input : PassInput) {resumeOff : Nat}
    (hresume : resumeOff ≤ n) :
    (passOf chunk n input resumeOff).1.Kept n ∧
      (n ≤ (passOf chunk n input resumeOff).1.finish → (passOf chunk n input resumeOff).1.clean = n) := by
  obtain ⟨h, -⟩ := @streamed_pass n resumeOff chunk 15 hchunk hresume input.results
  exact ⟨⟨h.clean_le, h.off_le, h.above, h.placed, h.misplaced⟩, h.clean_eq⟩

/-- The next pass resumes at or before the end of this one. -/
theorem backUp_le (off : Nat) : backUp off ≤ off := by
  unfold backUp
  split <;> omega

inductive Completes (n : Nat) : Nat → List Pass → Prop where
  | last {p : Pass} (kept : p.Kept n) (whole : p.clean = n) : Completes n p.start [p]
  | again {p : Pass} {later : List Pass} {next : Nat} (kept : p.Kept n) (resumes : next ≤ p.finish)
      (rest : Completes n next later) : Completes n p.start (p :: later)

theorem meshPasses_completes {chunk n : Nat} (hchunk : 0 < chunk) {inputs : List PassInput} {resumeOff : Nat}
    (hresume : resumeOff ≤ n) (hdone : (meshPasses chunk n inputs resumeOff).2 = true) :
    Completes n resumeOff (meshPasses chunk n inputs resumeOff).1 := by
  induction inputs generalizing resumeOff with
  | nil => cases hdone
  | cons input rest ih =>
    obtain ⟨hkept, hwhole⟩ := passOf_kept hchunk input hresume
    have hnext := backUp_le (passOf chunk n input resumeOff).1.finish
    rw [meshPasses] at hdone ⊢
    by_cases hopened : input.opened = true
    · rw [if_pos hopened] at hdone ⊢
      by_cases hend : (passOf chunk n input resumeOff).2 = false ∧ (passOf chunk n input resumeOff).1.finish ≥ n
      · rw [if_pos hend]
        exact .last hkept (hwhole hend.2)
      · rw [if_neg hend] at hdone ⊢
        exact .again hkept hnext (ih (Nat.le_trans hnext hkept.finish_le) hdone)
    · rw [if_neg hopened] at hdone ⊢
      exact ih hresume hdone

theorem Completes.kept {n start : Nat} {ps : List Pass} (h : Completes n start ps) : ∀ p ∈ ps, p.Kept n := by
  induction h with
  | last kept _ => exact List.forall_mem_singleton.mpr kept
  | again kept _ _ ih => exact List.forall_mem_cons.mpr ⟨kept, ih⟩

theorem Completes.first {n start : Nat} {ps : List Pass} (h : Completes n start ps) :
    ∃ p ∈ ps, p.start = start := by
  cases h with
  | last _ _ => exact ⟨_, List.mem_cons_self, rfl⟩
  | again _ _ _ => exact ⟨_, List.mem_cons_self, rfl⟩

theorem Completes.outside {n start : Nat} {ps : List Pass} (h : Completes n start ps) {i : Nat}
    (hbehind : ¬ ∃ p ∈ ps, p.start ≤ i) (file : List UInt8) (before : Nat → Option UInt8) :
    targetOf file before (ps.flatMap (·.stores)) i = before i := by
  apply targetOf_outside
  intro s hs
  obtain ⟨p, hp, hstore⟩ := List.mem_flatMap.mp hs
  have habove := (h.kept p hp).above s hstore
  have hstart : ¬ p.start ≤ i := fun hle => hbehind ⟨p, hp, hle⟩
  exact .inl (by omega)

/-- The last pass that resumes at or before an offset puts its byte in place. -/
theorem Completes.places {n start : Nat} {ps : List Pass} (h : Completes n start ps) (hrepaired : Repaired ps)
    (file : List UInt8) (before : Nat → Option UInt8) {i : Nat} (hfrom : ∃ p ∈ ps, p.start ≤ i) (hi : i < n) :
    targetOf file before (ps.flatMap (·.stores)) i = file[i]? := by
  induction h generalizing before with
  | @last p kept whole =>
    obtain ⟨q, hq, hle⟩ := hfrom
    rw [List.mem_singleton.mp hq] at hle
    rw [List.flatMap_singleton]
    exact kept.placed file before i hle (by omega)
  | @again p later next kept resumes rest ih =>
    rw [List.flatMap_cons, targetOf_append]
    by_cases hlater : ∃ q ∈ later, q.start ≤ i
    · exact ih hrepaired.2 _ hlater
    · rw [rest.outside hlater]
      have hstart : p.start ≤ i := by
        obtain ⟨q, hq, hle⟩ := hfrom
        rcases List.mem_cons.mp hq with rfl | hrest
        · exact hle
        · exact absurd ⟨q, hrest, hle⟩ hlater
      have hresume : i < next := by
        obtain ⟨q, hq, hfirst⟩ := rest.first
        have hnot : ¬ q.start ≤ i := fun hle => hlater ⟨q, hq, hle⟩
        omega
      refine kept.placed file before i hstart ?_
      by_contra hunclean
      obtain ⟨q, hq, hle⟩ := hrepaired.1 (by omega)
      exact hlater ⟨q, hq, by omega⟩

/-- A byte that no later pass comes back to is one of the file's later bytes. -/
theorem Completes.misplaces {n start : Nat} {ps : List Pass} (h : Completes n start ps) (hnot : ¬ Repaired ps) :
    ∃ i q, i < q ∧ q < n ∧ ∀ (file : List UInt8) before,
      targetOf file before (ps.flatMap (·.stores)) i = file[q]? := by
  induction h with
  | @last p kept whole =>
    have hfinish := kept.finish_le
    exact absurd ⟨fun hlt => by omega, trivial⟩ hnot
  | @again p later next kept resumes rest ih =>
    by_cases hrepaired : Repaired later
    · have hunclean : ¬ (p.clean < p.finish → ∃ q ∈ later, q.start ≤ p.clean) :=
        fun hback => hnot ⟨hback, hrepaired⟩
      obtain ⟨hlt, hlater⟩ := Classical.not_imp.mp hunclean
      obtain ⟨q, hq, hqn, htarget⟩ := kept.misplaced hlt
      refine ⟨p.clean, q, hq, hqn, fun file before => ?_⟩
      rw [List.flatMap_cons, targetOf_append, rest.outside hlater]
      exact htarget file before
    · obtain ⟨i, q, hq, hqn, htarget⟩ := ih hrepaired
      refine ⟨i, q, hq, hqn, fun file before => ?_⟩
      rw [List.flatMap_cons, targetOf_append]
      exact htarget file _

theorem mesh_places_iff (before : Nat → Option UInt8) (chunk : Int) (n : Nat) (attached : Bool)
    (inputs : List PassInput) : MeshPlaces before chunk n attached inputs ↔
      ((doMeshOta chunk n attached inputs).2 = true → Repaired (doMeshOta chunk n attached inputs).1) := by
  cases attached with
  | false => exact iff_of_true nofun nofun
  | true =>
    by_cases hdone : (doMeshOta chunk n true inputs).2 = true
    · have hcompletes : Completes n 0 (doMeshOta chunk n true inputs).1 :=
        meshPasses_completes (usedChunk_pos 1024 chunk) (Nat.zero_le n) hdone
      constructor
      · intro hplaces _
        by_contra hnot
        obtain ⟨i, q, hq, hqn, htarget⟩ := hcompletes.misplaces hnot
        -- A file in which the byte at `i` differs from all others.
        have hlength : ((List.replicate n (0 : UInt8)).set i 1).length = n := by
          rw [List.length_set, List.length_replicate]
        have hplaced := hplaces _ hlength hdone i (by rw [hlength]; omega)
        rw [htarget, List.getElem?_set_ne (by omega), List.getElem?_set_self (by rw [List.length_replicate]; omega),
          List.getElem?_replicate, if_pos hqn] at hplaced
        exact absurd hplaced (by decide)
      · intro hrepaired file hlength _ i hi
        obtain ⟨p, hp, hstart⟩ := hcompletes.first
        exact hcompletes.places (hrepaired hdone) file before ⟨p, hp, by omega⟩ (hlength ▸ hi)
    · exact iff_of_true (fun _ _ h => absurd h hdone) fun h => absurd h hdone

/-- `put` places every byte exactly if no write that came through was short, or
one failed; the OTA exactly if each pass whose bytes moved is followed by one
that resumes before the first of them. -/
theorem files_placed_iff (before : Nat → Option UInt8) (chunk : Int) (n : Nat) (opened : Bool)
    (results : Nat → WriteResult) (inputs : List PassInput) :
    (PutPlaces before chunk n opened results ↔
        (opened = true → AllWritten results (putReads chunk n) 0 → NoneShort results (putReads chunk n) 0)) ∧
      (MeshPlaces before chunk n opened inputs ↔
        ((doMeshOta chunk n opened inputs).2 = true → Repaired (doMeshOta chunk n opened inputs).1)) :=
  ⟨put_places_iff before chunk n opened results, mesh_places_iff before chunk n opened inputs⟩

def oneShort : PassInput := ⟨true, fun k _ => .wrote (if k = 0 then 1023 else 1024)⟩

/-- A file of two bytes of which the server takes one, and one of 40,000 bytes
whose second pass resumes behind the short write of the first. -/
theorem files_misplaced : ¬ PutPlaces (fun _ => none) 1024 2 true (fun _ => .wrote 1) ∧
    ¬ MeshPlaces (fun _ => none) 1024 40000 true [oneShort, ⟨true, fun _ _ => .wrote 1024⟩] := by
  constructor
  · intro hplaces
    have hshort := (put_places_iff _ _ _ _ _).mp hplaces rfl ⟨⟨1, rfl⟩, trivial⟩
    exact absurd (hshort.1 1 rfl) (by decide)
  · intro hplaces
    have hrepaired := (mesh_places_iff _ _ _ _ _).mp hplaces (by decide +kernel)
    revert hrepaired
    decide +kernel

end DectMesh.Tools
