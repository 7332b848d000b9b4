import DectMesh.Identity.Proof
import DectMesh.Lib.Paging
import DectMesh.Lib.Run
import Mathlib.Data.Fintype.Basic

/-! The prove file between clients. All of them write to and read from one
`prove_out`: a write fills it under the lock, a read takes its page without. -/
namespace DectMesh.Identity

open DectMesh.Lib

/-- Where a client is with its challenge. `signed` waits for the lock or holds
it, `refused` is to clear the file, and `text` is what has been read. -/
inductive Phase where
  | idle
  | signed (chal proof : List UInt8)
  | refused
  | reading (chal text : List UInt8)
  | done (chal text : List UInt8)
  deriving DecidableEq

/-- `prove_out`, `prove_out_len`, the holder of the lock with its `p`, and the
clients, of whatever transport. -/
structure ProveFile (κ : Type) where
  buf : List UInt8
  len : Nat
  filling : Option (κ × Nat)
  client : κ → Phase

def ProveFile.init (κ : Type) : ProveFile κ := ⟨List.replicate 264 0, 0, none, fun _ => .idle⟩

def ProveFile.content {κ : Type} (s : ProveFile κ) : List UInt8 := s.buf.take s.len

inductive ProveEvent (κ : Type) where
  | sign (k : κ) (chal : List UInt8) (draws : List (Option Seed))
  | clear (k : κ)
  | lock (k : κ)
  | store (n : Nat)
  | unlock
  | read (k : κ) (count : Nat)

variable {κ : Type} [DecidableEq κ] {e : Ecdsa}

/-- A write in its steps: it signs, takes the lock, stores the proof some bytes
at a time, and sets the length. The client then reads page by page. -/
def proveStep (owner : Owner e.toCrypto) (s : ProveFile κ) : ProveEvent κ → Option (ProveFile κ)
  | .sign k chal draws =>
      match s.client k with
      | .signed .. | .refused => none
      | _ =>
          match cgaSign e owner.seed (chal.take 32) 8 draws with
          | some sig => some { s with client := Function.update s.client k (.signed chal (proofText owner.pub sig)) }
          | none => some { s with client := Function.update s.client k .refused }
  | .clear k =>
      if s.client k = .refused ∧ s.filling = none then
        some { s with len := 0, client := Function.update s.client k .idle }
      else none
  | .lock k =>
      match s.client k, s.filling with
      | .signed .., none => some { s with filling := some (k, 0) }
      | _, _ => none
  | .store n =>
      match s.filling with
      | none => none
      | some (k, p) =>
          match s.client k with
          | .signed _ proof =>
              if p + n ≤ proof.length then
                some { s with
                  buf := s.buf.take p ++ (proof.drop p).take n ++ s.buf.drop (p + n)
                  filling := some (k, p + n) }
              else none
          | _ => none
  | .unlock =>
      match s.filling with
      | none => none
      | some (k, p) =>
          match s.client k with
          | .signed chal proof =>
              if p = proof.length then
                some { s with len := p, filling := none, client := Function.update s.client k (.reading chal []) }
              else none
          | _ => none
  | .read k count =>
      match s.client k with
      | .reading chal text =>
          if count = 0 then none
          else
            let page := anetReadProve s.content text.length count
            some { s with
              client := Function.update s.client k (if page = [] then .done chal text else .reading chal (text ++ page)) }
      | _ => none

def ProofOver (owner : Owner e.toCrypto) (chal text : List UInt8) : Prop :=
  ∃ ek sig, e.sign owner.seed ek chal = some sig ∧ text = proofText owner.pub sig

def Phase.Genuine (owner : Owner e.toCrypto) : Phase → Prop
  | .reading chal text => ∃ proof, ProofOver owner chal proof ∧ text <+: proof
  | .done chal text => ProofOver owner chal text
  | _ => True

def Phase.isReading : Phase → Bool
  | .reading .. => true
  | _ => false

/-- No challenge is longer than what is signed of it, and no write touches the
file while a client reads it. -/
def Alone (s : ProveFile κ) : ProveEvent κ → Prop
  | .sign _ chal _ => chal.length ≤ 32
  | .clear _ | .store _ | .unlock => ∀ k, (s.client k).isReading = false
  | _ => True

/-! ## The file holds the proof that is being read -/

structure ProveInv (owner : Owner e.toCrypto) (s : ProveFile κ) : Prop where
  signed : ∀ k chal proof, s.client k = .signed chal proof → ProofOver owner chal proof
  filling : ∀ k p, s.filling = some (k, p) → ∃ chal proof, s.client k = .signed chal proof ∧
    p ≤ s.buf.length ∧ s.buf.take p = proof.take p
  reading : ∀ k chal text, s.client k = .reading chal text → ProofOver owner chal s.content ∧ text <+: s.content
  done : ∀ k chal text, s.client k = .done chal text → ProofOver owner chal text

omit [DecidableEq κ] in
theorem ProveInv.genuine {owner : Owner e.toCrypto} {s : ProveFile κ} (h : ProveInv owner s) (k : κ) :
    (s.client k).Genuine owner := by
  cases hphase : s.client k with
  | reading chal text =>
    obtain ⟨hproof, htext⟩ := h.reading k chal text hphase
    exact ⟨_, hproof, htext⟩
  | done chal text => exact h.done k chal text hphase
  | _ => trivial

omit [DecidableEq κ] in
theorem ProveInv.free {owner : Owner e.toCrypto} {s : ProveFile κ} (h : ProveInv owner s) {k : κ}
    (hother : ∀ chal proof, s.client k ≠ .signed chal proof) (p : Nat) : s.filling ≠ some (k, p) := by
  intro hfilling
  obtain ⟨chal, proof, hphase, -⟩ := h.filling k p hfilling
  exact hother chal proof hphase

omit [DecidableEq κ] in
theorem ProveInv.written {owner : Owner e.toCrypto} {s : ProveFile κ} (h : ProveInv owner s)
    (hnobody : ∀ k, (s.client k).isReading = false) {buf : List UInt8} {len : Nat} {filling : Option (κ × Nat)}
    (hfilling : ∀ k p, filling = some (k, p) → ∃ chal proof, s.client k = .signed chal proof ∧
      p ≤ buf.length ∧ buf.take p = proof.take p) : ProveInv owner ⟨buf, len, filling, s.client⟩ := by
  refine ⟨h.signed, hfilling, fun k chal text hk => ?_, h.done⟩
  have hreads := hnobody k
  rw [show s.client k = .reading chal text from hk] at hreads
  cases hreads

theorem client_moved {client : κ → Phase} {k j : κ} {phase was : Phase}
    (h : Function.update client k phase j = was) : j = k ∧ phase = was ∨ j ≠ k ∧ client j = was := by
  rw [Function.update_apply] at h
  split at h
  · rename_i hjk
    exact .inl ⟨hjk, h⟩
  · rename_i hjk
    exact .inr ⟨hjk, h⟩

theorem ProveInv.moved {owner : Owner e.toCrypto} {s : ProveFile κ} (h : ProveInv owner s) {k : κ} {phase : Phase}
    (hfree : ∀ p, s.filling ≠ some (k, p))
    (hsigned : ∀ chal proof, phase = .signed chal proof → ProofOver owner chal proof)
    (hreading : ∀ chal text, phase = .reading chal text → ProofOver owner chal s.content ∧ text <+: s.content)
    (hdone : ∀ chal text, phase = .done chal text → ProofOver owner chal text) :
    ProveInv owner { s with client := Function.update s.client k phase } := by
  refine ⟨fun j chal proof hj => ?_, fun j p hj => ?_, fun j chal text hj => ?_, fun j chal text hj => ?_⟩
  · rcases client_moved hj with ⟨-, hphase⟩ | ⟨-, hphase⟩
    · exact hsigned chal proof hphase
    · exact h.signed j chal proof hphase
  · obtain ⟨chal, proof, hphase, hstored⟩ := h.filling j p hj
    refine ⟨chal, proof, ?_, hstored⟩
    have hjk : j ≠ k := by
      rintro rfl
      exact hfree p hj
    exact (Function.update_of_ne hjk ..).trans hphase
  · rcases client_moved hj with ⟨-, hphase⟩ | ⟨-, hphase⟩
    · exact hreading chal text hphase
    · exact h.reading j chal text hphase
  · rcases client_moved hj with ⟨-, hphase⟩ | ⟨-, hphase⟩
    · exact hdone chal text hphase
    · exact h.done j chal text hphase

theorem take_stored {buf proof : List UInt8} {p n : Nat} (hlength : p ≤ buf.length)
    (hstored : buf.take p = proof.take p) (hroom : p + n ≤ proof.length) :
    p + n ≤ (buf.take p ++ (proof.drop p).take n ++ buf.drop (p + n)).length ∧
      (buf.take p ++ (proof.drop p).take n ++ buf.drop (p + n)).take (p + n) = proof.take (p + n) := by
  have hchunk : ((proof.drop p).take n).length = n := by
    rw [List.length_take, List.length_drop]
    omega
  have hfront : (buf.take p ++ (proof.drop p).take n).length = p + n := by
    rw [List.length_append, List.length_take, hchunk]
    omega
  constructor
  · rw [List.length_append, hfront]
    exact Nat.le_add_right ..
  · rw [List.take_left' hfront, hstored, List.take_add]

section

variable {owner : Owner e.toCrypto} {s s' : ProveFile κ}

theorem ProveInv.sign (h : ProveInv owner s) {k : κ} {chal : List UInt8} {draws : List (Option Seed)}
    (hshort : chal.length ≤ 32) (hstep : proveStep owner s (.sign k chal draws) = some s') : ProveInv owner s' := by
  have hwhole : chal.take 32 = chal := List.take_of_length_le hshort
  simp only [proveStep] at hstep
  split at hstep
  · cases hstep
  · cases hstep
  · rename_i hnotSigned hnotRefused
    split at hstep
    · rename_i sig hsig
      cases hstep
      obtain ⟨ek, hsign⟩ := cgaSign_some hsig
      rw [hwhole] at hsign
      refine h.moved (h.free hnotSigned) (fun c proof hphase => ?_) nofun nofun
      cases hphase
      exact ⟨ek, sig, hsign, rfl⟩
    · cases hstep
      exact h.moved (h.free hnotSigned) nofun nofun nofun

theorem ProveInv.clear (h : ProveInv owner s) {k : κ} (hnobody : ∀ j, (s.client j).isReading = false)
    (hstep : proveStep owner s (.clear k) = some s') : ProveInv owner s' := by
  simp only [proveStep] at hstep
  split at hstep
  · rename_i hclear
    cases hstep
    have hwritten : ProveInv owner ⟨s.buf, 0, s.filling, s.client⟩ := h.written hnobody h.filling
    refine hwritten.moved (fun p hp => ?_) nofun nofun nofun
    rw [show s.filling = some (k, p) from hp] at hclear
    cases hclear.2
  · cases hstep

theorem ProveInv.lock (h : ProveInv owner s) {k : κ} (hstep : proveStep owner s (.lock k) = some s') :
    ProveInv owner s' := by
  simp only [proveStep] at hstep
  split at hstep
  · rename_i chal proof hphase hfilling
    cases hstep
    refine ⟨h.signed, fun j p hj => ?_, h.reading, h.done⟩
    cases hj
    exact ⟨chal, proof, hphase, Nat.zero_le _, rfl⟩
  · cases hstep

theorem ProveInv.store (h : ProveInv owner s) {n : Nat} (hnobody : ∀ j, (s.client j).isReading = false)
    (hstep : proveStep owner s (.store n) = some s') : ProveInv owner s' := by
  simp only [proveStep] at hstep
  split at hstep
  · cases hstep
  · rename_i k p hfilling
    obtain ⟨chal, proof, hphase, hlength, hstored⟩ := h.filling k p hfilling
    simp only [hphase] at hstep
    split at hstep
    · rename_i hroom
      cases hstep
      refine h.written hnobody fun j q hj => ?_
      cases hj
      exact ⟨chal, proof, hphase, take_stored hlength hstored hroom⟩
    · cases hstep

theorem ProveInv.unlock (h : ProveInv owner s) (hnobody : ∀ j, (s.client j).isReading = false)
    (hstep : proveStep owner s .unlock = some s') : ProveInv owner s' := by
  simp only [proveStep] at hstep
  split at hstep
  · cases hstep
  · rename_i k p hfilling
    obtain ⟨chal, proof, hphase, hlength, hstored⟩ := h.filling k p hfilling
    simp only [hphase] at hstep
    split at hstep
    · rename_i hwhole
      cases hstep
      subst hwhole
      rw [List.take_length] at hstored
      have hwritten : ProveInv owner ⟨s.buf, proof.length, none, s.client⟩ := h.written hnobody nofun
      refine hwritten.moved nofun nofun (fun c text hreading => ?_) nofun
      cases hreading
      rw [ProveFile.content, hstored]
      exact ⟨h.signed k chal proof hphase, List.nil_prefix⟩
    · cases hstep

theorem ProveInv.read (h : ProveInv owner s) {k : κ} {count : Nat}
    (hstep : proveStep owner s (.read k count) = some s') : ProveInv owner s' := by
  simp only [proveStep] at hstep
  split at hstep
  · rename_i chal text hphase
    split at hstep
    · cases hstep
    · rename_i hcount
      cases hstep
      obtain ⟨hproof, htext⟩ := h.reading k chal text hphase
      have hother : ∀ c proof, s.client k ≠ .signed c proof := by
        rw [hphase]
        exact nofun
      refine h.moved (h.free hother) (fun c proof hsigned => ?_) (fun c t hreading => ?_) (fun c t hdone => ?_)
      · split at hsigned <;> cases hsigned
      · split at hreading
        · cases hreading
        · cases hreading
          rw [anetReadProve_eq]
          exact ⟨hproof, page_begins htext count⟩
      · split at hdone
        · rename_i hempty
          cases hdone
          rw [anetReadProve_eq] at hempty
          rw [page_ends htext hcount hempty]
          exact hproof
        · cases hdone
  · cases hstep

end

theorem proveInv_step {owner : Owner e.toCrypto} (s : ProveFile κ) (event : ProveEvent κ) (s' : ProveFile κ)
    (h : ProveInv owner s) (halone : Alone s event) (hstep : proveStep owner s event = some s') : ProveInv owner s' := by
  cases event with
  | sign k chal draws => exact h.sign halone hstep
  | clear k => exact h.clear halone hstep
  | lock k => exact h.lock hstep
  | store n => exact h.store halone hstep
  | unlock => exact h.unlock halone hstep
  | read k count => exact h.read hstep

/-- Any number of clients in any order of their steps: if no challenge is longer
than 32 bytes and no write touches the file while a client reads it, every
client has the proof of its own challenge, as far as it has read. -/
theorem proofs_kept_apart {owner : Owner e.toCrypto} {events : List (ProveEvent κ)} {s : ProveFile κ}
    (hrun : run (proveStep owner) (.init κ) events = some s) (halone : Along (proveStep owner) Alone (.init κ) events)
    (k : κ) : (s.client k).Genuine owner := by
  have hstart : ProveInv owner (.init κ) := ⟨nofun, nofun, nofun, nofun⟩
  exact (run_invariant (ProveInv owner) proveInv_step hstart halone hrun).genuine k

/-! ## Two clients -/

instance [Fintype κ] (s : ProveFile κ) : (event : ProveEvent κ) → Decidable (Alone s event)
  | .sign _ chal _ => inferInstanceAs (Decidable (chal.length ≤ 32))
  | .clear _ | .store _ | .unlock => inferInstanceAs (Decidable (∀ k, (s.client k).isReading = false))
  | .lock _ | .read _ _ => inferInstanceAs (Decidable True)

def plainProof : Ecdsa where
  toCrypto := oneCrypto
  sign _ _ msg := some ⟨(msg ++ List.replicate 64 0).take 64, by
    rw [List.length_take, List.length_append, List.length_replicate]
    omega⟩
  verify _ msg sig := some (decide (sig.bytes = (msg ++ List.replicate 64 0).take 64))

def plainOwner : Owner plainProof.toCrypto := oneOwner

def proving (k : Bool) (chal : List UInt8) : List (ProveEvent Bool) :=
  [.sign k chal [some .zero], .lock k, .store 258, .unlock]

def provingInTurn : List (ProveEvent Bool) :=
  proving false [1] ++ [.read false 300, .read false 300] ++ proving true [2] ++
    [.read true 100, .read true 200, .read true 200]

theorem proofs_kept_in_turn : ∃ s : ProveFile Bool,
    run (proveStep plainOwner) (.init Bool) provingInTurn = some s ∧ ∀ k, (s.client k).Genuine plainOwner := by
  have hruns : (run (proveStep plainOwner) (.init Bool) provingInTurn).isSome = true := by decide +kernel
  obtain ⟨s, hrun⟩ := Option.isSome_iff_exists.mp hruns
  exact ⟨s, hrun, proofs_kept_apart hrun (by decide +kernel)⟩

/-- The second client writes before the first has read: the first reads the
proof of the second. -/
theorem proof_spoiled : ∃ s : ProveFile Bool,
    run (proveStep plainOwner) (.init Bool) (proving false [1] ++ proving true [2] ++ [.read false 300, .read false 300]) =
      some s ∧ ¬ (s.client false).Genuine plainOwner := by
  have hreads : ((run (proveStep plainOwner) (.init Bool)
      (proving false [1] ++ proving true [2] ++ [.read false 300, .read false 300])).map fun s => s.client false) =
        (plainProof.sign .zero .zero [2]).map fun sig => .done [1] (proofText plainOwner.pub sig) := by decide +kernel
  obtain ⟨s, hrun, hclient⟩ := Option.map_eq_some_iff.mp hreads
  refine ⟨s, hrun, fun hgenuine => ?_⟩
  rw [hclient] at hgenuine
  obtain ⟨ek, sig, hsign, htext⟩ := hgenuine
  cases hsign
  exact absurd htext (by decide +kernel)

end DectMesh.Identity
