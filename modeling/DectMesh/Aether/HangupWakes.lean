import DectMesh.Aether.Traffic
import Mathlib.Algebra.Order.BigOperators.Group.List

/-! A hangup wakes the readers. Every read is answered at most once, and those
that wait at a hangup or teardown are answered by it, with the end of file. -/
namespace DectMesh.Aether

open DectMesh.Lib

/-- History: the reads that have ended, and how. -/
abbrev Answers := List (Reading × Ending)

variable {maxMsg : Nat}

def Answers.note (maxMsg : Nat) (s : Traffic) (event : TrafficEvent) (h : Answers) : Answers :=
  h ++ (List.finRange maxConns).flatMap (s.endings maxMsg event)

def Action.issued : Action → List Reading
  | .read r => [r]
  | _ => []

def Traffic.waiting (s : Traffic) : List Reading :=
  (List.finRange maxConns).flatMap fun n => (s.convs n).rxq.parked

def Traffic.issued (maxMsg : Nat) (s : Traffic) (event : TrafficEvent) : List Reading :=
  (List.finRange maxConns).flatMap fun n => (s.action maxMsg event n).issued

/-! ## Each read ends at most once -/

section

variable (p : Reading → Bool)

theorem put_readers (rxq : Mailbox Dgram Reading) (d : Dgram) {r : Reading}
    (h : (rxq.put rxqDepth d).1 = .handed r) : rxq.parked = r :: (rxq.put rxqDepth d).2.parked := by
  have hroom := Mailbox.put_handed h
  unfold Mailbox.put at h ⊢
  rw [if_pos hroom] at h ⊢
  cases hparked : rxq.parked with
  | nil =>
    rw [hparked] at h
    cases h
  | cons first later =>
    rw [hparked] at h
    cases h
    rfl

theorem Conv.act_readers (c : Conv Reading) (action : Action) :
    (c.act action).rxq.parked.countP p + (c.endings action).countP (fun ending => p ending.1) ≤
      c.rxq.parked.countP p + action.issued.countP p := by
  have hpurged : (c.rxq.parked.map fun r => (r, Ending.purged)).countP (fun ending => p ending.1) =
      c.rxq.parked.countP p := by
    rw [List.countP_map]
    rfl
  cases action with
  | rest => exact Nat.le_refl _
  | arrive d =>
    simp only [Conv.act, Conv.endings]
    split
    · rename_i r hput
      rw [put_readers c.rxq d hput, List.countP_cons, List.countP_cons, List.countP_nil]
      exact Nat.le_of_eq (by simp [Action.issued])
    · rename_i hput
      have hparked : (c.rxq.put rxqDepth d).2.parked = c.rxq.parked := by
        unfold Mailbox.put at hput ⊢
        split
        · rename_i hroom
          cases hparked : c.rxq.parked with
          | nil => rfl
          | cons first later => exact (hput first (by rw [if_pos hroom, hparked])).elim
        · rfl
      rw [hparked]
      exact Nat.le_refl _
  | read r =>
    simp only [Conv.act, Conv.endings, Action.issued, Mailbox.get]
    cases c.rxq.items with
    | nil => simp
    | cons first rest => simp [List.countP_cons]
  | get =>
    simp only [Conv.act, Conv.endings, Action.issued, Mailbox.poll]
    cases c.rxq.items <;> exact Nat.le_refl _
  | fresh bound => cases bound <;> exact Nat.zero_le _
  | free =>
    simp only [Conv.act, Conv.endings]
    split
    · simp only [Mailbox.purge, hpurged]
      exact Nat.le_of_eq (Nat.zero_add _)
    · exact Nat.le_refl _
  | ctl cmd =>
    simp only [Conv.act]
    cases hexec : ctlExec c cmd with
    | none => cases cmd <;> first | exact Nat.le_refl _ | cases hexec
    | some c' =>
      obtain ⟨-, ⟨hcmd, -, -, hrxq⟩ | ⟨rfl, -, hrxq⟩⟩ := ctlExec_cases hexec
      · rw [Option.getD_some, hrxq]
        cases cmd with
        | hangup => exact absurd rfl hcmd
        | _ => exact Nat.le_refl _
      · rw [Option.getD_some, hrxq]
        simp only [Conv.endings, Mailbox.purge, hpurged]
        exact Nat.le_of_eq (Nat.zero_add _)

theorem Traffic.step_readers {s s' : Traffic} {event : TrafficEvent} (hstep : s.step maxMsg event = some s')
    (h : Answers) :
    s'.waiting.countP p + (Answers.note maxMsg s event h).countP (fun ending => p ending.1) ≤
      s.waiting.countP p + h.countP (fun ending => p ending.1) + (s.issued maxMsg event).countP p := by
  cases Option.some.inj hstep
  have hsum : ((List.finRange maxConns).map fun n => ((s.apply maxMsg event).convs n).rxq.parked.countP p +
      (s.endings maxMsg event n).countP (fun ending => p ending.1)).sum ≤
      ((List.finRange maxConns).map fun n => (s.convs n).rxq.parked.countP p +
        (s.action maxMsg event n).issued.countP p).sum := by
    apply List.sum_le_sum
    intro n _
    rw [Traffic.apply_convs]
    exact (s.convs n).act_readers p (s.action maxMsg event n)
  simp only [Traffic.waiting, Answers.note, Traffic.issued, List.countP_append, List.countP_flatMap,
    List.sum_map_add, Function.comp_def] at hsum ⊢
  omega

end

/-! ## The invariant -/

def places (s : Traffic) (h : Answers) (id : Nat) : Nat :=
  s.waiting.countP (fun r => r.id = id) + h.countP (fun ending => ending.1.id = id)

structure Numbered (s : Traffic) (h : Answers) : Prop where
  once : ∀ id, places s h id ≤ 1
  fresh : ∀ id, s.now ≤ id → places s h id = 0

theorem Traffic.issued_eq (maxMsg : Nat) (s : Traffic) (event : TrafficEvent) :
    s.issued maxMsg event = [] ∨ ∃ count, s.issued maxMsg event = [⟨s.now, count⟩] := by
  cases event with
  | read m count =>
    apply Or.inr
    refine ⟨count, ?_⟩
    simp only [Traffic.issued, Traffic.action]
    rcases m with ⟨_ | _ | _ | _ | m, hm⟩
    · rfl
    · rfl
    · rfl
    · rfl
    · exact absurd hm (Nat.not_lt.mpr (Nat.le_add_left 4 m))
  | _ =>
    apply Or.inl
    apply List.flatMap_eq_nil_iff.mpr
    intro n _
    simp only [Traffic.action]
    split <;> rfl

theorem numbered_init : Numbered .init [] := ⟨fun _ => Nat.zero_le 1, fun _ _ => rfl⟩

theorem numbered_step (s : Traffic) (h : Answers) (event : TrafficEvent) (s' : Traffic) (hnumbered : Numbered s h)
    (_ : True) (hstep : s.step maxMsg event = some s') : Numbered s' (Answers.note maxMsg s event h) := by
  have hnow : s'.now = s.now + 1 := by
    cases Option.some.inj hstep
    rfl
  have hplaces : ∀ id, places s' (Answers.note maxMsg s event h) id ≤
      places s h id + if id = s.now then 1 else 0 := by
    intro id
    have hreaders := Traffic.step_readers (fun r => decide (r.id = id)) hstep h
    have hissued : (s.issued maxMsg event).countP (fun r => decide (r.id = id)) ≤ if id = s.now then 1 else 0 := by
      rcases s.issued_eq maxMsg event with hnone | ⟨count, hone⟩
      · rw [hnone]
        exact Nat.zero_le _
      · rw [hone, List.countP_singleton]
        apply Nat.le_of_eq
        simp only [decide_eq_true_eq]
        exact if_congr eq_comm rfl rfl
    unfold places
    omega
  constructor
  · intro id
    have hid := hplaces id
    by_cases hnew : id = s.now
    · have hzero := hnumbered.fresh id (Nat.le_of_eq hnew.symm)
      rw [if_pos hnew, hzero] at hid
      exact hid
    · rw [if_neg hnew] at hid
      exact hid.trans (hnumbered.once id)
  · intro id hlater
    have hid := hplaces id
    have hzero := hnumbered.fresh id (by omega)
    rw [if_neg (by omega)] at hid
    omega

/-! ## The wakeup -/

theorem Conv.hangsUp_endings {c : Conv Reading} {action : Action} (h : c.hangsUp action = true) :
    c.endings action = c.rxq.parked.map fun r => (r, .purged) := by
  cases action with
  | free =>
    rw [Conv.endings, if_pos (by exact h)]
    rfl
  | ctl cmd =>
    cases cmd with
    | hangup => rfl
    | _ => cases h
  | _ => cases h

theorem answers_grow {s s' : Traffic × Answers} {events : List TrafficEvent}
    (hrun : run (recording (Traffic.step maxMsg) (Answers.note maxMsg)) s events = some s') : s.2 <+: s'.2 := by
  induction events generalizing s with
  | nil =>
    cases Option.some.inj hrun
    exact List.prefix_refl _
  | cons event rest ih =>
    obtain ⟨⟨next, noted⟩, hnext, hrest⟩ := run_cons_eq_some.mp hrun
    obtain ⟨-, rfl⟩ := recording_eq_some.mp hnext
    exact (List.prefix_append _ _).trans (ih hrest)

theorem Numbered.answered {s : Traffic} {h : Answers} (hnumbered : Numbered s h) {r : Reading} {ending : Ending}
    (hanswer : (r, ending) ∈ h) :
    (h.filter fun answer => answer.1.id = r.id) = [(r, ending)] ∧ ∀ q ∈ s.waiting, q.id ≠ r.id := by
  have honce := hnumbered.once r.id
  have hmem : (r, ending) ∈ h.filter fun answer => answer.1.id = r.id :=
    List.mem_filter.mpr ⟨hanswer, decide_eq_true rfl⟩
  have hlength : (h.filter fun answer => answer.1.id = r.id).length ≤ 1 := by
    rw [← List.countP_eq_length_filter]
    exact (Nat.le_add_left _ _).trans honce
  constructor
  · obtain ⟨answer, hsingle⟩ := List.length_eq_one_iff.mp (Nat.le_antisymm hlength (List.length_pos_of_mem hmem))
    rw [hsingle, List.mem_singleton] at hmem
    rw [hsingle, hmem]
  · intro q hq hid
    have hwaiting : 0 < s.waiting.countP (fun q => q.id = r.id) :=
      List.countP_pos_iff.mpr ⟨q, hq, decide_eq_true hid⟩
    have hpos := List.length_pos_of_mem hmem
    rw [← List.countP_eq_length_filter] at hpos
    unfold places at honce
    omega

/-- Every read that waits in a slot when its conversation is hung up or torn
down is answered there and then, with the end of file. Whatever comes after, a
new conversation in the slot included, it gets no other answer and waits
nowhere. -/
theorem hangup_wakes_readers {before after : List TrafficEvent} {event : TrafficEvent} {n : Slot}
    {s s' : Traffic × Answers}
    (hbefore : run (recording (Traffic.step maxMsg) (Answers.note maxMsg)) (.init, []) before = some s)
    (hhangup : (s.1.convs n).hangsUp (s.1.action maxMsg event n) = true)
    (hafter : run (recording (Traffic.step maxMsg) (Answers.note maxMsg)) s (event :: after) = some s') :
    ∀ r ∈ (s.1.convs n).rxq.parked,
      (s'.2.filter fun answer => answer.1.id = r.id) = [(r, .purged)] ∧ ∀ q ∈ s'.1.waiting, q.id ≠ r.id := by
  intro r hr
  have hnumbered : Numbered s'.1 s'.2 :=
    recording_invariant numbered_step
      (recording_invariant numbered_step numbered_init (along_true _ _) hbefore) (along_true _ _) hafter
  apply hnumbered.answered
  obtain ⟨⟨next, noted⟩, hnext, hrest⟩ := run_cons_eq_some.mp hafter
  obtain ⟨-, rfl⟩ := recording_eq_some.mp hnext
  apply (answers_grow hrest).subset
  apply List.mem_append_right
  rw [List.mem_flatMap]
  refine ⟨n, List.mem_finRange n, ?_⟩
  rw [Traffic.endings, Conv.hangsUp_endings hhangup]
  exact List.mem_map_of_mem hr

/-- Two reads wait, a third comes after the hangup. -/
theorem hangup_wakes_two_readers : ∃ s' : Traffic × Answers,
    run (recording (Traffic.step 512) (Answers.note 512)) (.init, [])
        [.clone, .ctl 0 .announce, .read 0 64, .read 0 64, .ctl 0 .hangup, .read 0 64] = some s' ∧
      (s'.2.filter fun answer => answer.1.id = 4) = [(⟨4, 64⟩, .purged)] ∧ ∀ q ∈ s'.1.waiting, q.id ≠ 4 := by
  exact ⟨_, rfl, @hangup_wakes_readers 512 [.clone, .ctl 0 .announce, .read 0 64, .read 0 64] [.read 0 64]
    (.ctl 0 .hangup) 0 _ _ rfl rfl rfl ⟨4, 64⟩ (by decide)⟩

/-! ## Reads beside the hangup -/

/-- A read takes no lock, so it can come between the purge and the sentinel.
The first to come gets the sentinel and the others wait, as behind both. -/
theorem reads_before_sentinel {ρ : Type} (rxq : Mailbox Dgram ρ) (first : ρ) (later : List ρ) :
    ((first :: later).foldl (fun box r => (box.get r).2) rxq.purge.2).put rxqDepth .eof =
        (.handed first, ⟨[], later⟩) ∧
      ((purgeAndSentinel rxq).get first).1 = some .eof ∧
      later.foldl (fun box r => (box.get r).2) ((purgeAndSentinel rxq).get first).2 = ⟨[], later⟩ := by
  have hparks : ∀ (readers parked : List ρ),
      readers.foldl (fun box r => (box.get r).2) (⟨[], parked⟩ : Mailbox Dgram ρ) = ⟨[], parked ++ readers⟩ := by
    intro readers
    induction readers with
    | nil =>
      intro parked
      rw [List.append_nil]
      rfl
    | cons r rest ih =>
      intro parked
      rw [List.foldl_cons, Mailbox.get, ih, List.append_assoc]
      rfl
  refine ⟨?_, rfl, hparks later []⟩
  rw [show rxq.purge.2 = ⟨[], []⟩ from rfl, hparks]
  rfl

end DectMesh.Aether
