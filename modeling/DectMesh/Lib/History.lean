import DectMesh.Lib.Run

/-! Runs with a history beside them. The history notes something of every step
and never decides one, so that a run with it is the run without it. -/
namespace DectMesh.Lib

universe u v w

variable {State : Type u} {Label : Type v} {Hist : Type w}

/-- The step, and what `note` makes of the history in the state before it. -/
def recording (step : State → Label → Option State) (note : State → Label → Hist → Hist) :
    State × Hist → Label → Option (State × Hist) :=
  fun s label => (step s.1 label).map fun next => (next, note s.1 label s.2)

variable {step : State → Label → Option State} {note : State → Label → Hist → Hist}

theorem recording_eq_some {s s' : State} {h h' : Hist} {label : Label} :
    recording step note (s, h) label = some (s', h') ↔ step s label = some s' ∧ h' = note s label h := by
  unfold recording
  rw [Option.map_eq_some_iff]
  constructor
  · rintro ⟨next, hnext, ⟨⟩⟩
    exact ⟨hnext, rfl⟩
  · rintro ⟨hnext, rfl⟩
    exact ⟨s', hnext, rfl⟩

/-- An invariant of state and history that every good step keeps. -/
theorem recording_invariant {inv : State → Hist → Prop} {good : State → Label → Prop}
    (hstep : ∀ s h label s', inv s h → good s label → step s label = some s' → inv s' (note s label h))
    {start final : State} {past past' : Hist} {labels : List Label} (hstart : inv start past)
    (hgood : Along step good start labels)
    (hrun : run (recording step note) (start, past) labels = some (final, past')) : inv final past' := by
  induction labels generalizing start past with
  | nil =>
    cases Option.some.inj hrun
    exact hstart
  | cons label rest ih =>
    obtain ⟨⟨next, noted⟩, hnext, hrest⟩ := run_cons_eq_some.mp hrun
    obtain ⟨hlabel, rfl⟩ := recording_eq_some.mp hnext
    exact ih (hstep _ _ _ _ hstart hgood.1 hlabel) (hgood.2 next hlabel) hrest

theorem along_recording {good : State → Label → Prop} {start : State} {labels : List Label}
    (hgood : Along step good start labels) (past : Hist) :
    Along (recording step note) (fun s => good s.1) (start, past) labels := by
  induction labels generalizing start past with
  | nil => trivial
  | cons label rest ih =>
    refine ⟨hgood.1, fun (next, noted) hnext => ?_⟩
    exact ih (hgood.2 next (recording_eq_some.mp hnext).1) noted

theorem recording_along {inv : State → Hist → Prop} {good holds : State × Hist → Label → Prop}
    (hstep : ∀ s h label s', inv s h → good (s, h) label → step s label = some s' → inv s' (note s label h))
    (himp : ∀ s h label, inv s h → good (s, h) label → holds (s, h) label)
    {start : State} {past : Hist} {labels : List Label} (hstart : inv start past)
    (hgood : Along (recording step note) good (start, past) labels) :
    Along (recording step note) holds (start, past) labels := by
  induction labels generalizing start past with
  | nil => trivial
  | cons label rest ih =>
    refine ⟨himp _ _ _ hstart hgood.1, fun (next, noted) hnext => ?_⟩
    obtain ⟨hlabel, rfl⟩ := recording_eq_some.mp hnext
    exact ih (hstep _ _ _ _ hstart hgood.1 hlabel) (hgood.2 _ hnext)

theorem along_forall {good : State → Label → Prop} {labels : List Label}
    (h : ∀ label ∈ labels, ∀ s, good s label) (start : State) : Along step good start labels := by
  induction labels generalizing start with
  | nil => trivial
  | cons label rest ih =>
    rw [List.forall_mem_cons] at h
    exact ⟨h.1 start, fun next _ => ih h.2 next⟩

theorem along_true (start : State) (labels : List Label) : Along step (fun _ _ => True) start labels :=
  along_forall (fun _ _ _ => trivial) start

end DectMesh.Lib
