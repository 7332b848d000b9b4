import DectMesh.Lib.History

/-! Noninterference by unwinding. One party's labels and outputs in a run of
many parties are compared with the run in which the other labels are left out;
a relation between the two states, which may depend on the history of the run,
carries the comparison. -/
namespace DectMesh.Lib

universe u v w x

variable {State : Type u} {Label : Type v} {Out : Type w} {Hist : Type x}

def view (step : State → Label → Out × State) (mine : Label → Bool) (start : State) :
    List Label → List Out × State
  | [] => ([], start)
  | label :: rest =>
      let later := view step mine (step start label).2 rest
      (if mine label then (step start label).1 :: later.1 else later.1, later.2)

def viewed (step : State → Label → Out × State) (note : State → Label → Hist → Hist) :
    State × Hist → Label → Option (State × Hist) :=
  recording (fun s label => some (step s label).2) note

variable {step : State → Label → Out × State} {mine : Label → Bool} {note : State → Label → Hist → Hist}

theorem view_append (s : State) (past later : List Label) :
    (view step mine s (past ++ later)).1 =
        (view step mine s past).1 ++ (view step mine (view step mine s past).2 later).1 ∧
      (view step mine s (past ++ later)).2 = (view step mine (view step mine s past).2 later).2 := by
  induction past generalizing s with
  | nil => exact ⟨rfl, rfl⟩
  | cons label rest ih =>
    obtain ⟨houts, hfinal⟩ := ih (step s label).2
    simp only [List.cons_append, view]
    refine ⟨?_, hfinal⟩
    rw [houts]
    split <;> rfl

theorem view_others (s : State) {labels : List Label} (h : ∀ label ∈ labels, mine label = false) :
    (view step mine s labels).1 = [] := by
  induction labels generalizing s with
  | nil => rfl
  | cons label rest ih =>
    rw [List.forall_mem_cons] at h
    simp only [view, h.1, Bool.false_eq_true, if_false]
    exact ih _ h.2

/-- Own labels give related states the same output and keep them related; other
labels keep them related on one side alone. -/
theorem view_purge (good : State × Hist → Label → Prop) (related : Hist → State → State → Prop)
    (hown : ∀ s t past label, related past s t → good (s, past) label → mine label = true →
      (step s label).1 = (step t label).1 ∧ related (note s label past) (step s label).2 (step t label).2)
    (hother : ∀ s t past label, related past s t → good (s, past) label → mine label = false →
      related (note s label past) (step s label).2 t)
    {s t : State} {past : Hist} {labels : List Label} (h : related past s t)
    (hgood : Along (viewed step note) good (s, past) labels) :
    (view step mine s labels).1 = (view step mine t (labels.filter mine)).1 ∧
      ∃ noted, run (viewed step note) (s, past) labels = some ((view step mine s labels).2, noted) ∧
        related noted (view step mine s labels).2 (view step mine t (labels.filter mine)).2 := by
  induction labels generalizing s t past with
  | nil => exact ⟨rfl, past, rfl, h⟩
  | cons label rest ih =>
    obtain ⟨hlabel, hrest⟩ := hgood
    cases hmine : mine label with
    | true =>
      obtain ⟨hout, hnext⟩ := hown s t past label h hlabel hmine
      obtain ⟨houts, noted, hrun, hfinal⟩ := ih hnext (hrest _ rfl)
      simp only [List.filter_cons, hmine, view, if_true]
      exact ⟨by rw [hout, houts], noted, run_cons_eq_some.mpr ⟨_, rfl, hrun⟩, hfinal⟩
    | false =>
      obtain ⟨houts, noted, hrun, hfinal⟩ := ih (hother s t past label h hlabel hmine) (hrest _ rfl)
      simp only [List.filter_cons, hmine, view, Bool.false_eq_true, if_false]
      exact ⟨houts, noted, run_cons_eq_some.mpr ⟨_, rfl, hrun⟩, hfinal⟩

end DectMesh.Lib
