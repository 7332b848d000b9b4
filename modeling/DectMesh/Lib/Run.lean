import Mathlib.Data.List.Basic

/-! Runs of a labelled step function. A label that is not enabled in a state
has no successor there, so a run is a list of labels that executes to the end.
Conditions on a run are conditions on each of its steps, taken with the state
before the step. -/
namespace DectMesh.Lib

universe u v

variable {State : Type u} {Label : Type v}

def run (step : State → Label → Option State) (start : State) : List Label → Option State
  | [] => some start
  | label :: rest => (step start label).bind fun next => run step next rest

/-- Every step of the run meets `good` in the state before it. -/
def Along (step : State → Label → Option State) (good : State → Label → Prop) :
    State → List Label → Prop
  | _, [] => True
  | start, label :: rest =>
      good start label ∧ ∀ next, step start label = some next → Along step good next rest

/-- The run comes through the state. -/
def Visits (step : State → Label → Option State) (start : State) (labels : List Label) (s : State) : Prop :=
  ∃ past, past <+: labels ∧ run step start past = some s

section

variable {step : State → Label → Option State} {good : State → Label → Prop}

@[simp] theorem run_nil (start : State) : run step start [] = some start := rfl

theorem run_cons (start : State) (label : Label) (rest : List Label) :
    run step start (label :: rest) = (step start label).bind fun next => run step next rest := rfl

theorem run_cons_eq_some {start final : State} {label : Label} {rest : List Label} :
    run step start (label :: rest) = some final ↔
      ∃ next, step start label = some next ∧ run step next rest = some final := by
  rw [run_cons, Option.bind_eq_some_iff]

theorem run_append_eq_some {start final : State} {past later : List Label} :
    run step start (past ++ later) = some final ↔
      ∃ mid, run step start past = some mid ∧ run step mid later = some final := by
  induction past generalizing start with
  | nil => simp
  | cons label rest ih =>
    rw [List.cons_append, run_cons_eq_some]
    constructor
    · rintro ⟨next, hnext, hrun⟩
      obtain ⟨mid, hrest, hlater⟩ := ih.mp hrun
      exact ⟨mid, run_cons_eq_some.mpr ⟨next, hnext, hrest⟩, hlater⟩
    · rintro ⟨mid, hpast, hlater⟩
      obtain ⟨next, hnext, hrest⟩ := run_cons_eq_some.mp hpast
      exact ⟨next, hnext, ih.mpr ⟨mid, hrest, hlater⟩⟩

instance Along.decidable [∀ s label, Decidable (good s label)] :
    ∀ start labels, Decidable (Along step good start labels)
  | _, [] => .isTrue trivial
  | start, label :: rest =>
      have : Decidable (∀ next, step start label = some next → Along step good next rest) :=
        match h : step start label with
        | none => .isTrue fun _ hnext => nomatch hnext
        | some mid =>
            have : Decidable (Along step good mid rest) := Along.decidable mid rest
            decidable_of_iff (Along step good mid rest) (by simp)
      inferInstanceAs (Decidable (_ ∧ _))

/-- An invariant kept by every good step holds at the end of a good run. -/
theorem run_invariant (inv : State → Prop)
    (hstep : ∀ s label s', inv s → good s label → step s label = some s' → inv s')
    {start final : State} {labels : List Label} (hstart : inv start)
    (hgood : Along step good start labels) (hrun : run step start labels = some final) :
    inv final := by
  induction labels generalizing start with
  | nil =>
    cases Option.some.inj hrun
    exact hstart
  | cons label rest ih =>
    obtain ⟨next, hnext, hrest⟩ := run_cons_eq_some.mp hrun
    exact ih (hstep _ _ _ hstart hgood.1 hnext) (hgood.2 next hnext) hrest

/-- An invariant kept by good steps carries what it implies to every step. -/
theorem along_of_invariant {inv : State → Prop} {holds : State → Label → Prop}
    (hstep : ∀ s label s', inv s → good s label → step s label = some s' → inv s')
    (himp : ∀ s label, inv s → good s label → holds s label)
    {start : State} {labels : List Label} (hstart : inv start)
    (hgood : Along step good start labels) : Along step holds start labels := by
  induction labels generalizing start with
  | nil => trivial
  | cons label rest ih =>
    refine ⟨himp _ _ hstart hgood.1, fun next hnext => ?_⟩
    exact ih (hstep _ _ _ hstart hgood.1 hnext) (hgood.2 next hnext)

theorem along_last {start s : State} {labels : List Label} {label : Label}
    (h : Along step good start (labels ++ [label])) (hrun : run step start labels = some s) :
    good s label := by
  induction labels generalizing start with
  | nil =>
    cases Option.some.inj hrun
    exact h.1
  | cons first rest ih =>
    obtain ⟨next, hnext, hrest⟩ := run_cons_eq_some.mp hrun
    exact ih (h.2 next hnext) hrest

theorem along_prefix {start : State} {past labels : List Label} (hpast : past <+: labels)
    (h : Along step good start labels) : Along step good start past := by
  induction past generalizing start labels with
  | nil => trivial
  | cons label past ih =>
    cases labels with
    | nil => exact absurd hpast (by simp)
    | cons first rest =>
      obtain ⟨rfl, hrest⟩ := List.cons_prefix_cons.mp hpast
      exact ⟨h.1, fun next hnext => ih hrest (h.2 next hnext)⟩

theorem along_mono {holds : State → Label → Prop} (himp : ∀ s label, good s label → holds s label)
    {start : State} {labels : List Label} (hgood : Along step good start labels) :
    Along step holds start labels := by
  induction labels generalizing start with
  | nil => trivial
  | cons label rest ih => exact ⟨himp _ _ hgood.1, fun next hnext => ih (hgood.2 next hnext)⟩

theorem along_of_mem {start : State} {labels : List Label} (h : ∀ s, ∀ label ∈ labels, good s label) :
    Along step good start labels := by
  induction labels generalizing start with
  | nil => trivial
  | cons label rest ih =>
    exact ⟨h _ _ List.mem_cons_self, fun next _ => ih fun s later hlater => h s later (List.mem_cons_of_mem _ hlater)⟩

theorem along_and {holds : State → Label → Prop} {start : State} {labels : List Label}
    (hgood : Along step good start labels) (hholds : Along step holds start labels) :
    Along step (fun s label => good s label ∧ holds s label) start labels := by
  induction labels generalizing start with
  | nil => trivial
  | cons label rest ih =>
    exact ⟨⟨hgood.1, hholds.1⟩, fun next hnext => ih (hgood.2 next hnext) (hholds.2 next hnext)⟩

theorem along_enabled {start final : State} {labels : List Label} (hrun : run step start labels = some final) :
    Along step (fun s label => (step s label).isSome) start labels := by
  induction labels generalizing start with
  | nil => trivial
  | cons label rest ih =>
    obtain ⟨next, hnext, hrest⟩ := run_cons_eq_some.mp hrun
    refine ⟨Option.isSome_iff_exists.mpr ⟨next, hnext⟩, fun mid hmid => ?_⟩
    cases Option.some.inj (hnext.symm.trans hmid)
    exact ih hrest

/-- Two conditions that are one under an invariant, which the steps that meet them
keep. -/
theorem along_congr {inv : State → Prop} {holds : State → Label → Prop}
    (hiff : ∀ s label s', inv s → step s label = some s' → (good s label ↔ holds s label))
    (hkeeps : ∀ s label s', inv s → good s label → step s label = some s' → inv s')
    {start final : State} {labels : List Label} (hstart : inv start)
    (hrun : run step start labels = some final) : Along step good start labels ↔ Along step holds start labels := by
  induction labels generalizing start with
  | nil => exact Iff.rfl
  | cons label rest ih =>
    obtain ⟨next, hnext, hrest⟩ := run_cons_eq_some.mp hrun
    refine and_congr_right_iff.mpr ?_ |>.trans (and_congr_left' (hiff start label next hstart hnext))
    intro hgood
    refine forall_congr' fun mid => imp_congr_right fun hmid => ?_
    cases Option.some.inj (hnext.symm.trans hmid)
    exact ih (hkeeps start label next hstart hgood hnext) hrest

theorem visits_start (start : State) (labels : List Label) : Visits step start labels start :=
  ⟨[], List.nil_prefix, rfl⟩

theorem visits_cons {start next s : State} {label : Label} {rest : List Label}
    (hnext : step start label = some next) :
    Visits step start (label :: rest) s ↔ s = start ∨ Visits step next rest s := by
  constructor
  · rintro ⟨past, hprefix, hrun⟩
    cases past with
    | nil => exact .inl (Option.some.inj hrun).symm
    | cons first past =>
      obtain ⟨rfl, hrest⟩ := List.cons_prefix_cons.mp hprefix
      rw [run_cons, hnext] at hrun
      exact .inr ⟨past, hrest, hrun⟩
  · rintro (rfl | ⟨past, hprefix, hrun⟩)
    · exact visits_start s _
    · refine ⟨label :: past, List.cons_prefix_cons.mpr ⟨rfl, hprefix⟩, ?_⟩
      rw [run_cons, hnext]
      exact hrun

/-- Good steps keep the invariant and every other step leaves the property: the
run has it throughout exactly if its steps are good. -/
theorem visits_iff_along {inv prop : State → Prop} (hholds : ∀ s, inv s → prop s)
    (hkeeps : ∀ s label s', inv s → good s label → step s label = some s' → inv s')
    (hbreaks : ∀ s label s', inv s → ¬ good s label → step s label = some s' → ¬ prop s')
    {start final : State} {labels : List Label} (hstart : inv start)
    (hrun : run step start labels = some final) :
    (∀ s, Visits step start labels s → prop s) ↔ Along step good start labels := by
  induction labels generalizing start with
  | nil =>
    refine iff_of_true (fun s hvisit => ?_) trivial
    obtain ⟨past, hprefix, hpast⟩ := hvisit
    rw [List.prefix_nil.mp hprefix] at hpast
    cases Option.some.inj hpast
    exact hholds _ hstart
  | cons label rest ih =>
    obtain ⟨next, hnext, hrest⟩ := run_cons_eq_some.mp hrun
    by_cases hgood : good start label
    · rw [show Along step good start (label :: rest) ↔ Along step good next rest from
        ⟨fun h => h.2 next hnext, fun h => ⟨hgood, fun mid hmid => by
          rw [Option.some.inj (hmid.symm.trans hnext)]
          exact h⟩⟩, ← ih (hkeeps _ _ _ hstart hgood hnext) hrest]
      constructor
      · intro hall s hvisit
        exact hall s ((visits_cons hnext).mpr (.inr hvisit))
      · intro hall s hvisit
        rcases (visits_cons hnext).mp hvisit with rfl | hvisit
        · exact hholds _ hstart
        · exact hall s hvisit
    · refine iff_of_false (fun hall => ?_) (fun h => hgood h.1)
      exact hbreaks _ _ _ hstart hgood hnext
        (hall next ((visits_cons hnext).mpr (.inr (visits_start next rest))))

end

end DectMesh.Lib
