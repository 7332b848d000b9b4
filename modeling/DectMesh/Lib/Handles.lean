import Mathlib.Data.List.Basic
import Mathlib.Data.List.Nodup
import Mathlib.Data.List.Perm.Subperm

/-! Handles that several parties take out and give back. Each party keeps at most
one at a time and knows it by where it stands; beside them stands the list of
what is out. -/
namespace DectMesh.Lib

universe u v

variable {Party : Type u} {Handle : Type v}

/-- The handles that are out are those that the parties have, each with one. -/
structure Accounted (has : Party → Option Handle) (out : List Handle) : Prop where
  nodup : out.Nodup
  out_iff : ∀ handle, handle ∈ out ↔ ∃ party, has party = some handle
  alone : ∀ party other handle, has party = some handle → has other = some handle → party = other

inductive Passes : Option Handle → Option Handle → Option Handle → Option Handle → Prop where
  | keeps (handle : Option Handle) : Passes handle none none handle
  | takes (handle : Handle) : Passes none (some handle) none (some handle)
  | returns (handle : Handle) : Passes (some handle) none (some handle) none

structure PassStep (has has' : Party → Option Handle) (taken returned : Option Handle) (party : Party) : Prop where
  passes : Passes (has party) taken returned (has' party)
  others : ∀ other, other ≠ party → has' other = has other

def settle [DecidableEq Handle] (taken returned : Option Handle) (out : List Handle) : List Handle :=
  let out := taken.toList ++ out
  match returned with
  | some handle => out.erase handle
  | none => out

theorem accounted_none : Accounted (fun _ : Party => (none : Option Handle)) [] :=
  ⟨List.nodup_nil, by simp, by simp⟩

theorem Accounted.step [DecidableEq Handle] {has has' : Party → Option Handle} {out : List Handle}
    {taken returned : Option Handle} {party : Party} (h : Accounted has out) (hfresh : ∀ handle ∈ taken, handle ∉ out)
    (hstep : PassStep has has' taken returned party) : Accounted has' (settle taken returned out) := by
  obtain ⟨hpasses, hothers⟩ := hstep
  generalize hhad : has party = had at hpasses
  generalize hnow : has' party = now at hpasses
  cases hpasses with
  | keeps =>
    have hsame : has' = has := by
      funext other
      by_cases heq : other = party
      · rw [heq, hnow, hhad]
      · exact hothers other heq
    rw [hsame]
    exact h
  | takes handle =>
    have hnew : handle ∉ out := hfresh handle rfl
    have hnobody : ∀ other, has other ≠ some handle :=
      fun other hother => hnew ((h.out_iff handle).mpr ⟨other, hother⟩)
    refine ⟨List.nodup_cons.mpr ⟨hnew, h.nodup⟩, fun x => ?_, fun p q x hp hq => ?_⟩
    · rw [settle, Option.toList_some, List.singleton_append, List.mem_cons, h.out_iff]
      constructor
      · rintro (rfl | ⟨other, hother⟩)
        · exact ⟨party, hnow⟩
        · have hne : other ≠ party := fun heq => by simp [heq, hhad] at hother
          exact ⟨other, (hothers other hne).trans hother⟩
      · rintro ⟨other, hother⟩
        by_cases heq : other = party
        · rw [heq, hnow] at hother
          exact .inl (Option.some.inj hother).symm
        · exact .inr ⟨other, (hothers other heq).symm.trans hother⟩
    · by_cases hpparty : p = party
      · by_cases hqparty : q = party
        · exact hpparty.trans hqparty.symm
        · rw [hpparty, hnow] at hp
          cases hp
          exact absurd ((hothers q hqparty).symm.trans hq) (hnobody q)
      · by_cases hqparty : q = party
        · rw [hqparty, hnow] at hq
          cases hq
          exact absurd ((hothers p hpparty).symm.trans hp) (hnobody p)
        · exact h.alone p q x ((hothers p hpparty).symm.trans hp) ((hothers q hqparty).symm.trans hq)
  | returns handle =>
    refine ⟨h.nodup.erase handle, fun x => ?_, fun p q x hp hq => ?_⟩
    · rw [settle, Option.toList_none, List.nil_append, h.nodup.mem_erase_iff, h.out_iff]
      constructor
      · rintro ⟨hne, other, hother⟩
        have hparty : other ≠ party := by
          rintro rfl
          exact hne (Option.some.inj (hother.symm.trans hhad))
        exact ⟨other, (hothers other hparty).trans hother⟩
      · rintro ⟨other, hother⟩
        have hparty : other ≠ party := fun heq => by simp [heq, hnow] at hother
        have hbefore := (hothers other hparty).symm.trans hother
        refine ⟨fun heq => hparty (h.alone other party handle ?_ hhad), other, hbefore⟩
        exact heq ▸ hbefore
    · have hkept : ∀ r, has' r = some x → has r = some x := by
        intro r hr
        have hparty : r ≠ party := fun heq => by simp [heq, hnow] at hr
        exact (hothers r hparty).symm.trans hr
      exact h.alone p q x (hkept p hp) (hkept q hq)

/-- No more handles are out than there are parties that may have one. -/
theorem Accounted.length_le {has : Party → Option Handle} {out : List Handle} (h : Accounted has out)
    {parties : List Party} (hparties : ∀ party, has party ≠ none → party ∈ parties) :
    out.length ≤ parties.length := by
  have hsubset : out.map some ⊆ parties.map has := by
    intro x hx
    obtain ⟨handle, hmem, rfl⟩ := List.mem_map.mp hx
    obtain ⟨party, hparty⟩ := (h.out_iff handle).mp hmem
    exact List.mem_map.mpr ⟨party, hparties party (by simp [hparty]), hparty⟩
  have hnodup : (out.map some).Nodup := List.Nodup.map (fun _ _ => Option.some.inj) h.nodup
  simpa using (hnodup.subperm hsubset).length_le

end DectMesh.Lib
