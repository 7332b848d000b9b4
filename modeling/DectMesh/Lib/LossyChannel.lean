import Mathlib.Data.List.Basic

/-! A channel that may lose what it is offered. It keeps the order of what it
accepts, and what is lost is lost when it is offered. -/
namespace DectMesh.Lib

universe u

/-- `offered` has everything that came in, with whether it was accepted. -/
structure Channel (α : Type u) where
  offered : List (α × Bool)
  queued : List α
  delivered : List α

def accepted {α : Type u} (offered : List (α × Bool)) : List α :=
  (offered.filter Prod.snd).map Prod.fst

section

variable {α : Type u} {offered later : List (α × Bool)} {items : List α}

@[simp] theorem accepted_append : accepted (offered ++ later) = accepted offered ++ accepted later := by
  simp only [accepted, List.filter_append, List.map_append]

@[simp] theorem accepted_kept : accepted (items.map fun item => (item, true)) = items := by
  induction items with
  | nil => rfl
  | cons item rest ih => exact congrArg (item :: ·) ih

@[simp] theorem accepted_lost : accepted (items.map fun item => (item, false)) = [] := by
  induction items with
  | nil => rfl
  | cons item rest ih => exact ih

theorem accepted_all (h : ∀ offer ∈ offered, offer.2 = true) : accepted offered = offered.map Prod.fst :=
  congrArg (List.map Prod.fst) (List.filter_eq_self.mpr h)

end

namespace Channel

variable {α : Type u}

def accept (c : Channel α) (items : List α) : Channel α :=
  { c with
    offered := c.offered ++ items.map fun item => (item, true)
    queued := c.queued ++ items }

def lose (c : Channel α) (items : List α) : Channel α :=
  { c with offered := c.offered ++ items.map fun item => (item, false) }

def deliver (c : Channel α) (n : Nat) : Channel α :=
  { c with queued := c.queued.drop n, delivered := c.delivered ++ c.queued.take n }

/-- What was delivered and what is on its way is what was accepted, in order. -/
def Faithful (c : Channel α) : Prop := c.delivered ++ c.queued = accepted c.offered

variable {c : Channel α}

theorem Faithful.accept (h : c.Faithful) (items : List α) : (c.accept items).Faithful := by
  show c.delivered ++ (c.queued ++ items) = accepted (c.offered ++ _)
  rw [accepted_append, accepted_kept, ← h, List.append_assoc]

theorem Faithful.lose (h : c.Faithful) (items : List α) : (c.lose items).Faithful := by
  show c.delivered ++ c.queued = accepted (c.offered ++ _)
  rw [accepted_append, accepted_lost, List.append_nil]
  exact h

theorem Faithful.deliver (h : c.Faithful) (n : Nat) : (c.deliver n).Faithful := by
  show (c.delivered ++ c.queued.take n) ++ c.queued.drop n = accepted c.offered
  rw [List.append_assoc, List.take_append_drop]
  exact h

end Channel

end DectMesh.Lib
