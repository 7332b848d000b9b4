import Mathlib.Data.List.Basic

/-! A bounded message queue with parked readers. A put hands its item to the
reader that has waited longest, else queues it, and never blocks; a purge
discards what is queued and wakes every reader empty-handed. -/
namespace DectMesh.Lib

universe u v

structure Mailbox (α : Type u) (ρ : Type v) where
  items : List α
  parked : List ρ

inductive PutResult (ρ : Type v) where
  | handed (reader : ρ)
  | queued
  | full

def PutResult.item {α : Type u} {ρ : Type v} (item : α) : PutResult ρ → List α
  | .handed _ => [item]
  | .queued | .full => []

namespace Mailbox

variable {α : Type u} {ρ : Type v}

def empty : Mailbox α ρ := ⟨[], []⟩

def put (depth : Nat) (box : Mailbox α ρ) (item : α) : PutResult ρ × Mailbox α ρ :=
  if box.items.length < depth then
    match box.parked with
    | reader :: later => (.handed reader, { box with parked := later })
    | [] => (.queued, { box with items := box.items ++ [item] })
  else (.full, box)

/-- A read that waits: the oldest item, or a place among the parked readers. -/
def get (box : Mailbox α ρ) (reader : ρ) : Option α × Mailbox α ρ :=
  match box.items with
  | item :: rest => (some item, { box with items := rest })
  | [] => (none, { box with parked := box.parked ++ [reader] })

/-- A read that does not wait, or whose wait ended without an item. -/
def poll (box : Mailbox α ρ) : Option α × Mailbox α ρ :=
  match box.items with
  | item :: rest => (some item, { box with items := rest })
  | [] => (none, box)

def purge (box : Mailbox α ρ) : List ρ × Mailbox α ρ := (box.parked, empty)

/-! ## What flows through -/

def Calm (box : Mailbox α ρ) : Prop := box.parked = [] ∨ box.items = []

theorem calm_empty : (empty : Mailbox α ρ).Calm := .inl rfl

section

variable {box : Mailbox α ρ} {depth : Nat} {item : α} {reader : ρ}

theorem put_calm (h : box.Calm) : (box.put depth item).2.Calm := by
  unfold put
  split
  · cases hparked : box.parked with
    | nil => exact .inl rfl
    | cons first later =>
      refine .inr ?_
      rcases h with h | h
      · rw [hparked] at h
        cases h
      · exact h
  · exact h

theorem get_calm (h : box.Calm) : (box.get reader).2.Calm := by
  unfold get
  cases hitems : box.items with
  | nil => exact .inr rfl
  | cons first rest =>
    rcases h with h | h
    · exact .inl h
    · rw [hitems] at h
      cases h

theorem poll_calm (h : box.Calm) : box.poll.2.Calm := by
  unfold poll
  cases hitems : box.items with
  | nil => exact h
  | cons first rest =>
    rcases h with h | h
    · exact .inl h
    · rw [hitems] at h
      cases h

theorem put_flow (h : box.Calm) :
    PutResult.item item (box.put depth item).1 ++ (box.put depth item).2.items =
      box.items ++ if box.items.length < depth then [item] else [] := by
  unfold put
  split
  · cases hparked : box.parked with
    | nil => rfl
    | cons first later =>
      rcases h with h | h
      · rw [hparked] at h
        cases h
      · simp only [PutResult.item, h, List.append_nil, List.nil_append]
  · simp only [PutResult.item, List.nil_append, List.append_nil]

theorem put_handed (h : (box.put depth item).1 = .handed reader) : box.items.length < depth := by
  unfold put at h
  by_contra hfull
  rw [if_neg hfull] at h
  cases h

theorem get_flow : (box.get reader).1.toList ++ (box.get reader).2.items = box.items := by
  unfold get
  cases hitems : box.items with
  | nil => simp
  | cons first rest => rfl

theorem poll_flow : box.poll.1.toList ++ box.poll.2.items = box.items := by
  unfold poll
  cases hitems : box.items with
  | nil => simp [hitems]
  | cons first rest => rfl

end

end Mailbox

end DectMesh.Lib
