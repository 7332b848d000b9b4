import Mathlib.Data.List.Basic
import Mathlib.Logic.Function.Basic

/-! Nodes that carry their own sibling pointers. A directory points to its first
child and each child to the next, so a list of children is a chain of pointers;
linking and unlinking write the pointers in place. The loops along a chain take
fuel, and more fuel than the chain is long is enough. -/
namespace DectMesh.Lib

universe u

structure Siblings (α : Type u) where
  children : α → Option α
  next : α → Option α
  parent : α → Option α

/-- Following `next` from a pointer visits these nodes and comes to an end. -/
def Chain {α : Type u} (next : α → Option α) : Option α → List α → Prop
  | ptr, [] => ptr = none
  | ptr, a :: rest => ptr = some a ∧ Chain next (next a) rest

namespace Siblings

variable {α : Type u} [DecidableEq α]

def bare : Siblings α := ⟨fun _ => none, fun _ => none, fun _ => none⟩

/-- These are the children of `dir`, in their order. -/
def Lists (s : Siblings α) (dir : α) (xs : List α) : Prop := Chain s.next (s.children dir) xs

def clear (a : α) (s : Siblings α) : Siblings α where
  children := Function.update s.children a none
  next := Function.update s.next a none
  parent := Function.update s.parent a none

def link (dir child : α) (s : Siblings α) : Siblings α where
  parent := Function.update s.parent child (some dir)
  next := Function.update s.next child (s.children dir)
  children := Function.update s.children dir (some child)

/-- The link a pointer to pointers points to: the one in the directory, or the
one in a node. -/
def load (s : Siblings α) (dir : α) : Option α → Option α
  | none => s.children dir
  | some a => s.next a

def store (s : Siblings α) (dir : α) (value : Option α) : Option α → Siblings α
  | none => { s with children := Function.update s.children dir value }
  | some a => { s with next := Function.update s.next a value }

def takeOut (dir child : α) (link : Option α) (s : Siblings α) : Siblings α :=
  let s := s.store dir (s.next child) link
  { s with next := Function.update s.next child none }

def unlinkFrom (dir child : α) : Nat → Option α → Siblings α → Option (Siblings α)
  | 0, _, _ => none
  | fuel + 1, link, s =>
      match s.load dir link with
      | none => some s
      | some node =>
          if node = child then some (s.takeOut dir child link) else unlinkFrom dir child fuel (some node) s

def unlink (fuel : Nat) (dir child : α) (s : Siblings α) : Option (Siblings α) :=
  unlinkFrom dir child fuel none s

def findFrom (s : Siblings α) (p : α → Bool) : Nat → Option α → Option (Option α)
  | 0, _ => none
  | _ + 1, none => some none
  | fuel + 1, some node => if p node then some (some node) else findFrom s p fuel (s.next node)

end Siblings

section

variable {α : Type u} {next next' : α → Option α} {ptr : Option α} {xs ys : List α} {a : α}

theorem Chain.unique (h : Chain next ptr xs) (h' : Chain next ptr ys) : xs = ys := by
  induction xs generalizing ptr ys with
  | nil =>
    cases ys with
    | nil => rfl
    | cons b ys => cases h.symm.trans h'.1
  | cons a xs ih =>
    cases ys with
    | nil => cases h.1.symm.trans h'
    | cons b ys =>
      obtain rfl := Option.some.inj (h.1.symm.trans h'.1)
      rw [ih h.2 h'.2]

theorem Chain.behind (h : Chain next ptr xs) (ha : a ∈ xs) :
    ∃ later, Chain next (next a) later ∧ later.length < xs.length := by
  induction xs generalizing ptr with
  | nil => cases ha
  | cons b xs ih =>
    rcases List.mem_cons.mp ha with rfl | hmem
    · exact ⟨xs, h.2, Nat.lt_succ_self _⟩
    · obtain ⟨later, hlater, hlength⟩ := ih h.2 hmem
      exact ⟨later, hlater, Nat.lt_succ_of_lt hlength⟩

theorem Chain.nodup (h : Chain next ptr xs) : xs.Nodup := by
  induction xs generalizing ptr with
  | nil => exact List.nodup_nil
  | cons a xs ih =>
    refine List.nodup_cons.mpr ⟨fun ha => ?_, ih h.2⟩
    obtain ⟨later, hlater, hlength⟩ := h.2.behind ha
    rw [h.2.unique hlater] at hlength
    exact Nat.lt_irrefl _ hlength

theorem Chain.congr (h : Chain next ptr xs) (hnext : ∀ a ∈ xs, next' a = next a) : Chain next' ptr xs := by
  induction xs generalizing ptr with
  | nil => exact h
  | cons a xs ih =>
    refine ⟨h.1, ?_⟩
    rw [hnext a List.mem_cons_self]
    exact ih h.2 fun b hb => hnext b (List.mem_cons_of_mem a hb)

end

namespace Siblings

variable {α : Type u} [DecidableEq α] {s s' : Siblings α} {dir other child : α} {xs ys : List α}

omit [DecidableEq α] in
theorem Lists.congr (h : s.Lists dir xs) (hchildren : s'.children dir = s.children dir)
    (hnext : ∀ a ∈ xs, s'.next a = s.next a) : s'.Lists dir xs := by
  rw [Lists, hchildren]
  exact Chain.congr h hnext

theorem lists_clear : (s.clear dir).Lists dir [] := Function.update_self _ _ _

theorem Lists.clear (h : s.Lists dir xs) (hdir : dir ≠ child) (hchild : child ∉ xs) : (s.clear child).Lists dir xs := by
  refine h.congr (Function.update_of_ne hdir _ _) fun a ha => Function.update_of_ne ?_ _ _
  rintro rfl
  exact hchild ha

theorem lists_link (h : s.Lists dir xs) (hchild : child ∉ xs) : (s.link dir child).Lists dir (child :: xs) := by
  refine ⟨Function.update_self _ _ _, ?_⟩
  rw [show (s.link dir child).next child = s.children dir from Function.update_self _ _ _]
  refine Chain.congr h fun a ha => Function.update_of_ne ?_ _ _
  rintro rfl
  exact hchild ha

theorem Lists.link (h : s.Lists other ys) (hother : other ≠ dir) (hchild : child ∉ ys) :
    (s.link dir child).Lists other ys := by
  refine h.congr (Function.update_of_ne hother _ _) fun a ha => Function.update_of_ne ?_ _ _
  rintro rfl
  exact hchild ha

theorem takeOut_children {link : Option α} (h : other ≠ dir) :
    (s.takeOut dir child link).children other = s.children other := by
  cases link with
  | none => exact Function.update_of_ne h _ _
  | some a => rfl

theorem takeOut_next {link : Option α} {a : α} (ha : a ≠ child) (hlink : link ≠ some a) :
    (s.takeOut dir child link).next a = s.next a := by
  refine (Function.update_of_ne ha _ _).trans ?_
  cases link with
  | none => rfl
  | some b => exact Function.update_of_ne (fun hab => hlink (congrArg some hab.symm)) _ _

theorem takeOut_load {link ptr : Option α} (hlink : ptr ≠ link) (hchild : ptr ≠ some child) :
    (s.takeOut dir child link).load dir ptr = s.load dir ptr := by
  cases ptr with
  | none =>
    cases link with
    | none => exact absurd rfl hlink
    | some b => rfl
  | some a => exact takeOut_next (fun ha => hchild (congrArg some ha)) (Ne.symm hlink)

theorem takeOut_link {link : Option α} (hlink : link ≠ some child) :
    (s.takeOut dir child link).load dir link = s.next child := by
  cases link with
  | none => exact Function.update_self _ _ _
  | some b =>
    refine (Function.update_of_ne (fun hb => hlink (congrArg some hb)) _ _).trans ?_
    exact Function.update_self _ _ _

theorem takeOut_parent {link : Option α} : (s.takeOut dir child link).parent = s.parent := by
  cases link <;> rfl

theorem link_parent (a : α) : (s.link dir child).parent a = if a = child then some dir else s.parent a :=
  Function.update_apply _ _ _ _

/-! ## Several nodes at once -/

theorem Lists.clearAll {ids : List α} (h : s.Lists dir xs) (hdir : dir ∉ ids) (hids : ∀ a ∈ xs, a ∉ ids) :
    (ids.foldl (fun s a => s.clear a) s).Lists dir xs := by
  induction ids generalizing s with
  | nil => exact h
  | cons a ids ih =>
    obtain ⟨hne, hdir⟩ := List.ne_and_not_mem_of_not_mem_cons hdir
    apply ih (h.clear hne fun ha => hids a ha List.mem_cons_self) hdir
    exact fun b hb hmem => hids b hb (List.mem_cons_of_mem a hmem)

theorem Lists.linkAll {ids : List α} (h : s.Lists other ys) (hother : other ≠ dir) (hids : ∀ a ∈ ys, a ∉ ids) :
    (ids.foldl (fun s a => s.link dir a) s).Lists other ys := by
  induction ids generalizing s with
  | nil => exact h
  | cons a ids ih =>
    apply ih (h.link hother fun ha => hids a ha List.mem_cons_self)
    exact fun b hb hmem => hids b hb (List.mem_cons_of_mem a hmem)

theorem lists_clearAll {ids : List α} (hdir : dir ∈ ids) :
    (ids.foldl (fun s a => s.clear a) s).Lists dir [] := by
  induction ids generalizing s with
  | nil => cases hdir
  | cons a ids ih =>
    rw [List.foldl_cons]
    by_cases hmem : dir ∈ ids
    · exact ih hmem
    · obtain rfl := (List.mem_cons.mp hdir).resolve_right hmem
      exact Lists.clearAll lists_clear hmem nofun

theorem lists_linkAll {ids : List α} (h : s.Lists dir xs) (hids : ids.Nodup) (hnew : ∀ a ∈ ids, a ∉ xs) :
    (ids.foldl (fun s a => s.link dir a) s).Lists dir (ids.reverse ++ xs) := by
  induction ids generalizing s xs with
  | nil => exact h
  | cons a ids ih =>
    obtain ⟨ha, hids⟩ := List.nodup_cons.mp hids
    rw [List.reverse_cons, List.append_assoc]
    apply ih (lists_link h (hnew a List.mem_cons_self)) hids
    intro b hb
    refine List.not_mem_cons_of_ne_of_not_mem ?_ (hnew b (List.mem_cons_of_mem a hb))
    rintro rfl
    exact ha hb

theorem clearAll_parent {ids : List α} {a : α} (ha : a ∉ ids) :
    (ids.foldl (fun s a => s.clear a) s).parent a = s.parent a := by
  induction ids generalizing s with
  | nil => rfl
  | cons b ids ih =>
    obtain ⟨hne, ha⟩ := List.ne_and_not_mem_of_not_mem_cons ha
    exact (ih ha).trans (Function.update_of_ne hne _ _)

theorem linkAll_parent (ids : List α) (a : α) :
    (ids.foldl (fun s a => s.link dir a) s).parent a = if a ∈ ids then some dir else s.parent a := by
  induction ids generalizing s with
  | nil => rfl
  | cons b ids ih =>
    rw [List.foldl_cons, ih, link_parent]
    by_cases hmem : a ∈ ids
    · rw [if_pos hmem, if_pos (List.mem_cons_of_mem b hmem)]
    · rw [if_neg hmem]
      simp only [List.mem_cons, hmem, or_false]

structure Unlinked (s s' : Siblings α) (dir child : α) (link : Option α) (xs : List α) : Prop where
  chain : Chain s'.next (s'.load dir link) (xs.erase child)
  links : ∀ ptr, ptr ≠ link → (∀ a ∈ xs, ptr ≠ some a) → s'.load dir ptr = s.load dir ptr
  children : ∀ other, other ≠ dir → s'.children other = s.children other
  parent : s'.parent = s.parent

theorem unlinkFrom_chain {fuel : Nat} {link : Option α} (h : Chain s.next (s.load dir link) xs)
    (hlink : ∀ a ∈ xs, link ≠ some a) (hfuel : xs.length < fuel) :
    ∃ s', unlinkFrom dir child fuel link s = some s' ∧ Unlinked s s' dir child link xs := by
  -- along the chain; the link is the one the loop stands at
  induction xs generalizing fuel link with
  | nil =>
    obtain ⟨fuel, rfl⟩ := Nat.exists_eq_succ_of_ne_zero (Nat.ne_of_gt hfuel)
    have hend : s.load dir link = none := h
    refine ⟨s, ?_, h, fun _ _ _ => rfl, fun _ _ => rfl, rfl⟩
    rw [unlinkFrom, hend]
  | cons node rest ih =>
    obtain ⟨fuel, rfl⟩ := Nat.exists_eq_succ_of_ne_zero (Nat.ne_of_gt (Nat.zero_lt_of_lt hfuel))
    have hnodup := List.nodup_cons.mp (Chain.nodup h)
    have hnode : link ≠ some node := hlink node List.mem_cons_self
    rw [unlinkFrom, h.1]
    by_cases hfound : node = child
    · subst hfound
      refine ⟨_, if_pos rfl, ?_, fun ptr hat hall => ?_, fun _ => takeOut_children, takeOut_parent⟩
      · rw [List.erase_cons_head, takeOut_link hnode]
        refine h.2.congr fun a ha => takeOut_next ?_ (hlink a (List.mem_cons_of_mem _ ha))
        rintro rfl
        exact hnodup.1 ha
      · exact takeOut_load hat (hall node List.mem_cons_self)
    · have hrest : ∀ a ∈ rest, some node ≠ some a := by
        rintro a ha ⟨⟩
        exact hnodup.1 ha
      have hbehind : Chain s.next (s.load dir (some node)) rest := h.2
      obtain ⟨s', hunlink, hunlinked⟩ := ih hbehind hrest (Nat.lt_of_succ_lt_succ hfuel)
      refine ⟨s', (if_neg hfound).trans hunlink, ?_, fun ptr hat hall => ?_, hunlinked.children, hunlinked.parent⟩
      · rw [List.erase_cons_tail (by simpa using hfound)]
        refine ⟨?_, hunlinked.chain⟩
        rw [hunlinked.links link hnode fun a ha => hlink a (List.mem_cons_of_mem _ ha)]
        exact h.1
      · exact hunlinked.links ptr (hall node List.mem_cons_self) fun a ha => hall a (List.mem_cons_of_mem _ ha)

/-- With fuel for the whole list the child is gone from it, if it was there, and
every other list is as it was. -/
theorem unlink_lists {fuel : Nat} (h : s.Lists dir xs) (hfuel : xs.length < fuel) :
    ∃ s', s.unlink fuel dir child = some s' ∧ s'.Lists dir (xs.erase child) ∧ s'.parent = s.parent ∧
      ∀ other ys, other ≠ dir → (∀ a ∈ ys, a ∉ xs) → s.Lists other ys → s'.Lists other ys := by
  have hchain : Chain s.next (s.load dir none) xs := h
  obtain ⟨s', hunlink, hunlinked⟩ := unlinkFrom_chain hchain nofun hfuel
  refine ⟨s', hunlink, hunlinked.chain, hunlinked.parent, fun other ys hother hys hlists => ?_⟩
  refine hlists.congr (hunlinked.children other hother) fun a ha => ?_
  refine hunlinked.links (some a) nofun fun b hb => ?_
  rintro ⟨⟩
  exact hys a ha hb

omit [DecidableEq α] in
theorem findFrom_chain {p : α → Bool} {fuel : Nat} {ptr : Option α} (h : Chain s.next ptr xs)
    (hfuel : xs.length < fuel) : s.findFrom p fuel ptr = some (xs.find? p) := by
  induction xs generalizing fuel ptr with
  | nil =>
    obtain ⟨fuel, rfl⟩ := Nat.exists_eq_succ_of_ne_zero (Nat.ne_of_gt hfuel)
    rw [show ptr = none from h]
    rfl
  | cons node rest ih =>
    obtain ⟨fuel, rfl⟩ := Nat.exists_eq_succ_of_ne_zero (Nat.ne_of_gt (Nat.zero_lt_of_lt hfuel))
    rw [h.1, findFrom, List.find?_cons, ih h.2 (Nat.lt_of_succ_lt_succ hfuel)]
    cases p node <;> rfl

end Siblings

end DectMesh.Lib
