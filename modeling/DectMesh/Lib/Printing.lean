import DectMesh.Lib.Wire

/-! Text printed piece after piece into a fixed buffer: `snprintf` stores what
fits and a NUL, and returns the length of the whole text, by which the cursor
moves on. -/
namespace DectMesh.Lib

universe u

def snprintfStores (size : Nat) (text : List UInt8) : List UInt8 :=
  if size = 0 then [] else text.take (size - 1) ++ [0]

/-- The buffer after a store; what falls behind its end is not in it. -/
def storeAt {α : Type u} (bytes : List α) (pos : Nat) (new : List α) : List α :=
  bytes.take pos ++ new.take (bytes.length - pos) ++ bytes.drop (pos + new.length)

section

variable {α : Type u}

theorem length_snprintfStores_le (size : Nat) (text : List UInt8) : (snprintfStores size text).length ≤ size := by
  unfold snprintfStores
  split
  · exact Nat.zero_le _
  · rw [List.length_append, List.length_take, List.length_singleton]
    omega

theorem snprintfStores_of_lt {size : Nat} {text : List UInt8} (h : text.length < size) :
    snprintfStores size text = text ++ [0] := by
  unfold snprintfStores
  rw [if_neg (by omega), List.take_of_length_le (by omega)]

theorem length_storeAt (bytes : List α) (pos : Nat) (new : List α) :
    (storeAt bytes pos new).length = bytes.length := by
  simp only [storeAt, List.length_append, List.length_take, List.length_drop]
  omega

theorem storeAt_append {front back : List α} {pos : Nat} (new : List α) (hpos : front.length = pos)
    (hroom : new.length ≤ back.length) : storeAt (front ++ back) pos new = front ++ new ++ back.drop new.length := by
  subst hpos
  rw [storeAt, List.take_left, List.length_append, Nat.add_sub_cancel_left, List.take_of_length_le hroom,
    List.drop_append, List.drop_of_length_le (Nat.le_add_right _ _), List.nil_append, Nat.add_sub_cancel_left]

end

def Plain (text : List UInt8) : Prop := ∀ c ∈ text, c ≠ 0

@[simp] theorem plain_nil : Plain [] := nofun

@[simp] theorem plain_cons {c : UInt8} {text : List UInt8} : Plain (c :: text) ↔ c ≠ 0 ∧ Plain text :=
  List.forall_mem_cons

@[simp] theorem plain_append {front back : List UInt8} : Plain (front ++ back) ↔ Plain front ∧ Plain back :=
  List.forall_mem_append

structure Print where
  cursor : Nat
  size : Nat
  text : List UInt8

/-- A buffer of `cap` bytes and the cursor. `prints` is history. -/
structure Sheet (cap : Nat) where
  bytes : List UInt8
  sized : bytes.length = cap
  cursor : Nat
  prints : List Print

namespace Sheet

variable {cap : Nat}

def rewind (s : Sheet cap) : Sheet cap := ⟨s.bytes, s.sized, 0, []⟩

/-- `buf[0] = '\0'` -/
def clear (s : Sheet cap) : Sheet cap := ⟨s.bytes.set 0 0, by rw [List.length_set, s.sized], s.cursor, s.prints⟩

/-- `sizeof(buf) - p`, an unsigned difference. -/
def room (s : Sheet cap) : Nat := cUInt (cap - s.cursor)

/-- `p += snprintf(buf + p, sizeof(buf) - p, ..)` -/
def print (s : Sheet cap) (text : List UInt8) : Sheet cap where
  bytes := storeAt s.bytes s.cursor (snprintfStores s.room text)
  sized := by rw [length_storeAt, s.sized]
  cursor := s.cursor + text.length
  prints := s.prints ++ [⟨s.cursor, s.room, text⟩]

def printSome (s : Sheet cap) : Option (List UInt8) → Sheet cap
  | some text => s.print text
  | none => s

def printEach {β : Type u} (line : β → Option (List UInt8)) (items : List β) (s : Sheet cap) : Sheet cap :=
  items.foldl (fun s item => s.printSome (line item)) s

def eachText {β : Type u} (line : β → Option (List UInt8)) (items : List β) : List UInt8 :=
  items.flatMap fun item => (line item).getD []

/-! ## Where it stores -/

/-- The cursor is never behind the end of the buffer, the size argument never
wraps, and nothing is stored outside. -/
def StaysInside (s : Sheet cap) : Prop :=
  s.cursor ≤ cap ∧ ∀ call ∈ s.prints, call.cursor ≤ cap ∧ call.size = cap - call.cursor ∧
    call.cursor + (snprintfStores call.size call.text).length ≤ cap

theorem rewind_inside (s : Sheet cap) : s.rewind.StaysInside := ⟨Nat.zero_le _, nofun⟩

theorem clear_inside {s : Sheet cap} : s.clear.StaysInside ↔ s.StaysInside := Iff.rfl

theorem room_eq {s : Sheet cap} (hcap : cap < 4294967296) (h : s.cursor ≤ cap) : s.room = cap - s.cursor := by
  unfold room cUInt
  omega

theorem print_inside {s : Sheet cap} (hcap : cap < 4294967296) (text : List UInt8) :
    (s.print text).StaysInside ↔ s.StaysInside ∧ s.cursor + text.length ≤ cap := by
  constructor
  · rintro ⟨hcursor, hcalls⟩
    have hlast : s.cursor + text.length ≤ cap := hcursor
    refine ⟨⟨by omega, fun call hcall => ?_⟩, hlast⟩
    exact hcalls call (List.mem_append_left _ hcall)
  · rintro ⟨⟨hcursor, hcalls⟩, hlast⟩
    refine ⟨hlast, fun call hcall => ?_⟩
    rcases List.mem_append.mp hcall with hbefore | hnew
    · exact hcalls call hbefore
    · rw [List.mem_singleton.mp hnew]
      have hstored := length_snprintfStores_le (cap - s.cursor) text
      refine ⟨hcursor, room_eq hcap hcursor, ?_⟩
      dsimp only
      rw [room_eq hcap hcursor]
      omega

theorem printSome_inside {s : Sheet cap} (hcap : cap < 4294967296) (text : Option (List UInt8)) :
    (s.printSome text).StaysInside ↔ s.StaysInside ∧ s.cursor + (text.getD []).length ≤ cap := by
  cases text with
  | none => exact ⟨fun h => ⟨h, h.1⟩, fun h => h.1⟩
  | some text => exact print_inside hcap text

theorem printSome_cursor (s : Sheet cap) (text : Option (List UInt8)) :
    (s.printSome text).cursor = s.cursor + (text.getD []).length := by
  cases text <;> rfl

theorem printEach_inside {β : Type u} (line : β → Option (List UInt8)) (hcap : cap < 4294967296) (items : List β)
    (s : Sheet cap) :
    (s.printEach line items).StaysInside ↔ s.StaysInside ∧ s.cursor + (eachText line items).length ≤ cap := by
  induction items generalizing s with
  | nil => exact ⟨fun h => ⟨h, h.1⟩, fun h => h.1⟩
  | cons item rest ih =>
    have hloop : s.printEach line (item :: rest) = (s.printSome (line item)).printEach line rest := rfl
    have hlength : (eachText line (item :: rest)).length =
        ((line item).getD []).length + (eachText line rest).length := List.length_append
    rw [hloop, ih, printSome_inside hcap, printSome_cursor, hlength]
    constructor
    · rintro ⟨⟨hinside, -⟩, hwidth⟩
      exact ⟨hinside, by omega⟩
    · rintro ⟨hinside, hwidth⟩
      exact ⟨⟨hinside, by omega⟩, by omega⟩

/-! ## What it holds -/

def Holds (s : Sheet cap) (text : List UInt8) : Prop :=
  s.cursor = text.length ∧ ∃ rest, s.bytes = text ++ 0 :: rest

theorem clear_holds (s : Sheet cap) (hcap : 0 < cap) : s.rewind.clear.Holds [] := by
  refine ⟨rfl, s.bytes.tail, ?_⟩
  have hsized := s.sized
  cases hbytes : s.bytes with
  | nil =>
    rw [hbytes] at hsized
    exact absurd hsized hcap.ne
  | cons first rest => simp only [clear, rewind, hbytes, List.set_cons_zero, List.nil_append, List.tail_cons]

theorem print_holds {s : Sheet cap} {text back : List UInt8} (hcap : cap < 4294967296)
    (hcursor : s.cursor = text.length) (hbytes : s.bytes = text ++ back) {more : List UInt8}
    (hroom : text.length + more.length < cap) : (s.print more).Holds (text ++ more) := by
  have hsized := s.sized
  rw [hbytes, List.length_append] at hsized
  refine ⟨?_, back.drop (more ++ [(0 : UInt8)]).length, ?_⟩
  · rw [List.length_append, ← hcursor]
    rfl
  · have hstores : snprintfStores s.room more = more ++ [0] := by
      rw [room_eq hcap (by omega)]
      exact snprintfStores_of_lt (by omega)
    have hback : (more ++ [(0 : UInt8)]).length ≤ back.length := by
      rw [List.length_append, List.length_singleton]
      omega
    calc (s.print more).bytes = storeAt (text ++ back) s.cursor (more ++ [0]) := by
          rw [← hbytes, ← hstores]
          rfl
      _ = text ++ (more ++ [0]) ++ back.drop (more ++ [(0 : UInt8)]).length :=
          storeAt_append _ hcursor.symm hback
      _ = text ++ more ++ 0 :: back.drop (more ++ [(0 : UInt8)]).length := by
          simp only [List.append_assoc, List.singleton_append]

theorem printSome_holds {s : Sheet cap} {text : List UInt8} (hcap : cap < 4294967296) (h : s.Holds text)
    {more : Option (List UInt8)} (hroom : text.length + (more.getD []).length < cap) :
    (s.printSome more).Holds (text ++ more.getD []) := by
  cases more with
  | none => rwa [Option.getD_none, List.append_nil]
  | some more =>
    obtain ⟨hcursor, rest, hbytes⟩ := h
    exact print_holds hcap hcursor hbytes hroom

theorem printEach_holds {β : Type u} (line : β → Option (List UInt8)) (hcap : cap < 4294967296) (items : List β)
    {s : Sheet cap} {text : List UInt8} (h : s.Holds text)
    (hroom : text.length + (eachText line items).length < cap) :
    (s.printEach line items).Holds (text ++ eachText line items) := by
  induction items generalizing s text with
  | nil => rwa [show eachText line [] = [] from rfl, List.append_nil]
  | cons item rest ih =>
    have hlines : eachText line (item :: rest) = (line item).getD [] ++ eachText line rest := rfl
    rw [hlines, List.length_append] at hroom
    rw [hlines, ← List.append_assoc]
    refine ih (printSome_holds hcap h (by omega)) ?_
    rw [List.length_append]
    omega

end Sheet

end DectMesh.Lib
