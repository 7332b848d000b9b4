import DectMesh.Lib.Wire
import Mathlib.Data.List.Basic

/-! Messages that begin with their own size: four bytes, little-endian, that
count the whole message. `least` and `cap` bound the sizes that a reader takes. -/
namespace DectMesh.Lib

structure Framed (least cap : Nat) (msg : List UInt8) : Prop where
  long : least ≤ msg.length
  fits : msg.length ≤ cap
  size : leNat (msg.take 4) = msg.length

def nextFrame (least cap : Nat) (stream : List UInt8) : Option (List UInt8 × List UInt8) :=
  if stream.length < 4 then none
  else if leNat (stream.take 4) < least ∨ cap < leNat (stream.take 4) ∨ stream.length < leNat (stream.take 4) then
    none
  else some (stream.take (leNat (stream.take 4)), stream.drop (leNat (stream.take 4)))

variable {least cap : Nat} {msg rest stream : List UInt8}

theorem nextFrame_framed (hleast : 4 ≤ least) (h : Framed least cap msg) (rest : List UInt8) :
    nextFrame least cap (msg ++ rest) = some (msg, rest) := by
  obtain ⟨hlong, hfits, hsize⟩ := h
  have htake : (msg ++ rest).take 4 = msg.take 4 := List.take_append_of_le_length (hleast.trans hlong)
  have hwhole : (msg ++ rest).length = msg.length + rest.length := List.length_append
  rw [nextFrame, htake, hsize, if_neg (by omega), if_neg (by omega), List.take_left, List.drop_left]

theorem nextFrame_some (hleast : 4 ≤ least) (h : nextFrame least cap stream = some (msg, rest)) :
    stream = msg ++ rest ∧ Framed least cap msg := by
  unfold nextFrame at h
  split at h
  · cases h
  · split at h
    · cases h
    · rename_i hbounds
      obtain ⟨hlong, hfits, hwhole⟩ := not_or.mp hbounds |>.imp_right not_or.mp
      cases h
      have hlength : (stream.take (leNat (stream.take 4))).length = leNat (stream.take 4) := by
        rw [List.length_take]
        omega
      refine ⟨(List.take_append_drop _ _).symm, ?_, ?_, ?_⟩
      · rw [hlength]
        omega
      · rw [hlength]
        omega
      · rw [hlength, List.take_take, Nat.min_eq_left (by omega)]

theorem exists_frames (hleast : 4 ≤ least) (stream : List UInt8) :
    ∃ (msgs : List (List UInt8)) (tail : List UInt8), stream = msgs.flatten ++ tail ∧
      (∀ msg ∈ msgs, Framed least cap msg) ∧ nextFrame least cap tail = none := by
  induction hn : stream.length using Nat.strong_induction_on generalizing stream with
  | _ n ih =>
    cases hnext : nextFrame least cap stream with
    | none => exact ⟨[], stream, rfl, by simp, hnext⟩
    | some first =>
      obtain ⟨msg, rest⟩ := first
      obtain ⟨rfl, hmsg⟩ := nextFrame_some hleast hnext
      have hlong := hmsg.long
      have hshorter : rest.length < n := by
        rw [← hn, List.length_append]
        omega
      obtain ⟨msgs, tail, rfl, hmsgs, htail⟩ := ih _ hshorter rest rfl
      refine ⟨msg :: msgs, tail, by rw [List.flatten_cons, List.append_assoc], ?_, htail⟩
      exact List.forall_mem_cons.mpr ⟨hmsg, hmsgs⟩

end DectMesh.Lib
