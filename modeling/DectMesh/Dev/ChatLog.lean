import DectMesh.Aether.CtlGrammar
import DectMesh.Lib.Printing
import DectMesh.Lib.Run

/-! The scrollback of the party line: each broadcast as a line behind the others,
the newest half kept when there is no room. -/
namespace DectMesh.Dev

open DectMesh.Lib DectMesh.Aether
open DectMesh.Relay (cString)

def chatLogSize : Nat := 1024

/-- A received datagram. What memory holds behind `line` and in front of
`chat_log` is unknown. -/
structure Arrival where
  src : Addr
  data : List UInt8
  broadcast : Bool
  behindLine : Nat → UInt8
  belowLog : Nat → UInt8

structure LineCopy where
  text : List UInt8
  count : Nat

def LineCopy.line (copy : LineCopy) : List UInt8 := copy.text.take 95

/-- `chat_log[0..chat_log_len)`. `copies` is history. -/
structure Scrollback where
  log : List UInt8
  copies : List LineCopy

def Scrollback.empty : Scrollback := ⟨[], []⟩

/-- `"<%02x:%02x> %.*s\n"` -/
def chatText (src : Addr) (data : List UInt8) : List UInt8 :=
  [0x3c] ++ colonHex (src.bytes.drop 4) ++ [0x3e, 0x20] ++ cString data ++ [0x0a]

/-- What `memcpy` finds from `line` on. -/
def lineBytes (behind : Nat → UInt8) (text : List UInt8) (n : Nat) : List UInt8 :=
  (snprintfStores 96 text).take n ++ (List.range (n - 96)).map behind

/-- The 512 bytes that `memmove` finds from `chat_log + (chat_log_len - 512)` on. -/
def newestHalf (below : Nat → UInt8) (log : List UInt8) : List UInt8 :=
  (List.range (chatLogSize / 2 - log.length)).map below ++ log.drop (log.length - chatLogSize / 2)

def aether9pChatLog (s : Scrollback) (a : Arrival) : Scrollback :=
  let text := chatText a.src a.data
  let n := text.length
  if n = 0 then s
  else
    let log := if s.log.length + n ≥ chatLogSize then newestHalf a.belowLog s.log else s.log
    ⟨log ++ lineBytes a.behindLine text n, s.copies ++ [⟨text, n⟩]⟩

/-- The party line is broadcast-only. -/
def chatRecvCb (s : Scrollback) (a : Arrival) : Option Scrollback :=
  some (if a.broadcast then aether9pChatLog s a else s)

def chatLogSnapshot (s : Scrollback) (outsz : Nat) : List UInt8 := s.log.take outsz

def genChat (s : Scrollback) (sz off : Nat) : List UInt8 := (s.log.drop off).take sz

def Scrollback.history (s : Scrollback) : List UInt8 := s.copies.flatMap (·.line)

/-- The log is not too long, no copy read behind what `snprintf` stored in
`line`, and the log is the newest part of the history. -/
structure Scrollback.Sound (s : Scrollback) : Prop where
  bounded : s.log.length ≤ chatLogSize
  within : ∀ copy ∈ s.copies, copy.count ≤ (snprintfStores 96 copy.text).length
  newest : s.log <:+ s.history

/-- The payload up to a NUL has at most 86 bytes. -/
def Arrival.Fits (a : Arrival) : Prop := a.broadcast = true → (cString a.data).length ≤ 86

theorem length_chatText (src : Addr) (data : List UInt8) :
    (chatText src data).length = 9 + (cString data).length := by
  simp only [chatText, List.length_append, length_colonHex, List.length_drop, src.six, List.length_cons,
    List.length_nil]
  omega

theorem cString_plain (data : List UInt8) : Plain (cString data) := by
  intro c hc
  simpa using List.mem_takeWhile_imp hc

theorem chatText_plain (src : Addr) (data : List UInt8) : Plain (chatText src data) := by
  have hcolon : Plain (colonHex (src.bytes.drop 4)) := colonHex_no_nul _
  simp [chatText, hcolon, cString_plain]

theorem lineBytes_of_fits {behind : Nat → UInt8} {text : List UInt8} (h : text.length ≤ 95) :
    lineBytes behind text text.length = text := by
  rw [lineBytes, snprintfStores_of_lt (by omega), List.take_left, Nat.sub_eq_zero_of_le (by omega), List.range_zero,
    List.map_nil, List.append_nil]

theorem lineBytes_nul {behind : Nat → UInt8} {text : List UInt8} (h : 95 < text.length) :
    0 ∈ lineBytes behind text text.length := by
  have hstores : snprintfStores 96 text = text.take 95 ++ [0] := rfl
  have hlength : (snprintfStores 96 text).length ≤ text.length := by
    have := length_snprintfStores_le 96 text
    omega
  rw [lineBytes, List.take_of_length_le hlength, hstores]
  exact List.mem_append_left _ (List.mem_append_right _ List.mem_cons_self)

theorem newestHalf_of_le {below : Nat → UInt8} {log : List UInt8} (h : 512 ≤ log.length) :
    newestHalf below log = log.drop (log.length - 512) := by
  rw [newestHalf, chatLogSize, Nat.sub_eq_zero_of_le h, List.range_zero, List.map_nil, List.nil_append]

def madeRoom (s : Scrollback) (below : Nat → UInt8) (n : Nat) : List UInt8 :=
  if s.log.length + n ≥ chatLogSize then newestHalf below s.log else s.log

theorem chatLog_eq (s : Scrollback) (a : Arrival) :
    aether9pChatLog s a =
      ⟨madeRoom s a.belowLog (chatText a.src a.data).length ++
          lineBytes a.behindLine (chatText a.src a.data) (chatText a.src a.data).length,
        s.copies ++ [⟨chatText a.src a.data, (chatText a.src a.data).length⟩]⟩ := by
  rw [aether9pChatLog, if_neg (by rw [length_chatText]; omega)]
  rfl

theorem madeRoom_short {s : Scrollback} (h : s.log.length ≤ chatLogSize) (below : Nat → UInt8) {n : Nat}
    (hshort : n ≤ 95) : madeRoom s below n <:+ s.log ∧ (madeRoom s below n).length + n ≤ chatLogSize := by
  unfold madeRoom
  by_cases hfull : s.log.length + n ≥ chatLogSize
  · have hsize : chatLogSize = 1024 := rfl
    have hhalf : 512 ≤ s.log.length := by omega
    rw [if_pos hfull, newestHalf_of_le hhalf]
    refine ⟨List.drop_suffix _ _, ?_⟩
    rw [List.length_drop]
    omega
  · rw [if_neg hfull]
    exact ⟨List.suffix_rfl, by omega⟩

structure Scrollback.Kept (s : Scrollback) : Prop where
  sound : s.Sound
  plain : ∀ copy ∈ s.copies, Plain copy.text

theorem Scrollback.history_append (s : Scrollback) (log : List UInt8) (copy : LineCopy) :
    (⟨log, s.copies ++ [copy]⟩ : Scrollback).history = s.history ++ copy.line := by
  simp only [Scrollback.history, List.flatMap_append, List.flatMap_singleton]

theorem Scrollback.Kept.text {s : Scrollback} (h : s.Kept) (a : Arrival) :
    ∀ copy ∈ s.copies ++ [⟨chatText a.src a.data, (chatText a.src a.data).length⟩], Plain copy.text := by
  intro copy hcopy
  rcases List.mem_append.mp hcopy with hbefore | hnew
  · exact h.plain copy hbefore
  · rw [List.mem_singleton.mp hnew]
    exact chatText_plain a.src a.data

theorem kept_chatLog {s : Scrollback} (h : s.Kept) {a : Arrival} (hfits : (cString a.data).length ≤ 86) :
    (aether9pChatLog s a).Kept := by
  have hplain := h.text a
  have hlength := length_chatText a.src a.data
  have hshort : (chatText a.src a.data).length ≤ 95 := by omega
  rw [chatLog_eq, lineBytes_of_fits hshort]
  obtain ⟨hsuffix, hroom⟩ := madeRoom_short h.sound.bounded a.belowLog hshort
  refine ⟨⟨?_, ?_, ?_⟩, hplain⟩
  · rw [List.length_append]
    exact hroom
  · intro copy hcopy
    rcases List.mem_append.mp hcopy with hbefore | hnew
    · exact h.sound.within copy hbefore
    · rw [List.mem_singleton.mp hnew, snprintfStores_of_lt (by dsimp only; omega), List.length_append]
      exact Nat.le_add_right _ _
  · obtain ⟨older, hsplit⟩ := hsuffix.trans h.sound.newest
    refine ⟨older, ?_⟩
    rw [Scrollback.history_append, LineCopy.line, List.take_of_length_le hshort, ← List.append_assoc, hsplit]

/-- A longer line is copied with its NUL, which is in no line. -/
theorem broken_chatLog {s : Scrollback} (h : s.Kept) {a : Arrival} (hlong : ¬ (cString a.data).length ≤ 86) :
    ¬ (aether9pChatLog s a).Sound := by
  have hplain := h.text a
  have hlength := length_chatText a.src a.data
  rw [chatLog_eq]
  intro hsound
  have hnul := hsound.newest.subset (List.mem_append_right _ (lineBytes_nul (by omega)))
  obtain ⟨copy, hcopy, hmem⟩ := List.mem_flatMap.mp hnul
  exact hplain copy hcopy 0 (List.mem_of_mem_take hmem) rfl

theorem chatRecv_keeps {s s' : Scrollback} {a : Arrival} (h : s.Kept) (hfits : a.Fits)
    (hstep : chatRecvCb s a = some s') : s'.Kept := by
  cases hstep
  split
  · rename_i hbroadcast
    exact kept_chatLog h (hfits hbroadcast)
  · exact h

theorem chatRecv_breaks {s s' : Scrollback} {a : Arrival} (h : s.Kept) (hfits : ¬ a.Fits)
    (hstep : chatRecvCb s a = some s') : ¬ s'.Sound := by
  obtain ⟨hbroadcast, hlong⟩ := Classical.not_imp.mp hfits
  cases hstep
  rw [if_pos hbroadcast]
  exact broken_chatLog h hlong

theorem kept_empty : Scrollback.empty.Kept := ⟨⟨Nat.zero_le _, nofun, List.suffix_rfl⟩, nofun⟩

theorem chatRecv_total (s : Scrollback) (arrivals : List Arrival) : ∃ s', run chatRecvCb s arrivals = some s' := by
  induction arrivals generalizing s with
  | nil => exact ⟨s, rfl⟩
  | cons a rest ih => exact ih _

theorem along_fits (s : Scrollback) (arrivals : List Arrival) :
    Along chatRecvCb (fun _ a => a.Fits) s arrivals ↔ ∀ a ∈ arrivals, a.Fits := by
  induction arrivals generalizing s with
  | nil => exact iff_of_true trivial nofun
  | cons a rest ih =>
    rw [List.forall_mem_cons]
    constructor
    · rintro ⟨hfits, hrest⟩
      exact ⟨hfits, (ih _).mp (hrest _ rfl)⟩
    · rintro ⟨hfits, hrest⟩
      exact ⟨hfits, fun next _ => (ih next).mpr hrest⟩

/-- The log is the newest part of all the lines after every call, and copied
from `line` alone, exactly if every broadcast has at most 86 bytes of text. -/
theorem scrollback_newest_iff (arrivals : List Arrival) :
    (∀ s, Visits chatRecvCb .empty arrivals s → s.Sound) ↔ ∀ a ∈ arrivals, a.Fits := by
  obtain ⟨final, hrun⟩ := chatRecv_total .empty arrivals
  rw [← along_fits .empty arrivals]
  exact visits_iff_along (fun s (h : Scrollback.Kept s) => h.sound) (fun _ _ _ => chatRecv_keeps)
    (fun _ _ _ => chatRecv_breaks) kept_empty hrun

def longArrival : Arrival := ⟨.zero, List.replicate 87 0x61, true, fun _ => 0, fun _ => 0⟩

/-- Its line ends in the log with a NUL in place of the newline. -/
theorem scrollback_holds_nul : ¬ ∀ s, Visits chatRecvCb .empty [longArrival] s → s.Sound := by
  intro hall
  have hvisit : Visits chatRecvCb .empty [longArrival] (aether9pChatLog .empty longArrival) :=
    ⟨[longArrival], List.prefix_rfl, rfl⟩
  exact broken_chatLog kept_empty (by decide) (hall _ hvisit)

/-! ## Reading it -/

end DectMesh.Dev
