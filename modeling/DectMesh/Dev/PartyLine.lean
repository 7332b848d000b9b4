import DectMesh.Aether.Counters
import DectMesh.Dev.ChatLog
import DectMesh.Lib.LastLines
import DectMesh.Telemetry.Stream
import Mathlib.Data.Nat.Digits.Lemmas

/-! The party line: what is said on any node, in the shell, to the chat file or in
a broadcast conversation, and the lines of what a node has heard that its
`aether chatlog` shows. -/
namespace DectMesh.Dev

open DectMesh.Lib DectMesh.Aether
open DectMesh.Relay (cString isSpace isDigit decimal)
open DectMesh.Telemetry (decimalText)

/-! ## Speaking -/

structure Word where
  bytes : List UInt8
  plain : Plain bytes

/-- The words put one behind the other in `msg[size]`, where they fit with a NUL. -/
def rejoin (size : Nat) : Bool → List UInt8 → List Word → Option (List UInt8)
  | _, msg, [] => some msg
  | first, msg, word :: words =>
      let blank := if first then [] else [0x20]
      if size ≤ msg.length + word.bytes.length + blank.length then none
      else rejoin size false (msg ++ blank ++ word.bytes) words

structure Posted where
  ret : Int
  texts : List (List UInt8)

/-- -22 is `-EINVAL`, -19 `-ENODEV` and -122 `-EMSGSIZE`. -/
def cmdAetherChat (maxPayload : Nat) (iface : Bool) (words : List Word) (sent : Int) : Posted :=
  if words.isEmpty then ⟨-22, []⟩
  else if !iface then ⟨-19, []⟩
  else
    match rejoin (maxPayload + 1) true [] words with
    | none => ⟨-122, []⟩
    | some msg => ⟨if sent < 0 then sent else 0, [msg]⟩

def isLineEnd (c : UInt8) : Bool := c = 0x0a || c = 0x0d

def writeChat (iface : Bool) (buf : List UInt8) (sent : Int) : Posted :=
  if !iface then ⟨-19, []⟩
  else if buf.rdropWhile isLineEnd = [] then ⟨buf.length, []⟩
  else ⟨if sent < 0 then sent else buf.length, [buf.rdropWhile isLineEnd]⟩

def anetWriteBcast (maxPayload : Nat) (buf : List UInt8) (sent : Nat → Int) : Posted :=
  if maxPayload < buf.length then ⟨-122, []⟩
  else
    match bcastTries sent bcastBusyRetries 0 with
    | (ret, tries) => ⟨if ret < 0 then ret else buf.length, List.replicate tries buf⟩

inductive Saying where
  | shell (words : List Word)
  | chatFile (buf : List UInt8)
  | conversation (buf : List UInt8)

def Saying.post (maxPayload : Nat) (iface : Bool) (sent : Nat → Int) : Saying → Posted
  | .shell words => cmdAetherChat maxPayload iface words (sent 0)
  | .chatFile buf => writeChat iface buf (sent 0)
  | .conversation buf => anetWriteBcast maxPayload buf sent

def Saying.text : Saying → List UInt8
  | .shell words => [0x20].intercalate (words.map (·.bytes))
  | .chatFile buf => buf.rdropWhile isLineEnd
  | .conversation buf => buf

theorem rejoin_false {size : Nat} {msg : List UInt8} (hroom : msg.length < size) (words : List Word) :
    rejoin size false msg words =
      if (msg ++ words.flatMap fun word => 0x20 :: word.bytes).length < size
      then some (msg ++ words.flatMap fun word => 0x20 :: word.bytes) else none := by
  induction words generalizing msg with
  | nil => rw [List.flatMap_nil, List.append_nil, if_pos hroom, rejoin]
  | cons word words ih =>
    have hsame : msg ++ [0x20] ++ word.bytes ++ words.flatMap (fun word => 0x20 :: word.bytes) =
        msg ++ (word :: words).flatMap fun word => 0x20 :: word.bytes := by
      simp only [List.flatMap_cons, List.append_assoc, List.cons_append, List.nil_append]
    have hlength : (msg ++ [0x20] ++ word.bytes).length = msg.length + word.bytes.length + 1 := by
      simp only [List.length_append, List.length_singleton]
      omega
    simp only [rejoin, Bool.false_eq_true, if_false, List.length_singleton]
    by_cases hfull : size ≤ msg.length + word.bytes.length + 1
    · rw [if_pos hfull, if_neg]
      rw [← hsame, List.length_append, hlength]
      omega
    · rw [if_neg hfull, ih (by omega), hsame]

theorem intercalate_words (word : Word) (words : List Word) :
    [0x20].intercalate ((word :: words).map (·.bytes)) =
      word.bytes ++ words.flatMap fun word => 0x20 :: word.bytes := by
  induction words generalizing word with
  | nil => simp
  | cons next words ih =>
    rw [List.map_cons, List.intercalate_cons_of_ne_nil (by simp), ih, List.flatMap_cons, List.append_assoc]
    rfl

theorem Saying.post_texts {maxPayload : Nat} {iface : Bool} {sent : Nat → Int} {said : Saying} {text : List UInt8}
    (h : text ∈ (said.post maxPayload iface sent).texts) : text = said.text := by
  cases said with
  | shell words =>
    simp only [Saying.post, cmdAetherChat] at h
    cases words with
    | nil => cases h
    | cons word words =>
      cases hiface : iface with
      | false =>
        rw [hiface] at h
        cases h
      | true =>
        simp only [hiface, List.isEmpty_cons, Bool.false_eq_true, if_false, Bool.not_true, rejoin, if_true,
          List.length_nil, List.nil_append, Nat.zero_add, Nat.add_zero] at h
        by_cases hlong : maxPayload + 1 ≤ word.bytes.length
        · rw [if_pos hlong] at h
          cases h
        · rw [if_neg hlong, rejoin_false (by omega), ← intercalate_words] at h
          split at h
          · cases h
          · rename_i msg hmsg
            split at hmsg
            · cases hmsg
              exact List.mem_singleton.mp h
            · cases hmsg
  | chatFile buf =>
    simp only [Saying.post, writeChat] at h
    split at h
    · cases h
    · split at h
      · cases h
      · exact List.mem_singleton.mp h
  | conversation buf =>
    simp only [Saying.post, anetWriteBcast] at h
    split at h
    · cases h
    · exact List.eq_of_mem_replicate h

/-! ## The scrollback in the shell -/

/-- `strtol(text, &end, 10)`, a `long` having 32 bits, and the text at `end`. -/
def strtol (text : List UInt8) : Int × List UInt8 :=
  let body := text.dropWhile isSpace
  let negative := body.head? = some 0x2d
  let digits := if negative ∨ body.head? = some 0x2b then body.tail else body
  if digits.takeWhile isDigit = [] then (0, text)
  else
    let value : Int := decimal (digits.takeWhile isDigit)
    (if negative then max (-2147483648) (-value) else min 2147483647 value, digits.dropWhile isDigit)

/-- `n_lines`; without an argument it is -1. -/
def chatlogLines : Option (List UInt8) → Option Int
  | none => some (-1)
  | some arg => if (strtol arg).2 ≠ [] ∨ (strtol arg).1 < 0 then none else some (strtol arg).1

/-- The loop that walks back from `p`, with so many newlines behind it. -/
def walkBack (snap : List UInt8) (nLines : Int) : Nat → Int → Nat
  | 0, _ => 0
  | p + 1, count =>
      if snap[p]? = some 0x0a then
        if nLines < count + 1 then p + 1 else walkBack snap nLines p (count + 1)
      else walkBack snap nLines p count

/-- `"(no chat history yet)\n"` -/
def noHistory : List UInt8 :=
  [0x28, 0x6e, 0x6f, 0x20, 0x63, 0x68, 0x61, 0x74, 0x20, 0x68, 0x69, 0x73, 0x74, 0x6f, 0x72, 0x79, 0x20, 0x79, 0x65,
    0x74, 0x29, 0x0a]

/-- What is printed with `"%.*s"` ends at a NUL. -/
def cmdAetherChatlog (s : Scrollback) (arg : Option (List UInt8)) : Except Int (List UInt8) :=
  match chatlogLines arg with
  | none => .error (-22)
  | some nLines =>
      let snap := chatLogSnapshot s 1024
      if snap = [] then .ok noHistory
      else
        let start := if 0 ≤ nLines then walkBack snap nLines snap.length 0 else 0
        .ok (cString (snap.drop start))

theorem decimal_append (front back : List UInt8) :
    decimal (front ++ back) = back.foldl (fun n d => 10 * n + (d.toNat - 0x30)) (decimal front) := by
  rw [decimal, List.foldl_append]
  rfl

theorem decimal_digits (ds : List Nat) (h : ∀ d ∈ ds, d < 10) :
    decimal (ds.reverse.map fun d => UInt8.ofNat (0x30 + d)) = Nat.ofDigits 10 ds := by
  induction ds with
  | nil => rfl
  | cons d ds ih =>
    rw [List.forall_mem_cons] at h
    rw [List.reverse_cons, List.map_append, decimal_append, ih h.2, Nat.ofDigits_cons]
    have hd : (UInt8.ofNat (0x30 + d)).toNat = 0x30 + d := by
      rw [UInt8.toNat_ofNat']
      omega
    simp only [List.map_cons, List.map_nil, List.foldl_cons, List.foldl_nil, hd]
    omega

theorem isDigit_ofNat {d : Nat} (h : d < 10) : isDigit (UInt8.ofNat (0x30 + d)) = true := by
  revert d
  decide

theorem isDigit_first {c : UInt8} (h : isDigit c = true) : isSpace c = false ∧ c ≠ 0x2d ∧ c ≠ 0x2b := by
  simp only [isDigit, Bool.and_eq_true, decide_eq_true_eq] at h
  have hlow : ¬ c ≤ 0x0d := UInt8.not_le.mpr (UInt8.lt_of_lt_of_le (by decide) h.1)
  refine ⟨?_, ?_, ?_⟩
  · have hblank : c ≠ 0x20 := by
      rintro rfl
      exact absurd h.1 (by decide)
    simp [isSpace, hlow, hblank]
  · rintro rfl
    exact absurd h.1 (by decide)
  · rintro rfl
    exact absurd h.1 (by decide)

theorem decimalText_nat (n : Nat) :
    (∀ c ∈ decimalText n, isDigit c = true) ∧ decimalText n ≠ [] ∧ decimal (decimalText n) = n := by
  have hsign : ¬ (n : Int) < 0 := by omega
  rw [decimalText, if_neg hsign, List.nil_append]
  by_cases hzero : (n : Int) = 0
  · have hn : n = 0 := by omega
    rw [if_pos hzero, hn]
    refine ⟨fun c hc => ?_, List.cons_ne_nil _ _, rfl⟩
    rw [List.mem_singleton.mp hc]
    rfl
  · have hdigits : ∀ d ∈ Nat.digits 10 n, d < 10 := fun d hd => Nat.digits_lt_base (by decide) hd
    have hsome : Nat.digits 10 n ≠ [] := Nat.digits_ne_nil_iff_ne_zero.mpr (by omega)
    rw [if_neg hzero, Int.natAbs_natCast]
    refine ⟨fun c hc => ?_, by simpa using hsome, ?_⟩
    · obtain ⟨d, hd, rfl⟩ := List.mem_map.mp hc
      exact isDigit_ofNat (hdigits d (List.mem_reverse.mp hd))
    · rw [decimal_digits _ hdigits, Nat.ofDigits_digits]

theorem chatlogLines_decimal {n : Nat} (h : n ≤ 2147483647) :
    chatlogLines (some (decimalText n)) = some (n : Int) := by
  obtain ⟨hdigits, hsome, hvalue⟩ := decimalText_nat n
  obtain ⟨c, text, htext⟩ := List.exists_cons_of_ne_nil hsome
  have hfirst := isDigit_first (hdigits c (htext ▸ List.mem_cons_self))
  have hbody : (decimalText n).dropWhile isSpace = decimalText n := by
    rw [htext, List.dropWhile_cons_of_neg (by simp [hfirst.1])]
  have hhead : (decimalText n).head? = some c := by rw [htext, List.head?_cons]
  have hall : (decimalText n).takeWhile isDigit = decimalText n := List.takeWhile_eq_self_iff.mpr hdigits
  have hend : (decimalText n).dropWhile isDigit = [] := List.dropWhile_eq_nil_iff.mpr hdigits
  have hread : strtol (decimalText n) = ((n : Int), []) := by
    simp only [strtol, hbody, hhead, Option.some.injEq, hfirst.2.1, hfirst.2.2, or_self, if_false, hall, hsome, hend,
      hvalue]
    congr 1
    omega
  simp only [chatlogLines, hread]
  rw [if_neg (by simp)]

theorem walkBack_newest {snap : List UInt8} {n p : Nat} {count : Nat} (hp : p ≤ snap.length)
    (hcount : (snap.drop p).count 0x0a = count) (hfew : count ≤ n) :
    Newest 0x0a n snap (snap.drop (walkBack snap n p count)) := by
  induction p generalizing count with
  | zero =>
    rw [walkBack, List.drop_zero] at *
    exact ⟨List.suffix_rfl, by omega, fun s hs _ => hs⟩
  | succ p ih =>
    have hlt : p < snap.length := hp
    have hcons : snap.drop p = snap[p] :: snap.drop (p + 1) := List.drop_eq_getElem_cons hlt
    rw [walkBack, List.getElem?_eq_getElem hlt]
    by_cases hnewline : snap[p] = 0x0a
    · have hone : (snap.drop p).count 0x0a = count + 1 := by rw [hcons, hnewline, List.count_cons_self, hcount]
      rw [if_pos (by rw [hnewline])]
      by_cases hstop : (n : Int) < count + 1
      · rw [if_pos hstop]
        refine ⟨List.drop_suffix _ _, by omega, fun s hs hs_few => ?_⟩
        rcases Nat.lt_or_ge (snap.drop (p + 1)).length s.length with hlong | hshort
        · have hmore : snap.drop p <:+ s := by
            refine List.suffix_of_suffix_length_le (List.drop_suffix _ _) hs ?_
            rw [hcons, List.length_cons]
            exact hlong
          have := hmore.sublist.count_le 0x0a
          omega
        · exact List.suffix_of_suffix_length_le hs (List.drop_suffix _ _) hshort
      · rw [if_neg hstop]
        have hnext := ih (Nat.le_of_lt hlt) hone (by omega)
        rwa [Nat.cast_add, Nat.cast_one] at hnext
    · rw [if_neg (by simpa using hnewline)]
      refine ih (Nat.le_of_lt hlt) ?_ hfew
      rw [hcons, List.count_cons_of_ne hnewline, hcount]

/-! ## All nodes -/

/-- A broadcast as the mesh carries it. `said` is history. -/
structure Message where
  src : Addr
  text : List UInt8
  said : Saying

/-- The scrollbacks of the nodes. `air` has every broadcast that was handed to the
mesh, and `heard` is history. -/
structure PartyLine (ν : Type) where
  chat : ν → Scrollback
  air : List Message
  heard : ν → List Message

def PartyLine.init (ν : Type) : PartyLine ν := ⟨fun _ => .empty, [], fun _ => []⟩

/-- Broadcasts are heard in any order, any number of times or not at all, with any
memory around `line` and the log. -/
inductive PartyEvent (ν : Type) where
  | speak (k : ν) (src : Addr) (said : Saying) (sent : Nat → Int)
  | hear (k : ν) (i : Nat) (behindLine belowLog : Nat → UInt8)
  | unicast (k : ν) (a : Arrival)

/-- The line that `"<%02x:%02x> %.*s\n"` makes of what was said. -/
def Message.line (m : Message) : List UInt8 := chatText m.src m.said.text

def PartyLine.lines {ν : Type} (s : PartyLine ν) (k : ν) : List (List UInt8) := (s.heard k).map Message.line

/-- What is said fits in a line, and is one. -/
def Saying.Short (said : Saying) : Prop := (cString said.text).length ≤ 86 ∧ 0x0a ∉ cString said.text

def PartyEvent.Short {ν : Type} : PartyEvent ν → Prop
  | .speak _ _ said _ => said.Short
  | .hear _ _ _ _ | .unicast _ _ => True

section

variable {ν : Type} [DecidableEq ν] (maxPayload : Nat) (iface : ν → Bool)

def partyStep (s : PartyLine ν) : PartyEvent ν → Option (PartyLine ν)
  | .speak k src said sent =>
      let posted := said.post maxPayload (iface k) sent
      some { s with air := s.air ++ posted.texts.map fun text => ⟨src, text, said⟩ }
  | .hear k i behindLine belowLog =>
      s.air[i]?.bind fun m =>
        (chatRecvCb (s.chat k) ⟨m.src, m.text, true, behindLine, belowLog⟩).map fun chat =>
          { s with
            chat := Function.update s.chat k chat
            heard := Function.update s.heard k (s.heard k ++ [m]) }
  | .unicast k a =>
      if a.broadcast then none
      else (chatRecvCb (s.chat k) a).map fun chat => { s with chat := Function.update s.chat k chat }

end

structure Scrollback.Records (s : Scrollback) (lines : List (List UInt8)) : Prop where
  kept : s.Kept
  history : s.history = lines.flatten
  retains : min 512 lines.flatten.length ≤ s.log.length

structure PartyLine.Inv {ν : Type} (events : List (PartyEvent ν)) (s : PartyLine ν) : Prop where
  air : ∀ m ∈ s.air, m.text = m.said.text ∧ m.said.Short ∧ ∃ k sent, .speak k m.src m.said sent ∈ events
  heard : ∀ k, ∀ m ∈ s.heard k, m ∈ s.air
  records : ∀ k, (s.chat k).Records (s.lines k)

theorem records_empty : Scrollback.empty.Records [] := ⟨kept_empty, rfl, Nat.zero_le _⟩

theorem Scrollback.Records.chatLog {s : Scrollback} {lines : List (List UInt8)} (h : s.Records lines) {a : Arrival}
    (hfits : (cString a.data).length ≤ 86) :
    (aether9pChatLog s a).Records (lines ++ [chatText a.src a.data]) := by
  have hlength := length_chatText a.src a.data
  have hshort : (chatText a.src a.data).length ≤ 95 := by omega
  refine ⟨kept_chatLog h.kept hfits, ?_, ?_⟩
  · rw [chatLog_eq, Scrollback.history_append, h.history, LineCopy.line, List.take_of_length_le hshort,
      List.flatten_append, List.flatten_singleton]
  · have hretains := h.retains
    have hsize : chatLogSize = 1024 := rfl
    have hroom : min 512 lines.flatten.length ≤
        (madeRoom s a.belowLog (chatText a.src a.data).length).length := by
      unfold madeRoom
      split
      · rw [newestHalf_of_le (by omega), List.length_drop]
        omega
      · exact hretains
    rw [chatLog_eq, lineBytes_of_fits hshort, List.flatten_append, List.flatten_singleton, List.length_append,
      List.length_append]
    omega

theorem partyInv_init {ν : Type} (events : List (PartyEvent ν)) : (PartyLine.init ν).Inv events :=
  ⟨nofun, nofun, fun _ => records_empty⟩

theorem partyInv_step {ν : Type} [DecidableEq ν] {maxPayload : Nat} {iface : ν → Bool} {s s' : PartyLine ν}
    {events : List (PartyEvent ν)} {event : PartyEvent ν} (h : s.Inv events) (hevent : event ∈ events ∧ event.Short)
    (hstep : partyStep maxPayload iface s event = some s') : s'.Inv events := by
  cases event with
  | speak k src said sent =>
    cases hstep
    refine ⟨fun m hm => ?_, fun k m hm => List.mem_append_left _ (h.heard k m hm), h.records⟩
    rcases List.mem_append.mp hm with hold | hnew
    · exact h.air m hold
    · obtain ⟨text, htext, rfl⟩ := List.mem_map.mp hnew
      exact ⟨Saying.post_texts htext, hevent.2, k, sent, hevent.1⟩
  | hear k i behindLine belowLog =>
    obtain ⟨m, hm, hrest⟩ := Option.bind_eq_some_iff.mp hstep
    have hair := List.mem_of_getElem? hm
    obtain ⟨htext, ⟨hfits, -⟩, -⟩ := h.air m hair
    cases hrest
    refine ⟨h.air, fun other => ?_, fun other => ?_⟩
    · by_cases hother : other = k
      · subst hother
        simp only [Function.update_self]
        intro m' hm'
        rcases List.mem_append.mp hm' with hold | hnew
        · exact h.heard other m' hold
        · rwa [List.mem_singleton.mp hnew]
      · simp only [Function.update_of_ne hother]
        exact h.heard other
    · unfold PartyLine.lines
      by_cases hother : other = k
      · subst hother
        simp only [Function.update_self, List.map_append, List.map_cons, List.map_nil, if_true]
        rw [← htext] at hfits
        have hrecords := (h.records other).chatLog (a := ⟨m.src, m.text, true, behindLine, belowLog⟩) hfits
        rwa [show chatText m.src m.text = m.line by rw [Message.line, htext]] at hrecords
      · simp only [Function.update_of_ne hother]
        exact h.records other
  | unicast k a =>
    simp only [partyStep] at hstep
    cases hcast : a.broadcast with
    | true =>
      rw [if_pos hcast] at hstep
      cases hstep
    | false =>
      rw [hcast, if_neg Bool.false_ne_true] at hstep
      simp only [chatRecvCb, hcast, Bool.false_eq_true, if_false, Option.map_some, Function.update_eq_self] at hstep
      cases hstep
      exact h

theorem Saying.Short.line {m : Message} (h : m.said.Short) : IsLine 0x0a m.line := by
  refine ⟨[0x3c] ++ colonHex (m.src.bytes.drop 4) ++ [0x3e, 0x20] ++ cString m.said.text, ?_, rfl⟩
  have hcolon : (0x0a : UInt8) ∉ colonHex (m.src.bytes.drop 4) := by
    intro hmem
    rcases mem_colonHex hmem with hcolon | ⟨d, hd, hdigit⟩
    · exact absurd hcolon (by decide)
    · revert hdigit
      interval_cases d <;> decide
  simp [hcolon, h.2]

/-- What the shell takes of the log: all of it, which is something, and no NUL. -/
theorem Scrollback.Records.snapshot {s : Scrollback} {lines : List (List UInt8)} (h : s.Records lines)
    (hlines : ∀ line ∈ lines, IsLine 0x0a line) (hsome : lines ≠ []) :
    chatLogSnapshot s 1024 = s.log ∧ s.log ≠ [] ∧ Plain s.log := by
  refine ⟨List.take_of_length_le h.kept.sound.bounded, ?_, fun c hc => ?_⟩
  · have hcount := count_lines hlines
    have hpos := List.length_pos_iff.mpr hsome
    have hle := lines.flatten.count_le_length (a := 0x0a)
    have hretains := h.retains
    rw [← List.length_pos_iff]
    omega
  · obtain ⟨copy, hcopy, hmem⟩ := List.mem_flatMap.mp (h.kept.sound.newest.subset hc)
    exact h.kept.plain copy hcopy c (List.mem_of_mem_take hmem)

theorem Scrollback.Records.shown {s : Scrollback} {lines : List (List UInt8)} (h : s.Records lines)
    (hlines : ∀ line ∈ lines, IsLine 0x0a line) (hsome : lines ≠ []) {n : Nat} (hn : n ≤ 2147483647) :
    cmdAetherChatlog s (some (decimalText n)) =
      .ok (if (lines.rtake n).flatten.length ≤ s.log.length then (lines.rtake n).flatten else s.log) := by
  obtain ⟨hsnap, hlog, hplain⟩ := h.snapshot hlines hsome
  have hsuffix : s.log <:+ lines.flatten := h.history ▸ h.kept.sound.newest
  have hwalk : Newest 0x0a n s.log (s.log.drop (walkBack s.log n s.log.length 0)) :=
    walkBack_newest (Nat.le_refl _) (by rw [List.drop_length, List.count_nil]) (Nat.zero_le n)
  have hstring : cString (s.log.drop (walkBack s.log n s.log.length 0)) =
      s.log.drop (walkBack s.log n s.log.length 0) :=
    cString_of_no_nul fun c hc => hplain c (List.mem_of_mem_drop hc)
  simp only [cmdAetherChatlog, chatlogLines_decimal hn, hsnap, if_neg hlog]
  rw [if_pos (Int.natCast_nonneg n), hstring, hwalk.unique ((newest_lines hlines n).part hsuffix)]

theorem Scrollback.Records.shown_all {s : Scrollback} {lines : List (List UInt8)} (h : s.Records lines)
    (hlines : ∀ line ∈ lines, IsLine 0x0a line) (hsome : lines ≠ []) : cmdAetherChatlog s none = .ok s.log := by
  obtain ⟨hsnap, hlog, hplain⟩ := h.snapshot hlines hsome
  simp only [cmdAetherChatlog, chatlogLines, hsnap, if_neg hlog]
  rw [if_neg (by decide), List.drop_zero, cString_of_no_nul hplain]

/-- While everything said is short enough and of one line, `aether chatlog n`
shows the last `n` lines that a node has heard, as they were said on any of the
nodes, if there are five or they have 512 bytes at most; without a number it shows
at least the last 512 bytes. -/
theorem party_line {ν : Type} [DecidableEq ν] (maxPayload : Nat) (iface : ν → Bool) {events : List (PartyEvent ν)}
    {s : PartyLine ν} (hshort : ∀ event ∈ events, event.Short)
    (hrun : run (partyStep maxPayload iface) (.init ν) events = some s) {k : ν} (hheard : s.heard k ≠ []) :
    (∀ m ∈ s.heard k, ∃ speaker sent, .speak speaker m.src m.said sent ∈ events) ∧
      (∀ n ≤ 2147483647, n ≤ 5 ∨ ((s.lines k).rtake n).flatten.length ≤ 512 →
        cmdAetherChatlog (s.chat k) (some (decimalText n)) = .ok ((s.lines k).rtake n).flatten) ∧
      ∃ shown, cmdAetherChatlog (s.chat k) none = .ok shown ∧ shown <:+ (s.lines k).flatten ∧
        min 512 (s.lines k).flatten.length ≤ shown.length := by
  have hinv : s.Inv events :=
    run_invariant (PartyLine.Inv events) (fun _ _ _ => partyInv_step) (partyInv_init events)
      (along_of_mem fun _ event hevent => ⟨hevent, hshort event hevent⟩) hrun
  have hrecords := hinv.records k
  have hsaid : ∀ m ∈ s.heard k, m.said.Short := fun m hm => (hinv.air m (hinv.heard k m hm)).2.1
  have hlines : ∀ line ∈ s.lines k, IsLine 0x0a line := by
    intro line hline
    obtain ⟨m, hm, rfl⟩ := List.mem_map.mp hline
    exact (hsaid m hm).line
  have hlength : ∀ line ∈ s.lines k, line.length ≤ 95 := by
    intro line hline
    obtain ⟨m, hm, rfl⟩ := List.mem_map.mp hline
    have := (hsaid m hm).1
    rw [Message.line, length_chatText]
    omega
  have hsome : s.lines k ≠ [] := by rwa [PartyLine.lines, ne_eq, List.map_eq_nil_iff]
  refine ⟨fun m hm => (hinv.air m (hinv.heard k m hm)).2.2, fun n hn hfew => ?_, (s.chat k).log,
    hrecords.shown_all hlines hsome, ?_, hrecords.retains⟩
  · have hfits : ((s.lines k).rtake n).flatten.length ≤ 512 := by
      rcases hfew with hfive | hfits
      · exact (length_newest hlength n).trans (by omega)
      · exact hfits
    have hpart : ((s.lines k).rtake n).flatten.length ≤ (s.lines k).flatten.length :=
      (newest_lines hlines n).suffix.length_le
    have hretains := hrecords.retains
    rw [hrecords.shown hlines hsome hn, if_pos (by omega)]
  · exact hrecords.history ▸ hrecords.kept.sound.newest

def sampleParty : List (PartyEvent Bool) :=
  [.speak true .zero (.shell [⟨[0x68, 0x69], by simp⟩]) fun _ => 0,
    .speak true .zero (.chatFile [0x78, 0x0a]) fun _ => 0,
    .hear false 1 (fun _ => 0) fun _ => 0,
    .hear false 0 (fun _ => 0) fun _ => 0]

theorem sampleParty_short : ∀ event ∈ sampleParty, event.Short := by
  simp only [sampleParty, List.forall_mem_cons, PartyEvent.Short, Saying.Short]
  exact ⟨by decide, by decide, trivial, trivial, nofun⟩

theorem party_line_out_of_order :
    ∃ s, run (partyStep 64 fun _ => true) (.init Bool) sampleParty = some s ∧
      cmdAetherChatlog (s.chat false) (some (decimalText 1)) = .ok (chatText .zero [0x68, 0x69]) := by
  refine ⟨_, rfl, ?_⟩
  have hline := party_line 64 (fun _ => true) sampleParty_short rfl (k := false) (by simp)
  exact hline.2.1 1 (by decide) (.inl (by decide))

end DectMesh.Dev
