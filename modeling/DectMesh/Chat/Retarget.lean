import DectMesh.Aether.CtlGrammar
import DectMesh.Aether.Traffic
import DectMesh.Lib.Run

/-! `/connect` in the chat: the command proc hangs the conversation up, the end
of file wakes the reader proc, and the reader connects it to the new target. -/
namespace DectMesh.Chat

open DectMesh.Lib DectMesh.Aether
open DectMesh.Relay (cString)

/-- `"/connect"` -/
def connectWord : List UInt8 := [0x2f, 0x63, 0x6f, 0x6e, 0x6e, 0x65, 0x63, 0x74]

def bcastWord : List UInt8 := [0x62, 0x63, 0x61, 0x73, 0x74]

def broadcastWord : List UInt8 := [0x62, 0x72, 0x6f, 0x61, 0x64, 0x63, 0x61, 0x73, 0x74]

/-- `"00:00:00:00:"` -/
def shortKey : List UInt8 := [0x30, 0x30, 0x3a, 0x30, 0x30, 0x3a, 0x30, 0x30, 0x3a, 0x30, 0x30, 0x3a]

/-- What a `/connect` line names: `docmd` up to its usage message. -/
def connectArg (line : List UInt8) : Option (List UInt8) :=
  let s := cString line
  if s.take 8 = connectWord ∧ ((s.drop 8).head? = some 0x20 ∨ s.drop 8 = []) then
    let p := (s.drop 8).dropWhile (· = 0x20)
    if p = [] then none else some p
  else none

section

-- `fmt room s` is what the library prints of `s` for a `%s` into that room.
variable (fmt : Nat → List UInt8 → List UInt8)

def newDst (p : List UInt8) : List UInt8 :=
  if p = bcastWord ∨ p = broadcastWord then fmtAddr .bcast
  else if p.length ≤ 5 then shortKey ++ fmt 11 p
  else fmt 23 p

/-- `"connect %s"` in `cmd[64]`. -/
def connectCmd (dst : List UInt8) : List UInt8 := connectKey ++ fmt 55 dst

end

/-- The reader: before its `fsread`, with the read on its way, blocked in it,
behind it, holding `convlk` with the connect or its reply on its way, or gone. -/
inductive Reader where
  | idle
  | sent
  | blocked
  | got (ending : Ending)
  | connecting
  | connected
  | exited
  deriving DecidableEq

def Reader.locks (reader : Reader) : Bool := reader = .connecting || reader = .connected

/-- The command proc: not in `docmd`, or holding `convlk` with the hangup or its
reply on its way. -/
inductive Docmd where
  | idle
  | hangingUp
  | hungUp (ok : Bool)
  deriving DecidableEq

/-- The conversation on the server, `g_dst` and `switching`, and the two procs.
`target` is history: the last target that was asked for. -/
structure Achat where
  conv : Conv Unit
  dst : List UInt8
  switching : Bool
  reader : Reader
  docmd : Docmd
  target : List UInt8

inductive ReaderEvent where
  | send
  | shown
  | retry (slow : Bool)
  | eof
  | connect
  | connected

inductive AchatEvent where
  | command (line : List UInt8)
  | hangup
  | hungUp
  | serve
  | arrive (mesh : Bindings) (frame : Frame)
  | reader (event : ReaderEvent)

section

variable (fmt : Nat → List UInt8 → List UInt8)

/-- `threadmain` up to the reader: a new conversation, and a connect that succeeds. -/
def Achat.start (dst : List UInt8) : Option Achat :=
  match anetWriteCtl .fresh (connectCmd fmt dst) with
  | (.ok _, conv) => some ⟨conv, dst.take 23, false, .idle, .idle, dst⟩
  | (.error _, _) => none

/-- `docmd` up to the `fswrite` of its hangup. -/
def commandStep (s : Achat) (line : List UInt8) : Option Achat :=
  if s.docmd ≠ .idle ∨ s.reader.locks ∨ s.reader = .exited then none
  else (connectArg line).map fun p =>
    { s with dst := newDst fmt p, switching := true, docmd := .hangingUp, target := newDst fmt p }

/-- The server's part of the hangup, which wakes a blocked read. -/
def hangupStep (s : Achat) : Option Achat :=
  if s.docmd = .hangingUp then
    match anetWriteCtl s.conv hangupKey with
    | (.ok _, conv) =>
        some { s with
          conv := conv
          docmd := .hungUp true
          reader := if s.reader = .blocked then .got .purged else s.reader }
    | (.error _, conv) => some { s with conv := conv, docmd := .hungUp false }
  else none

def hungUpStep (s : Achat) : Option Achat :=
  match s.docmd with
  | .hungUp ok => some { s with switching := s.switching && ok, docmd := .idle }
  | _ => none

def serveStep (count : Nat) (s : Achat) : Option Achat :=
  if s.reader = .sent then
    match s.conv.rxq.get () with
    | (some d, rxq) => some { s with conv := { s.conv with rxq := rxq }, reader := .got (s.conv.finishRead count d) }
    | (none, rxq) => some { s with conv := { s.conv with rxq := rxq }, reader := .blocked }
  else none

def arriveStep (maxMsg count : Nat) (s : Achat) (mesh : Bindings) (f : Frame) : Achat :=
  if s.conv.takes mesh f.src (identOf mesh f.src f.broadcast) f.broadcast then
    match s.conv.rxq.put rxqDepth (f.dgram maxMsg mesh) with
    | (.handed _, rxq) =>
        { s with conv := { s.conv with rxq := rxq }, reader := .got (s.conv.finishRead count (f.dgram maxMsg mesh)) }
    | (_, rxq) => { s with conv := { s.conv with rxq := rxq } }
  else s

/-- The reader behind its read. A read error after a long wait is read again. -/
def readerStep (s : Achat) : ReaderEvent → Option Achat
  | .send => if s.reader = .idle then some { s with reader := .sent } else none
  | .shown =>
      match s.reader with
      | .got (.datagram ..) => some { s with reader := .idle }
      | _ => none
  | .retry slow =>
      match s.reader with
      | .got (.tooSmall _) => some { s with reader := if slow then .idle else .exited }
      | _ => none
  | .eof =>
      match s.reader with
      | .got ending =>
          if ending.eof ∧ s.docmd = .idle then
            some { s with reader := if s.switching then .connecting else .idle }
          else none
      | _ => none
  | .connect =>
      if s.reader = .connecting then
        some { s with conv := (anetWriteCtl s.conv (connectCmd fmt s.dst)).2, reader := .connected }
      else none
  | .connected => if s.reader = .connected then some { s with switching := false, reader := .idle } else none

/-- `count` is the room of a read. -/
def achatStep (maxMsg count : Nat) (s : Achat) : AchatEvent → Option Achat
  | .command line => commandStep fmt s line
  | .hangup => hangupStep s
  | .hungUp => hungUpStep s
  | .serve => serveStep count s
  | .arrive mesh f => some (arriveStep maxMsg count s mesh f)
  | .reader event => readerStep fmt s event

def lastTarget (dst : List UInt8) (events : List AchatEvent) : List UInt8 :=
  events.foldl (fun target event =>
    match event with
    | .command line => ((connectArg line).map (newDst fmt)).getD target
    | _ => target) dst

/-- The conversation is bound to what the server reads in the target, or is
unconnected when it reads no address there. -/
def Bound {ρ : Type} (target : List UInt8) (c : Conv ρ) : Prop :=
  match CtlCmd.ofText (ctlText (connectCmd fmt target)) with
  | .connect addr => if addr = .bcast then c.state = .bcast else c.state = .connected ∧ c.peer = addr
  | _ => c.state = .unconnected

end

/-- The reader blocks in a read, no command is in progress, and no end of file
waits. -/
def Achat.Quiescent (s : Achat) : Prop :=
  s.reader = .blocked ∧ s.docmd = .idle ∧ ∀ d ∈ s.conv.rxq.items, d.data ≠ []

/-! ## The end of file that a hangup leaves -/

def Achat.EofDue (s : Achat) : Prop :=
  (∃ d ∈ s.conv.rxq.items, d.data = []) ∨ ∃ ending, s.reader = .got ending ∧ ending.eof = true

def Achat.Between (s : Achat) : Prop :=
  s.switching = true ∧ s.docmd ≠ .hangingUp ∧ s.reader ≠ .connected

structure AchatInv (fmt : Nat → List UInt8 → List UInt8) (s : Achat) : Prop where
  calm : s.conv.rxq.Calm
  blocked : s.conv.rxq.parked = if s.reader = .blocked then [()] else []
  /-- `convlk` has one holder, who is switching. -/
  alone : s.docmd ≠ .idle → s.reader.locks = false
  hanging : s.docmd ≠ .idle → s.switching = true
  connecting : s.reader.locks = true → s.switching = true
  hungUp : s.docmd ≠ .hungUp false
  requested : s.switching = true → s.dst = s.target
  unconnected : s.Between → s.conv.state = .unconnected
  due : s.Between → s.reader.locks = false → s.EofDue
  bound : s.switching = false ∨ s.reader = .connected → Bound fmt s.target s.conv

/-! ## What the server makes of the two commands -/

theorem anetWriteCtl_hangup (c : Conv Unit) : anetWriteCtl c hangupKey =
    (.ok 6, { c with state := .unconnected, peer := .zero, rxq := ⟨[.eof], []⟩ }) := by
  have htext : CtlCmd.ofText (ctlText hangupKey) = .hangup := by decide
  rw [anetWriteCtl, htext]
  rfl

theorem ctlText_head (rest : List UInt8) : ∃ tail, ctlText (0x63 :: rest) = 0x63 :: tail := by
  have hkept : ∃ tail, stripped (0x63 :: rest.take 62) = 0x63 :: tail := by
    obtain ⟨blanks, hsplit⟩ : stripped (0x63 :: rest.take 62) <+: 0x63 :: rest.take 62 :=
      List.rdropWhile_prefix ..
    cases hstripped : stripped (0x63 :: rest.take 62) with
    | nil =>
      have hblank := List.rdropWhile_eq_nil_iff.mp hstripped 0x63 List.mem_cons_self
      exact absurd hblank (by decide)
    | cons c tail =>
      rw [hstripped, List.cons_append, List.cons.injEq] at hsplit
      rw [hsplit.1]
      exact ⟨tail, rfl⟩
  obtain ⟨tail, htail⟩ := hkept
  refine ⟨tail.takeWhile (· ≠ 0), ?_⟩
  rw [ctlText, List.take_succ_cons, htail]
  rfl

section

variable (fmt : Nat → List UInt8 → List UInt8)

theorem ofText_connectCmd (target : List UInt8) :
    CtlCmd.ofText (ctlText (connectCmd fmt target)) = .unknown ∨
      ∃ addr, CtlCmd.ofText (ctlText (connectCmd fmt target)) = .connect addr := by
  obtain ⟨tail, htail⟩ := ctlText_head (connectKey.tail ++ fmt 55 target)
  have htext : ctlText (connectCmd fmt target) = 0x63 :: tail := htail
  have hannounce : (0x63 :: tail) ≠ announceKey := by simp [announceKey]
  have hhangup : (0x63 :: tail) ≠ hangupKey := by simp [hangupKey]
  rw [htext, CtlCmd.ofText, if_neg hannounce, if_neg hhangup]
  split
  · cases parseAddr ((0x63 :: tail).drop 8) with
    | none => exact .inl rfl
    | some addr => exact .inr ⟨addr, rfl⟩
  · exact .inl rfl

theorem bound_connect {c : Conv Unit} (hstate : c.state = .unconnected) (target : List UInt8) :
    Bound fmt target (anetWriteCtl c (connectCmd fmt target)).2 := by
  rcases ofText_connectCmd fmt target with hunknown | ⟨addr, haddr⟩
  · simp only [Bound, anetWriteCtl, hunknown, ctlExec]
    exact hstate
  · have hexec : ctlExec c (.connect addr) = some ((CtlCmd.connect addr).effect c) :=
      ctlExec_of_fits (by simp) (.inr hstate)
    simp only [Bound, anetWriteCtl, haddr, hexec, CtlCmd.effect]
    split
    · rfl
    · exact ⟨rfl, rfl⟩

theorem connect_rxq (c : Conv Unit) (target : List UInt8) :
    (anetWriteCtl c (connectCmd fmt target)).2.rxq = c.rxq := by
  rcases ofText_connectCmd fmt target with hunknown | ⟨addr, haddr⟩
  · simp only [anetWriteCtl, hunknown, ctlExec]
  · simp only [anetWriteCtl, haddr, ctlExec]
    by_cases hstate : c.state = .unconnected
    · rw [if_neg (not_not.mpr hstate)]
      by_cases hbcast : addr = .bcast
      · rw [if_pos hbcast]
      · rw [if_neg hbcast]
    · rw [if_pos hstate]

end

theorem takes_unconnected {c : Conv Unit} {mesh : Bindings} {src ident : Addr} {broadcast : Bool}
    (h : c.state = .unconnected) : c.takes mesh src ident broadcast = false := by
  rw [Conv.takes, h]
  cases c.inUse <;> cases broadcast <;> rfl

/-! ## Every step keeps it -/

section

variable {fmt : Nat → List UInt8 → List UInt8}

theorem achatInv_command {s s' : Achat} {line : List UInt8} (h : AchatInv fmt s)
    (hstep : commandStep fmt s line = some s') : AchatInv fmt s' := by
  unfold commandStep at hstep
  split at hstep
  · cases hstep
  · rename_i hfree
    obtain ⟨p, -, rfl⟩ := Option.map_eq_some_iff.mp hstep
    simp only [not_or, Bool.not_eq_true] at hfree
    have hlocks : s.reader.locks = false := hfree.2.1
    refine ⟨h.calm, h.blocked, fun _ => hlocks, fun _ => rfl, fun _ => rfl, nofun, fun _ => rfl,
      fun hbetween => absurd rfl hbetween.2.1, fun hbetween => absurd rfl hbetween.2.1, ?_⟩
    rintro (hoff | hconnected)
    · cases hoff
    · rw [show s.reader = .connected from hconnected] at hlocks
      cases hlocks

theorem achatInv_hangup {s s' : Achat} (h : AchatInv fmt s) (hstep : hangupStep s = some s') : AchatInv fmt s' := by
  unfold hangupStep at hstep
  split at hstep
  · rename_i hhanging
    rw [anetWriteCtl_hangup] at hstep
    cases hstep
    have hbusy : s.docmd ≠ .idle := by rw [hhanging]; nofun
    have hswitching := h.hanging hbusy
    have hlocks : (if s.reader = .blocked then .got .purged else s.reader : Reader).locks = false := by
      split
      · rfl
      · exact h.alone hbusy
    refine ⟨.inl rfl, ?_, fun _ => hlocks, fun _ => hswitching, fun _ => hswitching, nofun, h.requested,
      fun _ => rfl, fun _ _ => .inl ⟨.eof, List.mem_singleton_self _, rfl⟩, ?_⟩
    · by_cases hblocked : s.reader = .blocked <;> simp [hblocked]
    · rintro (hoff | hconnected)
      · rw [show s.switching = false from hoff] at hswitching
        cases hswitching
      · have hconnected : (if s.reader = .blocked then .got .purged else s.reader : Reader) = .connected := hconnected
        rw [hconnected] at hlocks
        cases hlocks
  · cases hstep

theorem achatInv_hungUp {s s' : Achat} (h : AchatInv fmt s) (hstep : hungUpStep s = some s') : AchatInv fmt s' := by
  unfold hungUpStep at hstep
  split at hstep
  · rename_i ok hanswered
    cases hok : ok with
    | false =>
      rw [hok] at hanswered
      exact absurd hanswered h.hungUp
    | true =>
      rw [hok, Bool.and_true] at hstep
      cases hstep
      have hbefore : s.docmd ≠ .hangingUp := by rw [hanswered]; nofun
      exact ⟨h.calm, h.blocked, fun hbusy => absurd rfl hbusy, fun hbusy => absurd rfl hbusy, h.connecting, nofun,
        h.requested, fun hbetween => h.unconnected ⟨hbetween.1, hbefore, hbetween.2.2⟩,
        fun hbetween => h.due ⟨hbetween.1, hbefore, hbetween.2.2⟩, h.bound⟩
  · cases hstep

theorem achatInv_serve {count : Nat} {s s' : Achat} (h : AchatInv fmt s) (hstep : serveStep count s = some s') :
    AchatInv fmt s' := by
  unfold serveStep at hstep
  split at hstep
  · rename_i hsent
    have hparked : s.conv.rxq.parked = [] := by rw [h.blocked, if_neg (by rw [hsent]; nofun)]
    have hbefore : s.reader ≠ .connected := by rw [hsent]; nofun
    have hlocks : s.reader.locks = false := by rw [hsent]; rfl
    have hdue : s.Between → ∃ d ∈ s.conv.rxq.items, d.data = [] := by
      intro hbetween
      rcases h.due hbetween hlocks with hqueued | ⟨ending, hgot, -⟩
      · exact hqueued
      · rw [hsent] at hgot
        cases hgot
    cases hitems : s.conv.rxq.items with
    | nil =>
      simp only [Mailbox.get, hitems, hparked] at hstep
      cases hstep
      refine ⟨.inr rfl, rfl, fun _ => rfl, h.hanging, nofun, h.hungUp, h.requested,
        fun hbetween => h.unconnected ⟨hbetween.1, hbetween.2.1, hbefore⟩, fun hbetween _ => ?_,
        fun hcase => h.bound (hcase.imp_right nofun)⟩
      obtain ⟨d, hd, -⟩ := hdue ⟨hbetween.1, hbetween.2.1, hbefore⟩
      rw [hitems] at hd
      cases hd
    | cons d rest =>
      simp only [Mailbox.get, hitems, hparked] at hstep
      cases hstep
      refine ⟨.inl rfl, rfl, fun _ => rfl, h.hanging, nofun, h.hungUp, h.requested,
        fun hbetween => h.unconnected ⟨hbetween.1, hbetween.2.1, hbefore⟩, fun hbetween _ => ?_,
        fun hcase => h.bound (hcase.imp_right nofun)⟩
      obtain ⟨e, he, hempty⟩ := hdue ⟨hbetween.1, hbetween.2.1, hbefore⟩
      rw [hitems] at he
      rcases List.mem_cons.mp he with rfl | hrest
      · refine .inr ⟨_, rfl, ?_⟩
        rw [Conv.finishRead, if_pos hempty]
        rfl
      · exact .inl ⟨e, hrest, hempty⟩
  · cases hstep

/-- What arrives finds the conversation connected, so that no end of file is due. -/
theorem achatInv_arrive {maxMsg count : Nat} {s : Achat} (h : AchatInv fmt s) (mesh : Bindings) (f : Frame) :
    AchatInv fmt (arriveStep maxMsg count s mesh f) := by
  unfold arriveStep
  split
  · rename_i htakes
    have hnot : ¬ s.Between := by
      intro hbetween
      rw [takes_unconnected (h.unconnected hbetween)] at htakes
      cases htakes
    have hcalm : (s.conv.rxq.put rxqDepth (f.dgram maxMsg mesh)).2.Calm := Mailbox.put_calm h.calm
    revert hcalm
    unfold Mailbox.put
    by_cases hroom : s.conv.rxq.items.length < rxqDepth
    · rw [if_pos hroom]
      cases hparked : s.conv.rxq.parked with
      | nil =>
        intro hcalm
        exact ⟨hcalm, hparked.symm.trans h.blocked, h.alone, h.hanging, h.connecting, h.hungUp, h.requested,
          fun hbetween => absurd hbetween hnot, fun hbetween => absurd hbetween hnot, h.bound⟩
      | cons reader later =>
        intro hcalm
        have hreader : s.reader = .blocked := by
          by_contra hother
          rw [h.blocked, if_neg hother] at hparked
          cases hparked
        have hlater : later = [] := by
          rw [h.blocked, if_pos hreader] at hparked
          exact (List.cons.inj hparked).2.symm
        have hbefore : s.reader ≠ .connected := by rw [hreader]; nofun
        exact ⟨hcalm, hlater, fun _ => rfl, h.hanging, nofun, h.hungUp, h.requested,
          fun hbetween => absurd ⟨hbetween.1, hbetween.2.1, hbefore⟩ hnot,
          fun hbetween => absurd ⟨hbetween.1, hbetween.2.1, hbefore⟩ hnot,
          fun hcase => h.bound (hcase.imp_right nofun)⟩
    · rw [if_neg hroom]
      intro _
      exact h
  · exact h

theorem achatInv_reader {s : Achat} (h : AchatInv fmt s) {reader : Reader}
    (hnow : s.reader ≠ .blocked ∧ s.reader.locks = false) (hnext : reader ≠ .blocked ∧ reader ≠ .connected)
    (hlocks : reader.locks = true → s.switching = true ∧ s.docmd = .idle)
    (hdue : s.Between → reader.locks = false → { s with reader := reader }.EofDue) :
    AchatInv fmt { s with reader := reader } := by
  have hbefore : s.reader ≠ .connected := by
    intro hconnected
    rw [hconnected] at hnow
    cases hnow.2
  refine ⟨h.calm, ?_, fun hbusy => ?_, h.hanging, fun hreader => (hlocks hreader).1, h.hungUp, h.requested,
    fun hbetween => h.unconnected ⟨hbetween.1, hbetween.2.1, hbefore⟩,
    fun hbetween => hdue ⟨hbetween.1, hbetween.2.1, hbefore⟩,
    fun hcase => h.bound (hcase.imp_right fun hconnected => absurd hconnected hnext.2)⟩
  · have hparked := h.blocked
    rw [if_neg hnow.1] at hparked
    exact hparked.trans (if_neg hnext.1).symm
  · by_contra hreader
    exact hbusy (hlocks ((Bool.not_eq_false _).mp hreader)).2

theorem Achat.EofDue.kept {s : Achat} {reader : Reader} (h : s.EofDue)
    (hnot : ∀ ending, s.reader = .got ending → ending.eof = false) : { s with reader := reader }.EofDue := by
  rcases h with hqueued | ⟨ending, hgot, heof⟩
  · exact .inl hqueued
  · rw [hnot ending hgot] at heof
    cases heof

/-- Who holds `convlk` holds it alone. -/
theorem AchatInv.docmd_idle {s : Achat} (h : AchatInv fmt s) (hlocks : s.reader.locks = true) : s.docmd = .idle := by
  by_contra hbusy
  rw [h.alone hbusy] at hlocks
  cases hlocks

theorem achatInv_connect {s s' : Achat} (h : AchatInv fmt s) (hstep : readerStep fmt s .connect = some s') :
    AchatInv fmt s' := by
  simp only [readerStep] at hstep
  split at hstep
  · rename_i hconnecting
    cases hstep
    have hlocks : s.reader.locks = true := by rw [hconnecting]; rfl
    have hidle := h.docmd_idle hlocks
    have hswitching := h.connecting hlocks
    have hstate := h.unconnected ⟨hswitching, by rw [hidle]; nofun, by rw [hconnecting]; nofun⟩
    have hrxq := connect_rxq fmt s.conv s.dst
    refine ⟨by rw [hrxq]; exact h.calm, ?_, fun hbusy => absurd hidle hbusy, h.hanging, fun _ => hswitching,
      h.hungUp, h.requested, fun hbetween => absurd rfl hbetween.2.2, fun hbetween => absurd rfl hbetween.2.2,
      fun _ => ?_⟩
    · have hparked := h.blocked
      rw [if_neg (by rw [hconnecting]; nofun)] at hparked
      rw [hrxq, hparked]
      rfl
    · rw [show s.target = s.dst from (h.requested hswitching).symm]
      exact bound_connect fmt hstate s.dst
  · cases hstep

theorem achatInv_connected {s s' : Achat} (h : AchatInv fmt s) (hstep : readerStep fmt s .connected = some s') :
    AchatInv fmt s' := by
  simp only [readerStep] at hstep
  split at hstep
  · rename_i hconnected
    cases hstep
    have hidle := h.docmd_idle (by rw [hconnected]; rfl)
    refine ⟨h.calm, ?_, fun _ => rfl, fun hbusy => absurd hidle hbusy, nofun, h.hungUp, nofun,
      fun hbetween => absurd hbetween.1 nofun, fun hbetween => absurd hbetween.1 nofun,
      fun _ => h.bound (.inr hconnected)⟩
    have hparked := h.blocked
    rw [if_neg (by rw [hconnected]; nofun)] at hparked
    rw [hparked]
    rfl
  · cases hstep

theorem achatInv_readerStep {s s' : Achat} {event : ReaderEvent} (h : AchatInv fmt s)
    (hstep : readerStep fmt s event = some s') : AchatInv fmt s' := by
  cases event with
  | send =>
    simp only [readerStep] at hstep
    split at hstep
    · rename_i hidle
      cases hstep
      exact achatInv_reader h (by rw [hidle]; exact ⟨nofun, rfl⟩) ⟨nofun, nofun⟩ nofun fun hbetween _ =>
        (h.due hbetween (by rw [hidle]; rfl)).kept (by rw [hidle]; nofun)
    · cases hstep
  | shown =>
    simp only [readerStep] at hstep
    split at hstep
    · rename_i d bytes hgot
      cases hstep
      refine achatInv_reader h (by rw [hgot]; exact ⟨nofun, rfl⟩) ⟨nofun, nofun⟩ nofun fun hbetween _ =>
        (h.due hbetween (by rw [hgot]; rfl)).kept fun ending hending => ?_
      rw [hgot] at hending
      cases hending
      rfl
    · cases hstep
  | retry slow =>
    simp only [readerStep] at hstep
    split at hstep
    · rename_i d hgot
      cases hstep
      have hnot : ∀ ending, s.reader = .got ending → ending.eof = false := by
        intro ending hending
        rw [hgot] at hending
        cases hending
        rfl
      cases slow <;>
        exact achatInv_reader h (by rw [hgot]; exact ⟨nofun, rfl⟩) ⟨nofun, nofun⟩ nofun fun hbetween _ =>
          (h.due hbetween (by rw [hgot]; rfl)).kept hnot
    · cases hstep
  | eof =>
    simp only [readerStep] at hstep
    split at hstep
    · rename_i ending hgot
      split at hstep
      · rename_i hfree
        cases hstep
        by_cases hswitching : s.switching = true
        · rw [if_pos hswitching]
          exact achatInv_reader h (by rw [hgot]; exact ⟨nofun, rfl⟩) ⟨nofun, nofun⟩
            (fun _ => ⟨hswitching, hfree.2⟩) (fun _ hlocks => by cases hlocks)
        · rw [if_neg hswitching]
          exact achatInv_reader h (by rw [hgot]; exact ⟨nofun, rfl⟩) ⟨nofun, nofun⟩ nofun
            fun hbetween => absurd hbetween.1 hswitching
      · cases hstep
    · cases hstep
  | connect => exact achatInv_connect h hstep
  | connected => exact achatInv_connected h hstep

theorem achatInv_step {maxMsg count : Nat} {s s' : Achat} {event : AchatEvent} (h : AchatInv fmt s)
    (hstep : achatStep fmt maxMsg count s event = some s') : AchatInv fmt s' := by
  cases event with
  | command line => exact achatInv_command h hstep
  | hangup => exact achatInv_hangup h hstep
  | hungUp => exact achatInv_hungUp h hstep
  | serve => exact achatInv_serve h hstep
  | arrive mesh f =>
    cases hstep
    exact achatInv_arrive h mesh f
  | reader event => exact achatInv_readerStep h hstep

theorem achatInv_start {dst : List UInt8} {s : Achat} (hstart : Achat.start fmt dst = some s) : AchatInv fmt s := by
  have hbound := bound_connect fmt (c := .fresh) rfl dst
  have hrxq := connect_rxq fmt .fresh dst
  unfold Achat.start at hstart
  split at hstart
  · rename_i n conv hconnect
    rw [hconnect] at hbound hrxq
    cases hstart
    refine ⟨?_, ?_, nofun, nofun, nofun, nofun, nofun, fun hbetween => absurd hbetween.1 nofun,
      fun hbetween => absurd hbetween.1 nofun, fun _ => hbound⟩
    · rw [show conv.rxq = _ from hrxq]
      exact Mailbox.calm_empty
    · rw [show conv.rxq = _ from hrxq]
      rfl
  · cases hstart

/-! ## Convergence -/

theorem readerStep_target {s s' : Achat} {event : ReaderEvent} (hstep : readerStep fmt s event = some s') :
    s'.target = s.target := by
  unfold readerStep at hstep
  grind

theorem achatStep_target {maxMsg count : Nat} {s s' : Achat} {event : AchatEvent}
    (hstep : achatStep fmt maxMsg count s event = some s') : s'.target = lastTarget fmt s.target [event] := by
  cases event with
  | command line =>
    simp only [achatStep, commandStep] at hstep
    split at hstep
    · cases hstep
    · obtain ⟨p, hp, rfl⟩ := Option.map_eq_some_iff.mp hstep
      simp only [lastTarget, List.foldl, hp, Option.map_some, Option.getD_some]
  | hangup =>
    simp only [achatStep, hangupStep, anetWriteCtl_hangup] at hstep
    split at hstep <;> cases hstep
    rfl
  | hungUp =>
    simp only [achatStep, hungUpStep] at hstep
    split at hstep <;> cases hstep
    rfl
  | serve =>
    simp only [achatStep, serveStep] at hstep
    split at hstep
    · split at hstep <;> cases hstep <;> rfl
    · cases hstep
  | arrive mesh f =>
    cases hstep
    simp only [arriveStep]
    split
    · split <;> rfl
    · rfl
  | reader event => exact readerStep_target hstep

theorem achat_target {maxMsg count : Nat} {s s' : Achat} {events : List AchatEvent}
    (hrun : run (achatStep fmt maxMsg count) s events = some s') : s'.target = lastTarget fmt s.target events := by
  induction events generalizing s with
  | nil => exact congrArg Achat.target (Option.some.inj hrun).symm
  | cons event rest ih =>
    obtain ⟨next, hnext, hrest⟩ := run_cons_eq_some.mp hrun
    rw [ih hrest, achatStep_target hnext]
    rfl

/-- In a quiet state the last target that was asked for is the one connected to. -/
theorem retarget_converges {maxMsg count : Nat} {dst : List UInt8} {s₀ s : Achat} {events : List AchatEvent}
    (hstart : Achat.start fmt dst = some s₀) (hrun : run (achatStep fmt maxMsg count) s₀ events = some s)
    (hquiet : s.Quiescent) : s.switching = false ∧ Bound fmt (lastTarget fmt dst events) s.conv := by
  have htarget := achat_target hrun
  rw [show s₀.target = dst by unfold Achat.start at hstart; split at hstart <;> cases hstart; rfl] at htarget
  have hinv : AchatInv fmt s := run_invariant (AchatInv fmt) (fun _ _ _ h _ hstep => achatInv_step h hstep)
    (achatInv_start hstart) (along_true _ _) hrun
  obtain ⟨hblocked, hidle, hnone⟩ := hquiet
  have hoff : s.switching = false := by
    by_contra hon
    rw [Bool.not_eq_false] at hon
    rcases hinv.due ⟨hon, by rw [hidle]; nofun, by rw [hblocked]; nofun⟩ (by rw [hblocked]; rfl) with
      ⟨d, hd, hempty⟩ | ⟨ending, hgot, -⟩
    · exact hnone d hd hempty
    · rw [hblocked] at hgot
      cases hgot
  refine ⟨hoff, ?_⟩
  rw [← htarget]
  exact hinv.bound (.inl hoff)

end

def twoRequests : List AchatEvent :=
  [.reader .send, .serve, .command (connectWord ++ 0x20 :: bcastWord), .hangup, .hungUp, .reader .eof,
    .reader .connect, .reader .connected, .reader .send,
    .command (connectWord ++ [0x20, 0x31, 0x32, 0x3a, 0x33, 0x34]), .hangup, .hungUp, .serve, .reader .eof,
    .reader .connect, .reader .connected, .reader .send, .serve]

instance (s : Achat) : Decidable s.Quiescent := inferInstanceAs (Decidable (_ ∧ _))

/-- They leave the conversation connected to `00:00:00:00:12:34`. -/
theorem retarget_converges_twice : ∃ s₀ s, Achat.start List.take (fmtAddr .bcast) = some s₀ ∧
    run (achatStep List.take 1024 1024) s₀ twoRequests = some s ∧ s.switching = false ∧
      Bound List.take (shortKey ++ [0x31, 0x32, 0x3a, 0x33, 0x34]) s.conv := by
  have hstart : Achat.start List.take (fmtAddr .bcast) =
      some ⟨{ Conv.fresh with state := .bcast }, fmtAddr .bcast, false, .idle, .idle, fmtAddr .bcast⟩ := rfl
  have hends : ((run (achatStep List.take 1024 1024)
      ⟨{ Conv.fresh with state := .bcast }, fmtAddr .bcast, false, .idle, .idle, fmtAddr .bcast⟩
      twoRequests).any fun s => decide s.Quiescent) = true := by decide +kernel
  obtain ⟨s, hrun, hquiet⟩ := (Option.any_eq_true _ _).mp hends
  exact ⟨_, s, hstart, hrun, retarget_converges hstart hrun (of_decide_eq_true hquiet)⟩

end DectMesh.Chat
