import DectMesh.Aether.Fids

/-! Slots are reused and fids keep raw node pointers, so a fid can outlive its
conversation and act on the next one in the same slot. -/
namespace DectMesh.Aether

open DectMesh.Lib

variable {F : Type}

/-- Everything that happens to the slots: requests of any client, receptions,
and the conversations of the in-process sessions (drain, probe, push). -/
inductive NetEvent (F : Type) where
  | name (event : NameEvent F)
  | read (fid : F)
  | writeData (fid : F) (mesh : Bindings) (buf : List UInt8)
  | writeCtl (fid : F) (cmd : CtlCmd)
  | recv (mesh : Bindings) (frame : Frame)
  | sessionOpen (eui : Addr)
  | sessionGet (n : Slot)
  | sessionClose (n : Slot)

def Server.setConv (s : Server F) (n : Slot) (c : Conv (Reader F)) : Server F :=
  { s with fs := { s.fs with convs := Function.update s.fs.convs n c } }

def Server.read (s : Server F) (fid : F) : Option (Server F) :=
  match s.fids fid with
  | none => none
  | some (.data n) =>
      some (s.setConv n { s.fs.convs n with rxq := ((s.fs.convs n).rxq.get (fid, s.owner fid)).2 })
  | some _ => some s

def Server.writeCtl (s : Server F) (fid : F) (cmd : CtlCmd) : Option (Server F) :=
  match s.fids fid with
  | none => none
  | some (.ctl n) => some ((ctlExec (s.fs.convs n) cmd).elim s (s.setConv n))
  | some _ => some s

def Server.writeData (s : Server F) (fid : F) : Option (Server F) :=
  match s.fids fid with
  | none => none
  | some _ => some s

def Server.sessionOpen (s : Server F) (eui : Addr) : Option (Server F) :=
  s.fs.alloc.map fun (n, fs) =>
    { s with fs := { fs with
        convs := Function.update fs.convs n { fs.convs n with peer := eui, state := .connected } } }

def Server.netStep [DecidableEq F] (maxMsg : Nat) (s : Server F) : NetEvent F → Option (Server F)
  | .name event => s.nameStep event
  | .read fid => s.read fid
  | .writeData fid _ _ => s.writeData fid
  | .writeCtl fid cmd => s.writeCtl fid cmd
  | .recv mesh frame => some { s with fs := { s.fs with convs := aetherRecvCb maxMsg mesh frame s.fs.convs } }
  | .sessionOpen eui => s.sessionOpen eui
  | .sessionGet n => some (s.setConv n { s.fs.convs n with rxq := (s.fs.convs n).rxq.poll.2 })
  | .sessionClose n => some { s with fs := s.fs.free n }

/-! ## What a fid does to the conversation in a slot -/

/-- The fid, of this generation, has an effect on the slot's conversation: it
gets a datagram from its queue, sends on it, changes its binding or frees it. -/
structure Touch where
  owner : Option Nat
  slot : Slot
  deriving DecidableEq

def readTouches (s : Server F) (fid : F) : List Touch :=
  match s.fids fid with
  | some (.data n) => if (s.fs.convs n).rxq.items = [] then [] else [⟨s.owner fid, n⟩]
  | _ => []

def ctlTouches (s : Server F) (fid : F) (cmd : CtlCmd) : List Touch :=
  match s.fids fid with
  | some (.ctl n) => if (ctlExec (s.fs.convs n) cmd).isSome then [⟨s.owner fid, n⟩] else []
  | _ => []

def sendTouches (maxMsg : Nat) (s : Server F) (fid : F) (mesh : Bindings) (buf : List UInt8) : List Touch :=
  match s.fids fid with
  | some (.data n) =>
      match anetWriteData maxMsg mesh (s.fs.convs n) buf with
      | .ok _ => [⟨s.owner fid, n⟩]
      | .error _ => []
  | _ => []

def clunkTouches (s : Server F) (fid : F) : List Touch :=
  match s.fids fid with
  | some (.ctl n) => [⟨s.owner fid, n⟩]
  | _ => []

/-- A frame goes to the read that has been parked longest. -/
def handedTouches (maxMsg : Nat) (s : Server F) (mesh : Bindings) (frame : Frame) : List Touch :=
  (List.finRange maxConns).filterMap fun n =>
    if (s.fs.convs n).takes mesh frame.src (identOf mesh frame.src frame.broadcast) frame.broadcast then
      match ((s.fs.convs n).rxq.put rxqDepth (frame.dgram maxMsg mesh)).1 with
      | .handed reader => some ⟨reader.2, n⟩
      | _ => none
    else none

def touches (maxMsg : Nat) (s : Server F) : NetEvent F → List Touch
  | .name (.clunk fid) => clunkTouches s fid
  | .read fid => readTouches s fid
  | .writeData fid mesh buf => sendTouches maxMsg s fid mesh buf
  | .writeCtl fid cmd => ctlTouches s fid cmd
  | .recv mesh frame => handedTouches maxMsg s mesh frame
  | _ => []

/-- A fid obtained in some generation of a slot touches no conversation of
another one there. -/
def Isolated (maxMsg : Nat) (s : Server F) (event : NetEvent F) : Prop :=
  ∀ t ∈ touches maxMsg s event, ∀ e, t.owner = some e →
    (s.fs.convs t.slot).inUse = true → e = s.fs.epoch t.slot

/-- The event allocates a slot, if it does, on whose ctl and data nodes stands
no fid of an earlier generation. -/
def AllocatesClear [DecidableEq F] (maxMsg : Nat) (s : Server F) (event : NetEvent F) : Prop :=
  ∀ s', s.netStep maxMsg event = some s' → ∀ n,
    (s.fs.convs n).inUse = false → (s'.fs.convs n).inUse = true →
    ∀ fid, (s.fids fid = some (.ctl n) ∨ s.fids fid = some (.data n)) → s.owner fid = none

/-! ## The invariant -/

structure Owned (s : Server F) : Prop where
  fids : ∀ fid n e, (s.fids fid = some (.ctl n) ∨ s.fids fid = some (.data n)) →
    s.owner fid = some e → (s.fs.convs n).inUse = true → e = s.fs.epoch n
  parked : ∀ n r e, r ∈ (s.fs.convs n).rxq.parked → r.2 = some e →
    (s.fs.convs n).inUse = true → e = s.fs.epoch n

/-- Slots in use afterwards were so before, with at most one more parked read,
or are new. -/
def SlotsFrom (s s' : Server F) : Prop :=
  ∀ n, (s'.fs.convs n).inUse = true →
    ((s.fs.convs n).inUse = true ∧ s'.fs.epoch n = s.fs.epoch n ∧
      ∀ r ∈ (s'.fs.convs n).rxq.parked,
        r ∈ (s.fs.convs n).rxq.parked ∨ ∃ fid, s.fids fid = some (.data n) ∧ r.2 = s.owner fid) ∨
    ((s.fs.convs n).inUse = false ∧ (s'.fs.convs n).rxq.parked = [])

/-- Fids on conversation files are as before, copied, or of the generation now
in the slot. -/
def FidsFrom (s s' : Server F) : Prop :=
  ∀ fid node n, node.convFile = some n → s'.fids fid = some node →
    (∃ old, s.fids old = some node ∧ s'.owner fid = s.owner old) ∨
      s'.owner fid = s'.fs.generation node

theorem SlotsFrom.refl (s s' : Server F) (h : s'.fs = s.fs) : SlotsFrom s s' := by
  intro n hn
  rw [h] at hn ⊢
  exact .inl ⟨hn, rfl, fun _ => .inl⟩

theorem FidsFrom.refl (s s' : Server F) (hfids : s'.fids = s.fids) (howner : s'.owner = s.owner) :
    FidsFrom s s' := by
  intro fid node n _ hfid
  rw [hfids] at hfid
  exact .inl ⟨fid, hfid, congrFun howner fid⟩

/-- `hclear` is the condition on allocations. -/
theorem Owned.of_step {s s' : Server F} (h : Owned s) (hslots : SlotsFrom s s') (hfids : FidsFrom s s')
    (hclear : ∀ n, (s.fs.convs n).inUse = false → (s'.fs.convs n).inUse = true →
      ∀ fid, (s.fids fid = some (.ctl n) ∨ s.fids fid = some (.data n)) → s.owner fid = none) :
    Owned s' := by
  constructor
  · intro fid n e hnode howner hn
    obtain ⟨node, hnode', hfile, hof⟩ : ∃ node, s'.fids fid = some node ∧ node.convFile = some n ∧
        (node = .ctl n ∨ node = .data n) := by
      rcases hnode with hnode | hnode
      · exact ⟨_, hnode, rfl, .inl rfl⟩
      · exact ⟨_, hnode, rfl, .inr rfl⟩
    rcases hfids fid node n hfile hnode' with ⟨old, hold, hsame⟩ | hnew
    · have hold' : s.fids old = some (.ctl n) ∨ s.fids old = some (.data n) := by
        rcases hof with rfl | rfl
        · exact .inl hold
        · exact .inr hold
      rw [hsame] at howner
      rcases hslots n hn with ⟨hused, hepoch, -⟩ | ⟨hfree, -⟩
      · rw [hepoch]
        exact h.fids old n e hold' howner hused
      · rw [hclear n hfree hn old hold'] at howner
        cases howner
    · rw [hnew, NetFs.generation, hfile] at howner
      simp only [hn, if_true, Option.some.injEq] at howner
      exact howner.symm
  · intro n r e hr howner hn
    rcases hslots n hn with ⟨hused, hepoch, hparked⟩ | ⟨-, hempty⟩
    · rw [hepoch]
      rcases hparked r hr with hold | ⟨fid, hfid, hsame⟩
      · exact h.parked n r e hold howner hused
      · rw [hsame] at howner
        exact h.fids fid n e (.inr hfid) howner hused
    · rw [hempty] at hr
      cases hr

theorem owned_init : Owned (.init : Server F) where
  fids := fun _ _ _ h => h.elim (fun h => nomatch h) (fun h => nomatch h)
  parked := fun _ _ _ h => nomatch h

/-! ## What each event does to slots and fids -/

theorem slotsFrom_alloc {s s' : Server F} {m : Slot} {fs : NetFs (Reader F)} (h : s.fs.alloc = some (m, fs))
    (hepoch : s'.fs.epoch = fs.epoch) (hother : ∀ n, n ≠ m → s'.fs.convs n = fs.convs n)
    (hself : (s'.fs.convs m).rxq = (fs.convs m).rxq) : SlotsFrom s s' := by
  obtain ⟨hfree, hconvs, hepoch'⟩ := NetFs.alloc_eq h
  intro n hn
  by_cases hnm : n = m
  · subst hnm
    refine .inr ⟨hfree, ?_⟩
    rw [hself, hconvs, Function.update_self]
    rfl
  · have hsame : s'.fs.convs n = s.fs.convs n := by rw [hother n hnm, hconvs, Function.update_of_ne hnm]
    rw [hsame] at hn ⊢
    exact .inl ⟨hn, by rw [hepoch, hepoch', Function.update_of_ne hnm], fun _ => .inl⟩

theorem slotsFrom_free {s s' : Server F} {m : Slot} (h : s'.fs = s.fs.free m) : SlotsFrom s s' := by
  intro n hn
  by_cases hnm : n = m
  · subst hnm
    rw [h, NetFs.free_convs, convFree_self] at hn
    cases hn
  · have hsame : s'.fs.convs n = s.fs.convs n := by rw [h, NetFs.free_convs, convFree_other hnm]
    rw [hsame] at hn ⊢
    exact .inl ⟨hn, by rw [h, NetFs.free_epoch], fun _ => .inl⟩

theorem slotsFrom_setConv {s : Server F} {m : Slot} {c : Conv (Reader F)}
    (hused : c.inUse = (s.fs.convs m).inUse)
    (hparked : ∀ r ∈ c.rxq.parked,
      r ∈ (s.fs.convs m).rxq.parked ∨ ∃ fid, s.fids fid = some (.data m) ∧ r.2 = s.owner fid) :
    SlotsFrom s (s.setConv m c) := by
  intro n hn
  by_cases hnm : n = m
  · subst hnm
    simp only [Server.setConv, Function.update_self] at hn ⊢
    exact .inl ⟨hused ▸ hn, trivial, hparked⟩
  · simp only [Server.setConv, Function.update_of_ne hnm] at hn ⊢
    exact .inl ⟨hn, trivial, fun _ => .inl⟩

theorem put_parked {α ρ : Type} (depth : Nat) (box : Mailbox α ρ) (item : α) :
    ∀ r ∈ (box.put depth item).2.parked, r ∈ box.parked := by
  intro r hr
  unfold Mailbox.put at hr
  split at hr
  · split at hr
    · rename_i reader later hparked
      rw [hparked]
      exact List.mem_cons_of_mem _ hr
    · exact hr
  · exact hr

theorem purgeAndSentinel_parked {ρ : Type} (rxq : Mailbox Dgram ρ) : (purgeAndSentinel rxq).parked = [] := rfl

theorem ctlExec_keeps {ρ : Type} {c c' : Conv ρ} {cmd : CtlCmd} (h : ctlExec c cmd = some c') :
    c'.inUse = c.inUse ∧ (c'.rxq = c.rxq ∨ c'.rxq.parked = []) := by
  obtain ⟨hused, ⟨-, -, -, hrxq⟩ | ⟨-, -, hrxq⟩⟩ := ctlExec_cases h
  · exact ⟨hused, .inl hrxq⟩
  · rw [hrxq]
    exact ⟨hused, .inr (purgeAndSentinel_parked _)⟩

theorem slotsFrom_name [DecidableEq F] {s s' : Server F} {event : NameEvent F} (h : s.nameStep event = some s') :
    SlotsFrom s s' := by
  cases event with
  | attach fid => exact .refl s s' (Server.attach_eq h).2.1
  | walk fid newfid names =>
    rcases (Server.walk_eq h).1 with hsame | ⟨n, halloc⟩
    · exact .refl s s' hsame
    · exact slotsFrom_alloc halloc rfl (fun _ _ => rfl) rfl
  | clunk fid =>
    obtain ⟨node, -, hfs, -, -⟩ := Server.clunk_eq h
    cases node with
    | ctl n => exact slotsFrom_free hfs
    | _ => exact .refl s s' hfs

theorem fidsFrom_name [DecidableEq F] {s s' : Server F} {event : NameEvent F} (h : s.nameStep event = some s') :
    FidsFrom s s' := by
  cases event with
  | attach fid =>
    obtain ⟨-, -, hfids, howner⟩ := Server.attach_eq h
    intro other node n hfile hother
    by_cases hsame : other = fid
    · rw [hsame, hfids, Function.update_self] at hother
      cases hother
      cases hfile
    · rw [hfids, Function.update_of_ne hsame] at hother
      exact .inl ⟨other, hother, by rw [howner, Function.update_of_ne hsame]⟩
  | walk fid newfid names =>
    rcases (Server.walk_eq h).2 with ⟨hfids, howner⟩ | ⟨last, hfids, howner⟩
    · exact .refl s s' hfids howner
    · intro other node n hfile hother
      by_cases hsame : other = newfid
      · subst hsame
        rw [hfids, Function.update_self] at hother
        cases hother
        rcases howner with howner | ⟨-, hcopy, howner⟩
        · exact .inr (by rw [howner, Function.update_self])
        · exact .inl ⟨fid, hcopy, by rw [howner, Function.update_self]⟩
      · rw [hfids, Function.update_of_ne hsame] at hother
        refine .inl ⟨other, hother, ?_⟩
        rcases howner with howner | ⟨-, -, howner⟩ <;> rw [howner, Function.update_of_ne hsame]
  | clunk fid =>
    obtain ⟨node, -, -, hfids, howner⟩ := Server.clunk_eq h
    intro other node' n hfile hother
    by_cases hsame : other = fid
    · rw [hsame, hfids, Function.update_self] at hother
      cases hother
    · rw [hfids, Function.update_of_ne hsame] at hother
      exact .inl ⟨other, hother, by rw [howner]⟩

theorem netStep_fids [DecidableEq F] {maxMsg : Nat} {s s' : Server F} {event : NetEvent F}
    (h : s.netStep maxMsg event = some s') : FidsFrom s s' := by
  cases event with
  | name event => exact fidsFrom_name h
  | read fid =>
    simp only [Server.netStep, Server.read] at h
    split at h <;> cases h <;> exact .refl _ _ rfl rfl
  | writeData fid mesh buf =>
    simp only [Server.netStep, Server.writeData] at h
    split at h <;> cases h
    exact .refl _ _ rfl rfl
  | writeCtl fid cmd =>
    simp only [Server.netStep, Server.writeCtl] at h
    split at h
    · cases h
    · rename_i n _
      cases h
      cases ctlExec (s.fs.convs n) cmd <;> exact .refl _ _ rfl rfl
    · cases h
      exact .refl _ _ rfl rfl
  | recv mesh frame =>
    cases h
    exact .refl _ _ rfl rfl
  | sessionOpen eui =>
    obtain ⟨⟨n, fs⟩, -, rfl⟩ := Option.map_eq_some_iff.mp h
    exact .refl _ _ rfl rfl
  | sessionGet n =>
    cases h
    exact .refl _ _ rfl rfl
  | sessionClose n =>
    cases h
    exact .refl _ _ rfl rfl

theorem netStep_slots [DecidableEq F] {maxMsg : Nat} {s s' : Server F} {event : NetEvent F}
    (h : s.netStep maxMsg event = some s') : SlotsFrom s s' := by
  cases event with
  | name event => exact slotsFrom_name h
  | read fid =>
    simp only [Server.netStep, Server.read] at h
    split at h
    · cases h
    · rename_i n hfid
      cases h
      refine slotsFrom_setConv rfl fun r hr => ?_
      -- the read that parks is the fid's own
      simp only [Mailbox.get] at hr
      split at hr
      · exact .inl hr
      · rcases List.mem_append.mp hr with hr | hr
        · exact .inl hr
        · rw [List.mem_singleton.mp hr]
          exact .inr ⟨fid, hfid, rfl⟩
    · cases h
      exact .refl _ _ rfl
  | writeData fid mesh buf =>
    simp only [Server.netStep, Server.writeData] at h
    split at h <;> cases h
    exact .refl _ _ rfl
  | writeCtl fid cmd =>
    simp only [Server.netStep, Server.writeCtl] at h
    split at h
    · cases h
    · rename_i n _
      cases h
      cases hexec : ctlExec (s.fs.convs n) cmd with
      | none => exact .refl _ _ rfl
      | some c =>
        obtain ⟨hused, hrxq⟩ := ctlExec_keeps hexec
        refine slotsFrom_setConv hused fun r hr => .inl ?_
        rcases hrxq with hrxq | hrxq
        · rwa [hrxq] at hr
        · rw [hrxq] at hr
          cases hr
    · cases h
      exact .refl _ _ rfl
  | recv mesh frame =>
    cases h
    intro n hn
    simp only [aetherRecvCb] at hn ⊢
    split at hn <;> rename_i htakes
    · rw [if_pos htakes]
      exact .inl ⟨hn, trivial, fun r hr => .inl (put_parked _ _ _ r hr)⟩
    · rw [if_neg htakes]
      exact .inl ⟨hn, trivial, fun _ => .inl⟩
  | sessionOpen eui =>
    obtain ⟨⟨n, fs⟩, halloc, rfl⟩ := Option.map_eq_some_iff.mp h
    refine slotsFrom_alloc halloc rfl (fun m hm => ?_) ?_
    · exact Function.update_of_ne hm _ _
    · simp
  | sessionGet n =>
    cases h
    refine slotsFrom_setConv rfl fun r hr => .inl ?_
    simp only [Mailbox.poll] at hr
    split at hr <;> exact hr
  | sessionClose n =>
    cases h
    exact slotsFrom_free rfl

theorem owned_netStep [DecidableEq F] {maxMsg : Nat} (s : Server F) (event : NetEvent F) (s' : Server F) (h : Owned s)
    (hclear : AllocatesClear maxMsg s event) (hstep : s.netStep maxMsg event = some s') : Owned s' :=
  h.of_step (netStep_slots hstep) (netStep_fids hstep) (hclear s' hstep)

theorem Owned.isolated {maxMsg : Nat} {s : Server F} (h : Owned s) (event : NetEvent F) :
    Isolated maxMsg s event := by
  have hctl : ∀ fid n e, s.fids fid = some (.ctl n) → s.owner fid = some e →
      (s.fs.convs n).inUse = true → e = s.fs.epoch n := fun fid n e hfid => h.fids fid n e (.inl hfid)
  have hdata : ∀ fid n e, s.fids fid = some (.data n) → s.owner fid = some e →
      (s.fs.convs n).inUse = true → e = s.fs.epoch n := fun fid n e hfid => h.fids fid n e (.inr hfid)
  intro t ht e howner hn
  cases event with
  | name event =>
    cases event with
    | clunk fid =>
      simp only [touches, clunkTouches] at ht
      split at ht
      · rename_i n hfid
        rw [List.mem_singleton.mp ht] at howner hn ⊢
        exact hctl fid n e hfid howner hn
      · cases ht
    | attach => cases ht
    | walk => cases ht
  | read fid =>
    simp only [touches, readTouches] at ht
    split at ht
    · rename_i n hfid
      split at ht
      · cases ht
      · rw [List.mem_singleton.mp ht] at howner hn ⊢
        exact hdata fid n e hfid howner hn
    · cases ht
  | writeData fid mesh buf =>
    simp only [touches, sendTouches] at ht
    split at ht
    · rename_i n hfid
      split at ht
      · rw [List.mem_singleton.mp ht] at howner hn ⊢
        exact hdata fid n e hfid howner hn
      · cases ht
    · cases ht
  | writeCtl fid cmd =>
    simp only [touches, ctlTouches] at ht
    split at ht
    · rename_i n hfid
      split at ht
      · rw [List.mem_singleton.mp ht] at howner hn ⊢
        exact hctl fid n e hfid howner hn
      · cases ht
    · cases ht
  | recv mesh frame =>
    obtain ⟨n, -, hn'⟩ := List.mem_filterMap.mp ht
    split at hn'
    · split at hn'
      · rename_i reader hput
        cases hn'
        refine h.parked n reader e ?_ howner hn
        -- the reader handed the frame was parked
        unfold Mailbox.put at hput
        split at hput
        · split at hput
          · rename_i first later hparked
            cases hput
            rw [hparked]
            exact List.mem_cons_self
          · cases hput
        · cases hput
      · cases hn'
    · cases hn'
  | sessionOpen => cases ht
  | sessionGet => cases ht
  | sessionClose => cases ht

/-- Every run in which each allocation takes a slot on whose ctl and data nodes
stands no fid of an earlier generation: no fid ever touches a conversation of
another generation than its own. -/
theorem generations_isolated [DecidableEq F] {maxMsg : Nat} {events : List (NetEvent F)}
    (hclear : Along (Server.netStep maxMsg) (AllocatesClear maxMsg) .init events) :
    Along (Server.netStep maxMsg) (Isolated maxMsg) .init events :=
  along_of_invariant (fun s event s' => owned_netStep s event s') (fun _ event h _ => h.isolated event)
    owned_init hclear

theorem generations_isolated_reclone :
    let events : List (NetEvent Nat) := [.name (.attach 0), .name (.walk 0 1 [cloneName]),
      .name (.clunk 1), .name (.walk 0 1 [cloneName])]
    Along (Server.netStep 512) (Isolated 512) .init events := by
  intro events
  apply generations_isolated
  -- at each event the fids on ctl and data nodes are at most fid 1, whose slot is in use
  refine ⟨?_, fun s hs => ?_⟩
  · intro s' hs' n _ hused
    cases hs'
    cases hused
  cases hs
  refine ⟨?_, fun s hs => ?_⟩
  · intro s' _ n _ _ fid hfid
    rcases fid with _ | fid <;> rcases hfid with hfid | hfid <;> cases hfid
  cases hs
  refine ⟨?_, fun s hs => ?_⟩
  · intro s' _ n hfree _ fid hfid
    rcases fid with _ | _ | fid <;> rcases hfid with hfid | hfid <;> cases hfid
    cases hfree
  cases hs
  refine ⟨?_, fun s hs => trivial⟩
  intro s' _ n _ _ fid hfid
  rcases fid with _ | _ | fid <;> rcases hfid with hfid | hfid <;> cases hfid

/-- A fid on the data file of a clone outlives it. A drain gets the slot, and a
write through the fid goes out on the drain's conversation. -/
theorem stale_fid_sends_on_drain :
    ¬ ∀ events : List (NetEvent Nat), Along (Server.netStep 512) (Isolated 512) .init events := by
  intro hclaim
  let mesh : Bindings := ⟨fun _ => none, fun _ => none⟩
  obtain ⟨-, hrest⟩ := hclaim [.name (.attach 0), .name (.walk 0 1 [cloneName]),
    .name (.walk 0 2 [[0x30], (NodeId.data 0).name]), .name (.clunk 1),
    .sessionOpen ⟨[2, 0, 0, 0, 0, 1], rfl⟩, .writeData 2 mesh [1]]
  obtain ⟨-, hrest⟩ := hrest _ rfl
  obtain ⟨-, hrest⟩ := hrest _ rfl
  obtain ⟨-, hrest⟩ := hrest _ rfl
  obtain ⟨-, hrest⟩ := hrest _ rfl
  obtain ⟨hisolated, -⟩ := hrest _ rfl
  have hsame := hisolated ⟨some 1, 0⟩ (by decide) 1 rfl (by decide)
  revert hsame
  decide

end DectMesh.Aether
