import DectMesh.Aether.CtlGrammar
import DectMesh.Aether.Fids
import DectMesh.Relay.Tunnel

/-! `aether_conv_transport_connect` against the 9151's `/net/aether`, each of its
RPCs done, refused there, or done with the reply lost. -/
namespace DectMesh.Relay

open DectMesh.Lib DectMesh.Aether

inductive RpcFate where
  | done
  | refused
  | lost
  deriving DecidableEq

def RpcFate.executed (fate : RpcFate) : Bool := fate ≠ .refused

/-- `dropData` and `dropCtl` are the clunks of the earlier conversation, `failData`
and `failCtl` those behind the label `fail`. -/
structure ConnectFates where
  dropData : RpcFate
  dropCtl : RpcFate
  cloneWalk : RpcFate
  cloneOpen : RpcFate
  convRead : RpcFate
  dataWalk : RpcFate
  dataOpen : RpcFate
  ctlWrite : RpcFate
  failData : RpcFate
  failCtl : RpcFate

/-- The carrier's root fid, and the numbers it gives to new fids: the server has
not bound them. -/
structure CarrierFids (s : Server Nat) where
  root : Nat
  ctl : Nat
  data : Nat
  ctl_free : s.fids ctl = none
  data_free : s.fids data = none
  distinct : ctl ≠ data

/-! ## The carrier's RPCs -/

/-- `ninep_client_clunk` of a fid variable that may be `NINEP_NOFID`. -/
def clunkRpc (fate : RpcFate) (fid : Option Nat) (s : Server Nat) : Server Nat :=
  match fid with
  | some number => if fate.executed then (s.clunk number).getD s else s
  | none => s

/-- The server's part of `ninep_client_walk`. -/
def walkExec (fate : RpcFate) (root newfid : Nat) (names : List Name) (s : Server Nat) : Server Nat :=
  if fate.executed then (s.walk root newfid names).getD s else s

def walkOk (fate : RpcFate) (root newfid : Nat) (names : List Name) (s : Server Nat) : Bool :=
  fate = .done && ((walkExec fate root newfid names s).fids newfid).isSome

/-- The fid variable behind a walk. `kept` says whether the client library leaves
the number there when the walk fails. -/
def walkFid (kept ok : Bool) (newfid : Nat) : Option Nat := if ok || kept then some newfid else none

def convNumber (s : Server Nat) (fid : Nat) : Option Slot :=
  match s.fids fid with
  | some (.ctl n) => some n
  | _ => none

def writeCtl (s : Server Nat) (fid : Nat) (buf : List UInt8) : Server Nat × Bool :=
  match convNumber s fid with
  | some n =>
      ({ s with fs := { s.fs with convs := Function.update s.fs.convs n (anetWriteCtl (s.fs.convs n) buf).2 } },
        (anetWriteCtl (s.fs.convs n) buf).1.toBool)
  | none => (s, false)

/-- `"net/aether/%d/data"` from the root of `net/aether` on. -/
def dataPath (n : Slot) : List Name := [(NodeId.dir n).name, (NodeId.data n).name]

/-! ## The call -/

structure Setup where
  server : Server Nat
  ctl : Option Nat
  data : Option Nat

def cloneStage (kept : Bool) (fate : RpcFate) (root ctl : Nat) (s : Server Nat) : Setup × Bool :=
  let ok := walkOk fate root ctl [cloneName] s
  (⟨walkExec fate root ctl [cloneName] s, walkFid kept ok ctl, none⟩, ok)

def numberStage (fates : ConnectFates) (ctl : Nat) (s : Server Nat) : Option Slot :=
  if fates.cloneOpen = .done ∧ fates.convRead = .done then convNumber s ctl else none

def dataStage (kept : Bool) (fate : RpcFate) (root data : Nat) (n : Slot) (st : Setup) : Setup × Bool :=
  let ok := walkOk fate root data (dataPath n) st.server
  ({ st with server := walkExec fate root data (dataPath n) st.server, data := walkFid kept ok data }, ok)

def connectStage (fates : ConnectFates) (ctl : Nat) (peer : Peer) (st : Setup) : Setup × Bool :=
  if fates.dataOpen = .done then
    let written := writeCtl st.server ctl (connectKey ++ peer.text)
    if fates.ctlWrite.executed then
      ({ st with server := written.1 }, fates.ctlWrite = .done && written.2)
    else (st, false)
  else (st, false)

/-- Up to the label `fail`, or to the conversation number. -/
def connectStages (kept : Bool) (fates : ConnectFates) {s : Server Nat} (fids : CarrierFids s) (peer : Peer)
    (server : Server Nat) : Setup × Option Slot :=
  let cloned := cloneStage kept fates.cloneWalk fids.root fids.ctl server
  if cloned.2 then
    match numberStage fates fids.ctl cloned.1.server with
    | some n =>
        let walked := dataStage kept fates.dataWalk fids.root fids.data n cloned.1
        if walked.2 then
          let connected := connectStage fates fids.ctl peer walked.1
          (connected.1, if connected.2 then some n else none)
        else (walked.1, none)
    | none => (cloned.1, none)
  else (cloned.1, none)

def dropStage (fates : ConnectFates) (t : Transport) (s : Server Nat) : Server Nat :=
  if t.connected then
    clunkRpc fates.dropCtl (t.ctlFid.map (·.number)) (clunkRpc fates.dropData (t.dataFid.map (·.number)) s)
  else s

/-- What the label `fail` leaves. -/
def failStage (fates : ConnectFates) (st : Setup) : Server Nat :=
  clunkRpc fates.failCtl st.ctl (clunkRpc fates.failData st.data st.server)

/-- `aether_conv_transport_connect`: whether it returned 0, and what it left. -/
def transportConnect (kept : Bool) (fates : ConnectFates) (session : Nat) {s : Server Nat} (fids : CarrierFids s)
    (peer : Peer) (t : Transport) : Bool × Server Nat × Transport :=
  if t.connected ∧ t.peer = peer then (true, s, t)
  else
    let setup := connectStages kept fates fids peer (dropStage fates t s)
    match setup.2 with
    | some n =>
        (true, setup.1.server,
          ⟨some ⟨fids.ctl, session⟩, some ⟨fids.data, session⟩, some n.val, true, peer⟩)
    | none => (false, failStage fates setup.1, t.disconnect)

/-- The transport is disconnected, and no slot that was allocated since is in use. -/
def LeavesNothing (before after : Server Nat) (t : Transport) : Prop :=
  t.connected = false ∧ t.ctlFid = none ∧ t.dataFid = none ∧
    ∀ n, after.fs.epoch n ≠ before.fs.epoch n → (after.fs.convs n).inUse = false

def Admits (fate : RpcFate) (root : Nat) (s : Server Nat) : Prop :=
  fate ≠ .refused ∧ s.fids root = some .root ∧ ∃ n, (s.fs.convs n).inUse = false

def Allocates (fates : ConnectFates) {s : Server Nat} (fids : CarrierFids s) (t : Transport) : Prop :=
  Admits fates.cloneWalk fids.root (dropStage fates t s)

def CleansUp (kept : Bool) (fates : ConnectFates) : Prop :=
  (fates.cloneWalk = .done ∨ kept = true) ∧ fates.failCtl ≠ .refused

/-! ## What the clunks do -/

theorem anetClunk_epoch {ρ : Type} (node : NodeId) (fs : NetFs ρ) : (anetClunk node fs).epoch = fs.epoch := by
  cases node <;> simp [anetClunk]

/-- A clunk unbinds its fid and begins no generation. -/
theorem clunkRpc_eq (fate : RpcFate) (fid : Option Nat) (s : Server Nat) :
    clunkRpc fate fid s = s ∨ ∃ number node, fid = some number ∧ fate.executed = true ∧
      s.fids number = some node ∧ (clunkRpc fate fid s).fs = anetClunk node s.fs ∧
        (clunkRpc fate fid s).fids = Function.update s.fids number none := by
  cases fid with
  | none => exact .inl rfl
  | some number =>
    by_cases hexec : fate.executed = true
    · cases hnode : s.fids number with
      | none =>
        left
        simp only [clunkRpc, if_pos hexec, Server.clunk, hnode, Option.getD_none]
      | some node =>
        right
        refine ⟨number, node, rfl, hexec, hnode, ?_, ?_⟩ <;>
          simp only [clunkRpc, if_pos hexec, Server.clunk, hnode, Option.getD_some]
    · exact .inl (if_neg hexec)

theorem clunkRpc_epoch (fate : RpcFate) (fid : Option Nat) (s : Server Nat) :
    (clunkRpc fate fid s).fs.epoch = s.fs.epoch := by
  rcases clunkRpc_eq fate fid s with hsame | ⟨number, node, -, -, -, hfs, -⟩
  · rw [hsame]
  · rw [hfs, anetClunk_epoch]

theorem clunkRpc_free (fate : RpcFate) (fid : Option Nat) {s : Server Nat} {other : Nat} (h : s.fids other = none) :
    (clunkRpc fate fid s).fids other = none := by
  rcases clunkRpc_eq fate fid s with hsame | ⟨number, node, -, -, -, -, hfids⟩
  · rwa [hsame]
  · rw [hfids, Function.update_apply]
    split
    · rfl
    · exact h

theorem dropStage_epoch (fates : ConnectFates) (t : Transport) (s : Server Nat) :
    (dropStage fates t s).fs.epoch = s.fs.epoch := by
  unfold dropStage
  split
  · rw [clunkRpc_epoch, clunkRpc_epoch]
  · rfl

theorem dropStage_free (fates : ConnectFates) (t : Transport) {s : Server Nat} {fid : Nat} (h : s.fids fid = none) :
    (dropStage fates t s).fids fid = none := by
  unfold dropStage
  split
  · exact clunkRpc_free _ _ (clunkRpc_free _ _ h)
  · exact h

/-! ## What the walks do -/

theorem NetFs.alloc_none {ρ : Type} {fs : NetFs ρ} (h : fs.alloc = none) (n : Slot) :
    (fs.convs n).inUse = true := by
  have hnone := Option.map_eq_none_iff.mp (Option.map_eq_none_iff.mp h)
  simpa using List.find?_eq_none.mp hnone n (List.mem_finRange n)

theorem anetWalk_clone {ρ : Type} (node : NodeId) (fs : NetFs ρ) :
    (anetWalk node cloneName fs = (none, fs) ∧ ¬ (node = .root ∧ ∃ n, (fs.convs n).inUse = false)) ∨
    node = .root ∧ ∃ n fs', fs.alloc = some (n, fs') ∧ anetWalk node cloneName fs = (some (.ctl n), fs') := by
  cases node with
  | root =>
    cases halloc : fs.alloc with
    | none =>
      refine .inl ⟨by simp [anetWalk, NodeId.isDir, halloc], fun ⟨_, n, hfree⟩ => ?_⟩
      rw [NetFs.alloc_none halloc n] at hfree
      cases hfree
    | some got => exact .inr ⟨rfl, got.1, got.2, rfl, by simp [anetWalk, NodeId.isDir, halloc]⟩
  | dir n =>
    refine .inl ⟨?_, fun h => nomatch h.1⟩
    simp [anetWalk, NodeId.isDir, NetFs.children, NodeId.name, cloneName]
  | _ => exact .inl ⟨anetWalk_file rfl cloneName fs, fun h => nomatch h.1⟩

/-- A walk to `clone` allocates a conversation and gets its ctl, or does nothing. -/
theorem walkExec_clone (fate : RpcFate) (root : Nat) {ctl : Nat} {s : Server Nat} (hfree : s.fids ctl = none) :
    (walkExec fate root ctl [cloneName] s = s ∧ ¬ Admits fate root s) ∨
    Admits fate root s ∧ ∃ n fs', s.fs.alloc = some (n, fs') ∧
      (walkExec fate root ctl [cloneName] s).fs = fs' ∧
        (walkExec fate root ctl [cloneName] s).fids = Function.update s.fids ctl (some (.ctl n)) := by
  unfold walkExec
  by_cases hexec : fate.executed = true
  · rw [if_pos hexec]
    unfold Server.walk
    cases hroot : s.fids root with
    | none =>
      refine .inl ⟨rfl, fun h => ?_⟩
      rw [h.2.1] at hroot
      cases hroot
    | some node =>
      have hnew : ¬ (ctl ≠ root ∧ s.fids ctl ≠ none) := fun h => h.2 hfree
      simp only [if_neg hnew]
      rcases anetWalk_clone node s.fs with ⟨hnone, hnot⟩ | ⟨rfl, n, fs', halloc, hsome⟩
      · refine .inl ⟨?_, fun h => hnot ⟨?_, h.2.2⟩⟩
        · simp only [walkNames, hnone]
          rfl
        · exact Option.some.inj (hroot.symm.trans h.2.1)
      · refine .inr ⟨⟨by simpa [RpcFate.executed] using hexec, hroot, n, (NetFs.alloc_eq halloc).1⟩,
          n, fs', halloc, ?_, ?_⟩ <;> simp only [walkNames, hsome, Option.getD_some]
  · refine .inl ⟨if_neg hexec, fun h => hexec ?_⟩
    simpa [RpcFate.executed] using h.1

theorem anetWalk_other {ρ : Type} {name : Name} (hname : name ≠ cloneName) (node : NodeId) (fs : NetFs ρ) :
    anetWalk node name fs = (none, fs) ∨
      ∃ child, child.name = name ∧ anetWalk node name fs = (some child, fs) := by
  unfold anetWalk
  split
  · exact .inl rfl
  · rw [if_neg fun h => hname h.2]
    cases hfind : (fs.children node).find? fun child => child.name = name with
    | none => exact .inl rfl
    | some child => exact .inr ⟨child, by simpa using List.find?_some hfind, rfl⟩

theorem walkNames_dataPath {ρ : Type} (n : Slot) (node : NodeId) (fs : NetFs ρ) :
    walkNames (dataPath n) node fs = (none, fs) ∨
      ∃ last, (∀ m, last ≠ .ctl m) ∧ walkNames (dataPath n) node fs = (some last, fs) := by
  have hdir : (NodeId.dir n).name ≠ cloneName := by simp [NodeId.name, cloneName]
  have hdata : (NodeId.data n).name ≠ cloneName := by simp [NodeId.name, cloneName]
  rcases anetWalk_other hdir node fs with hnone | ⟨next, -, hnext⟩
  · left
    simp only [dataPath, walkNames, hnone]
  · rcases anetWalk_other hdata next fs with hnone | ⟨last, hlast, hfound⟩
    · left
      simp only [dataPath, walkNames, hnext, hnone]
    · right
      refine ⟨last, ?_, by simp only [dataPath, walkNames, hnext, hfound]⟩
      rintro m rfl
      simp [NodeId.name] at hlast

theorem walkExec_data (fate : RpcFate) (root data : Nat) (n : Slot) (s : Server Nat) :
    (walkExec fate root data (dataPath n) s).fs = s.fs ∧
      ((walkExec fate root data (dataPath n) s).fids = s.fids ∨ ∃ last, (∀ m, last ≠ .ctl m) ∧
        (walkExec fate root data (dataPath n) s).fids = Function.update s.fids data (some last)) := by
  unfold walkExec
  split
  · unfold Server.walk
    cases s.fids root with
    | none => exact ⟨rfl, .inl rfl⟩
    | some node =>
      dsimp only
      split
      · exact ⟨rfl, .inl rfl⟩
      · rcases walkNames_dataPath n node s.fs with hnone | ⟨last, hlast, hsome⟩
        · simp only [hnone, Option.getD_some]
          exact ⟨trivial, .inl trivial⟩
        · simp only [hsome, Option.getD_some]
          exact ⟨trivial, .inr ⟨last, hlast, rfl⟩⟩
  · exact ⟨rfl, .inl rfl⟩

/-! ## The conversation of the call -/

structure Holding (before : Server Nat) (ctl data : Nat) (n : Slot) (s : Server Nat) : Prop where
  fid : s.fids ctl = some (.ctl n)
  begun : s.fs.epoch = Function.update before.fs.epoch n (before.fs.epoch n + 1)
  used : (s.fs.convs n).inUse = true
  other : ∀ m, s.fids data ≠ some (.ctl m)

section

variable {before s : Server Nat} {ctl data : Nat} {n : Slot}

theorem holding_clone {fs' : NetFs (Reader Nat)} (hdata : before.fids data = none) (hne : ctl ≠ data)
    (halloc : before.fs.alloc = some (n, fs')) (hfs : s.fs = fs')
    (hfids : s.fids = Function.update before.fids ctl (some (.ctl n))) : Holding before ctl data n s := by
  obtain ⟨-, hconvs, hepoch⟩ := NetFs.alloc_eq halloc
  subst hfs
  refine ⟨?_, hepoch, ?_, fun m => ?_⟩
  · rw [hfids, Function.update_self]
  · rw [hconvs, Function.update_self]
    rfl
  · rw [hfids, Function.update_of_ne hne.symm, hdata]
    nofun

theorem Holding.dataWalk (h : Holding before ctl data n s) (hne : ctl ≠ data) (fate : RpcFate) (root : Nat)
    (m : Slot) : Holding before ctl data n (walkExec fate root data (dataPath m) s) := by
  obtain ⟨hfs, hfids⟩ := walkExec_data fate root data m s
  refine ⟨?_, by rw [hfs]; exact h.begun, by rw [hfs]; exact h.used, fun k => ?_⟩
  · rcases hfids with hsame | ⟨last, -, hbound⟩
    · rw [hsame]
      exact h.fid
    · rw [hbound, Function.update_of_ne hne]
      exact h.fid
  · rcases hfids with hsame | ⟨last, hlast, hbound⟩
    · rw [hsame]
      exact h.other k
    · rw [hbound, Function.update_self]
      exact fun heq => hlast k (Option.some.inj heq)

theorem anetWriteCtl_inUse {ρ : Type} (c : Conv ρ) (buf : List UInt8) : (anetWriteCtl c buf).2.inUse = c.inUse := by
  unfold anetWriteCtl
  cases hexec : ctlExec c (CtlCmd.ofText (ctlText buf)) with
  | none => rfl
  | some c' => exact (ctlExec_cases hexec).1

theorem Holding.write (h : Holding before ctl data n s) (buf : List UInt8) :
    Holding before ctl data n (writeCtl s ctl buf).1 := by
  have hnumber : convNumber s ctl = some n := by
    unfold convNumber
    rw [h.fid]
  simp only [writeCtl, hnumber]
  refine ⟨h.fid, h.begun, ?_, h.other⟩
  dsimp only
  rw [Function.update_self, anetWriteCtl_inUse]
  exact h.used

theorem Holding.clunkData (h : Holding before ctl data n s) (hne : ctl ≠ data) (fate : RpcFate) {fid : Option Nat}
    (hfid : fid = none ∨ fid = some data) : Holding before ctl data n (clunkRpc fate fid s) := by
  rcases clunkRpc_eq fate fid s with hsame | ⟨number, node, hnumber, -, hnode, hfs, hfids⟩
  · rwa [hsame]
  · have hdata : number = data := by
      rcases hfid with hnone | hsome
      · rw [hnone] at hnumber
        cases hnumber
      · exact Option.some.inj (hnumber.symm.trans hsome)
    subst hdata
    have hclunk : anetClunk node s.fs = s.fs := by
      cases node with
      | ctl m => exact absurd hnode (h.other m)
      | _ => rfl
    rw [hclunk] at hfs
    refine ⟨?_, by rw [hfs]; exact h.begun, by rw [hfs]; exact h.used, fun m => ?_⟩
    · rw [hfids, Function.update_of_ne hne]
      exact h.fid
    · rw [hfids, Function.update_self]
      nofun

theorem Holding.clunkCtl (h : Holding before ctl data n s) (fate : RpcFate) (known : Bool) :
    (((clunkRpc fate (if known then some ctl else none) s).fs.convs n).inUse = false) ↔
      known = true ∧ fate ≠ .refused := by
  cases known with
  | false =>
    refine iff_of_false (fun hfree => ?_) (fun hboth => by cases hboth.1)
    have hused := h.used
    rw [show (s.fs.convs n).inUse = false from hfree] at hused
    cases hused
  | true =>
    by_cases hrefused : fate = .refused
    · refine iff_of_false (fun hfree => ?_) fun hboth => hboth.2 hrefused
      have hused := h.used
      rw [hrefused] at hfree
      rw [show (s.fs.convs n).inUse = false from hfree] at hused
      cases hused
    · refine iff_of_true ?_ ⟨rfl, hrefused⟩
      have hexec : fate.executed = true := by simpa [RpcFate.executed] using hrefused
      simp only [clunkRpc, if_pos, hexec, Server.clunk, h.fid, Option.getD_some, anetClunk]
      rw [NetFs.free_convs]
      exact convFree_self _ _

theorem Holding.stages {kept : Bool} {fates : ConnectFates} {server : Server Nat} {fids : CarrierFids server}
    {peer : Peer} (h : Holding before fids.ctl fids.data n
      (cloneStage kept fates.cloneWalk fids.root fids.ctl s).1.server) :
    Holding before fids.ctl fids.data n (connectStages kept fates fids peer s).1.server ∧
      (connectStages kept fates fids peer s).1.ctl = (cloneStage kept fates.cloneWalk fids.root fids.ctl s).1.ctl ∧
      ((connectStages kept fates fids peer s).1.data = none ∨
        (connectStages kept fates fids peer s).1.data = some fids.data) := by
  have hwalked : ∀ m, Holding before fids.ctl fids.data n (dataStage kept fates.dataWalk fids.root fids.data m
      (cloneStage kept fates.cloneWalk fids.root fids.ctl s).1).1.server :=
    fun m => h.dataWalk fids.distinct fates.dataWalk fids.root m
  have hdata : ∀ ok, walkFid kept ok fids.data = none ∨ walkFid kept ok fids.data = some fids.data := by
    intro ok
    unfold walkFid
    split
    · exact .inr rfl
    · exact .inl rfl
  unfold connectStages
  dsimp only
  split
  · split
    · rename_i m hm
      split
      · unfold connectStage
        split
        · split
          · exact ⟨(hwalked m).write _, rfl, hdata _⟩
          · exact ⟨hwalked m, rfl, hdata _⟩
        · exact ⟨hwalked m, rfl, hdata _⟩
      · exact ⟨hwalked m, rfl, hdata _⟩
    · exact ⟨h, rfl, .inl rfl⟩
  · exact ⟨h, rfl, .inl rfl⟩

end

/-! ## A failed call -/

section

variable {kept : Bool} {fates : ConnectFates} {session : Nat} {s : Server Nat} {fids : CarrierFids s} {peer : Peer}
  {t : Transport}

/-- Either nothing is allocated, and nothing but the earlier conversation is
touched, or the call holds what it allocated. -/
theorem allocates_cases : (¬ Allocates fates fids t ∧
      (cloneStage kept fates.cloneWalk fids.root fids.ctl (dropStage fates t s)) =
        (⟨dropStage fates t s, walkFid kept false fids.ctl, none⟩, false)) ∨
    Allocates fates fids t ∧ (cloneStage kept fates.cloneWalk fids.root fids.ctl (dropStage fates t s)).1.ctl =
      (if fates.cloneWalk = .done ∨ kept = true then some fids.ctl else none) ∧
      ∃ n, Holding (dropStage fates t s) fids.ctl fids.data n
        (cloneStage kept fates.cloneWalk fids.root fids.ctl (dropStage fates t s)).1.server := by
  have hctl := dropStage_free fates t fids.ctl_free
  have hdata := dropStage_free fates t fids.data_free
  rcases walkExec_clone fates.cloneWalk fids.root hctl with ⟨hsame, hnot⟩ | ⟨hyes, n, fs', halloc, hfs, hfids⟩
  · refine .inl ⟨hnot, ?_⟩
    simp only [cloneStage, walkOk, hsame, hctl, Option.isSome_none, Bool.and_false]
  · right
    have hbound : ((walkExec fates.cloneWalk fids.root fids.ctl [cloneName] (dropStage fates t s)).fids
        fids.ctl).isSome = true := by rw [hfids, Function.update_self]; rfl
    refine ⟨hyes, ?_, n, holding_clone hdata fids.distinct halloc hfs hfids⟩
    simp only [cloneStage, walkOk, walkFid, hbound, Bool.and_true, Bool.or_eq_true, decide_eq_true_eq]

/-- What a failed call leaves, in terms of what the server did for it. -/
theorem failStage_leaves :
    LeavesNothing s (failStage fates (connectStages kept fates fids peer (dropStage fates t s)).1)
      t.disconnect ↔ (Allocates fates fids t → CleansUp kept fates) := by
  rcases @allocates_cases kept fates s fids t with
    ⟨hnot, hclone⟩ | ⟨hyes, hctl, n, hholding⟩
  · have hepoch : (failStage fates (connectStages kept fates fids peer (dropStage fates t s)).1).fs.epoch =
        s.fs.epoch := by
      simp only [connectStages, hclone, Bool.false_eq_true, if_false]
      rw [failStage, clunkRpc_epoch, clunkRpc_epoch, dropStage_epoch]
    exact iff_of_true ⟨rfl, rfl, rfl, fun m hm => absurd (congrFun hepoch m) hm⟩ fun h => absurd h hnot
  · obtain ⟨hstages, hfid, hdata⟩ := @Holding.stages _ _ _ kept fates s fids peer hholding
    have hclunked := hstages.clunkData fids.distinct fates.failData hdata
    have hends := hclunked.clunkCtl fates.failCtl (decide (fates.cloneWalk = .done ∨ kept = true))
    have hepoch : (failStage fates (connectStages kept fates fids peer (dropStage fates t s)).1).fs.epoch =
        Function.update s.fs.epoch n (s.fs.epoch n + 1) := by
      rw [failStage, clunkRpc_epoch, hclunked.begun, dropStage_epoch]
    simp only [decide_eq_true_eq] at hends
    rw [← hctl, ← hfid] at hends
    rw [forall_prop_of_true hyes, CleansUp, ← hends]
    constructor
    · rintro ⟨-, -, -, hnothing⟩
      refine hnothing n ?_
      rw [hepoch, Function.update_self]
      exact Nat.succ_ne_self _
    · refine fun hfree => ⟨rfl, rfl, rfl, fun m hm => ?_⟩
      have hmn : m = n := by
        by_contra hne
        exact hm (by rw [hepoch, Function.update_of_ne hne])
      rwa [hmn]

/-- A failed call leaves nothing behind unless the 9151 allocated a conversation
for it that `fail` does not clunk, or whose clunk is not carried out. -/
theorem failed_connect_leaves_nothing_iff (kept : Bool) (fates : ConnectFates) (session : Nat) {s : Server Nat}
    (fids : CarrierFids s) (peer : Peer) (t : Transport)
    (hfail : (transportConnect kept fates session fids peer t).1 = false) :
    LeavesNothing s (transportConnect kept fates session fids peer t).2.1
        (transportConnect kept fates session fids peer t).2.2 ↔
      (Allocates fates fids t → CleansUp kept fates) := by
  unfold transportConnect at hfail ⊢
  dsimp only at hfail ⊢
  by_cases hsame : t.connected = true ∧ t.peer = peer
  · rw [if_pos hsame] at hfail
    cases hfail
  · rw [if_neg hsame] at hfail ⊢
    cases hconv : (connectStages kept fates fids peer (dropStage fates t s)).2 with
    | some n =>
      rw [hconv] at hfail
      cases hfail
    | none => exact failStage_leaves

end

def attachedServer : Server Nat where
  fs := .init
  fids := Function.update (fun _ => none) 0 (some .root)
  owner := fun _ => none

def attachedFids : CarrierFids attachedServer where
  root := 0
  ctl := 1
  data := 2
  ctl_free := rfl
  data_free := rfl
  distinct := by decide

def allDone : ConnectFates := ⟨.done, .done, .done, .done, .done, .done, .done, .done, .done, .done⟩

abbrev firstConnect (kept : Bool) (fates : ConnectFates) : Bool × Server Nat × Transport :=
  transportConnect kept fates 0 attachedFids .unset Tunnel.init.transport

/-- A refused `connect` is cleaned up after. -/
theorem failed_connect_leaves_nothing_iff_refused :
    LeavesNothing attachedServer (firstConnect false { allDone with ctlWrite := .refused }).2.1
      (firstConnect false { allDone with ctlWrite := .refused }).2.2 :=
  (failed_connect_leaves_nothing_iff false { allDone with ctlWrite := .refused } 0 attachedFids .unset
    Tunnel.init.transport (by decide +kernel)).mpr fun _ => ⟨.inl rfl, by decide⟩

def lostWalk : ConnectFates := { allDone with cloneWalk := .lost }

def deafAfterWalk : ConnectFates :=
  ⟨.done, .done, .done, .refused, .refused, .refused, .refused, .refused, .refused, .refused⟩

theorem not_leavesNothing {before after : Server Nat} {t : Transport} {n : Slot}
    (hepoch : after.fs.epoch n ≠ before.fs.epoch n) (hused : (after.fs.convs n).inUse = true) :
    ¬ LeavesNothing before after t := by
  rintro ⟨-, -, -, hnothing⟩
  rw [hnothing n hepoch] at hused
  cases hused

/-- A lost reply leaves a conversation if the client library forgets the fid, and
a link that goes down behind the walk leaves one in any case. -/
theorem failed_connect_leaves_conversation :
    ((firstConnect false lostWalk).1 = false ∧
      ¬ LeavesNothing attachedServer (firstConnect false lostWalk).2.1 (firstConnect false lostWalk).2.2) ∧
    (firstConnect true deafAfterWalk).1 = false ∧
      ¬ LeavesNothing attachedServer (firstConnect true deafAfterWalk).2.1
        (firstConnect true deafAfterWalk).2.2 := by
  have hlost : ((firstConnect false lostWalk).2.1.fs.convs 0).inUse = true := by decide +kernel
  have hdeaf : ((firstConnect true deafAfterWalk).2.1.fs.convs 0).inUse = true := by decide +kernel
  exact ⟨⟨by decide +kernel, @not_leavesNothing _ _ _ 0 (by decide +kernel) hlost⟩,
    by decide +kernel, @not_leavesNothing _ _ _ 0 (by decide +kernel) hdeaf⟩

end DectMesh.Relay
