import DectMesh.Aether.Conversation

/-! The `/net/aether` tree: its nodes, their children and `anet_walk`. The nodes
of a slot are static and are reused by every conversation in it. -/
namespace DectMesh.Aether

open DectMesh.Lib

inductive NodeId where
  | root
  | clone
  | topstatus
  | addr
  | stats
  | maxmsg
  | prove
  | dir (n : Slot)
  | ctl (n : Slot)
  | data (n : Slot)
  | localAddr (n : Slot)
  | remote (n : Slot)
  | status (n : Slot)
  deriving DecidableEq

abbrev Name := List UInt8

def cloneName : Name := [0x63, 0x6c, 0x6f, 0x6e, 0x65]

def NodeId.name : NodeId → Name
  | .root => [0x2f]
  | .clone => cloneName
  | .topstatus | .status _ => [0x73, 0x74, 0x61, 0x74, 0x75, 0x73]
  | .addr => [0x61, 0x64, 0x64, 0x72]
  | .stats => [0x73, 0x74, 0x61, 0x74, 0x73]
  | .maxmsg => [0x6d, 0x61, 0x78, 0x6d, 0x73, 0x67]
  | .prove => [0x70, 0x72, 0x6f, 0x76, 0x65]
  | .dir n => [0x30 + UInt8.ofNat n]
  | .ctl _ => [0x63, 0x74, 0x6c]
  | .data _ => [0x64, 0x61, 0x74, 0x61]
  | .localAddr _ => [0x6c, 0x6f, 0x63, 0x61, 0x6c]
  | .remote _ => [0x72, 0x65, 0x6d, 0x6f, 0x74, 0x65]

def NodeId.convFile : NodeId → Option Slot
  | .ctl n | .data n | .localAddr n | .remote n | .status n => some n
  | _ => none

def NodeId.isDir : NodeId → Bool
  | .root | .dir _ => true
  | _ => false

/-- The slots and the conversation directories linked under the root, newest
first. `epoch` is history: how often each slot has been allocated. -/
structure NetFs (ρ : Type) where
  convs : Convs ρ
  linked : List Slot
  epoch : Slot → Nat

variable {ρ : Type}

def NetFs.init : NetFs ρ := ⟨fun _ => .unused, [], fun _ => 0⟩

/-- `conv_alloc` -/
def NetFs.alloc (fs : NetFs ρ) : Option (Slot × NetFs ρ) :=
  (convAlloc fs.convs).map fun (n, convs) =>
    (n, ⟨convs, n :: fs.linked, Function.update fs.epoch n (fs.epoch n + 1)⟩)

/-- `conv_free` -/
def NetFs.free (n : Slot) (fs : NetFs ρ) : NetFs ρ :=
  if (fs.convs n).inUse then { fs with convs := convFree n fs.convs, linked := fs.linked.erase n } else fs

/-- Child lists, last linked first. -/
def NetFs.children (fs : NetFs ρ) : NodeId → List NodeId
  | .root => fs.linked.map .dir ++ [.prove, .maxmsg, .stats, .addr, .topstatus, .clone]
  | .dir n => [.status n, .remote n, .localAddr n, .data n, .ctl n]
  | _ => []

/-- Walking `clone` in the root allocates a conversation and yields its ctl. -/
def anetWalk (parent : NodeId) (name : Name) (fs : NetFs ρ) : Option NodeId × NetFs ρ :=
  if parent.isDir = false then (none, fs)
  else if parent = .root ∧ name = cloneName then
    match fs.alloc with
    | some (n, fs) => (some (.ctl n), fs)
    | none => (none, fs)
  else ((fs.children parent).find? fun child => child.name = name, fs)

def walkNames : List Name → NodeId → NetFs ρ → Option NodeId × NetFs ρ
  | [], node, fs => (some node, fs)
  | name :: rest, node, fs =>
      match anetWalk node name fs with
      | (some next, fs) => walkNames rest next fs
      | (none, fs) => (none, fs)

/-! ## What a walk does to the slots -/

theorem NetFs.alloc_eq {fs fs' : NetFs ρ} {n : Slot} (h : fs.alloc = some (n, fs')) :
    (fs.convs n).inUse = false ∧ fs'.convs = Function.update fs.convs n .fresh ∧
      fs'.epoch = Function.update fs.epoch n (fs.epoch n + 1) := by
  obtain ⟨⟨m, convs⟩, halloc, heq⟩ := Option.map_eq_some_iff.mp h
  obtain ⟨k, hk, hconvs⟩ := Option.map_eq_some_iff.mp halloc
  cases heq
  cases hconvs
  exact ⟨freeSlot_notInUse hk, rfl, rfl⟩

theorem anetWalk_file {node : NodeId} (hfile : node.isDir = false) (name : Name) (fs : NetFs ρ) :
    anetWalk node name fs = (none, fs) := by
  unfold anetWalk
  rw [if_pos hfile]

theorem anetWalk_fs (parent : NodeId) (name : Name) (fs : NetFs ρ) :
    (anetWalk parent name fs).2 = fs ∨
      ∃ n fs', fs.alloc = some (n, fs') ∧ anetWalk parent name fs = (some (.ctl n), fs') := by
  unfold anetWalk
  split
  · exact .inl rfl
  · split
    · cases halloc : fs.alloc with
      | none => exact .inl rfl
      | some got =>
        obtain ⟨n, fs'⟩ := got
        exact .inr ⟨n, fs', rfl, rfl⟩
    · exact .inl rfl

theorem walkNames_fs (names : List Name) (node : NodeId) (fs : NetFs ρ) :
    (walkNames names node fs).2 = fs ∨
      ∃ n fs', fs.alloc = some (n, fs') ∧ (walkNames names node fs).2 = fs' ∧
        ∀ last, (walkNames names node fs).1 = some last → last = .ctl n := by
  induction names generalizing node with
  | nil => exact .inl rfl
  | cons name rest ih =>
    unfold walkNames
    rcases anetWalk_fs node name fs with hsame | ⟨n, fs', halloc, heq⟩
    · cases hwalk : anetWalk node name fs with
      | mk found next =>
        rw [hwalk] at hsame
        cases hsame
        cases found with
        | none => exact .inl rfl
        | some child => exact ih child
    · rw [heq]
      refine .inr ⟨n, fs', halloc, ?_⟩
      cases rest with
      | nil => exact ⟨rfl, fun last hlast => by cases hlast; rfl⟩
      | cons name rest =>
        simp only [walkNames, anetWalk_file (show (NodeId.ctl n).isDir = false from rfl)]
        exact ⟨trivial, fun last hlast => nomatch hlast⟩

end DectMesh.Aether
