import DectMesh.Aether.Namespace
import DectMesh.Lib.Run

/-! The fids of all clients on the tree. `F` names them, so a client and its
fid number together. A walk binds its new fid only when every name resolved,
and `anet_clunk` ends the conversation of a ctl node. -/
namespace DectMesh.Aether

open DectMesh.Lib

variable {F : Type} [DecidableEq F]

abbrev Reader (F : Type) := F × Option Nat

/-- The tree and the fid table. `owner` is history: the generation of the slot
to which a fid's node belonged when the fid was obtained, if it was in use. -/
structure Server (F : Type) where
  fs : NetFs (Reader F)
  fids : F → Option NodeId
  owner : F → Option Nat

def Server.init : Server F := ⟨.init, fun _ => none, fun _ => none⟩

def NetFs.generation {ρ : Type} (fs : NetFs ρ) (node : NodeId) : Option Nat :=
  match node.convFile with
  | some n => if (fs.convs n).inUse then some (fs.epoch n) else none
  | none => none

inductive NameEvent (F : Type) where
  | attach (fid : F)
  | walk (fid newfid : F) (names : List Name)
  | clunk (fid : F)

def Server.attach (s : Server F) (fid : F) : Option (Server F) :=
  if s.fids fid = none then
    some { s with
      fids := Function.update s.fids fid (some .root), owner := Function.update s.owner fid none }
  else none

/-- Without names the new fid is a copy; with names it gets what they lead to.
What a failed walk has allocated stays allocated. -/
def Server.walk (s : Server F) (fid newfid : F) (names : List Name) : Option (Server F) :=
  match s.fids fid with
  | none => none
  | some node =>
      if newfid ≠ fid ∧ s.fids newfid ≠ none then none
      else
        match walkNames names node s.fs with
        | (none, fs) => some { s with fs := fs }
        | (some last, fs) => some
            { fs := fs
              fids := Function.update s.fids newfid (some last)
              owner := Function.update s.owner newfid
                (if names = [] then s.owner fid else fs.generation last) }

def anetClunk {ρ : Type} (node : NodeId) (fs : NetFs ρ) : NetFs ρ :=
  match node with
  | .ctl n => fs.free n
  | _ => fs

def Server.clunk (s : Server F) (fid : F) : Option (Server F) :=
  match s.fids fid with
  | none => none
  | some node => some { s with fs := anetClunk node s.fs, fids := Function.update s.fids fid none }

def Server.nameStep (s : Server F) : NameEvent F → Option (Server F)
  | .attach fid => s.attach fid
  | .walk fid newfid names => s.walk fid newfid names
  | .clunk fid => s.clunk fid

/-! ## What one request does -/

theorem NetFs.free_convs {ρ : Type} (fs : NetFs ρ) (n : Slot) : (fs.free n).convs = convFree n fs.convs := by
  unfold NetFs.free
  split
  · rfl
  · rename_i hfree
    rw [convFree, if_neg hfree]

@[simp] theorem NetFs.free_epoch {ρ : Type} (fs : NetFs ρ) (n : Slot) : (fs.free n).epoch = fs.epoch := by
  unfold NetFs.free
  split <;> rfl

theorem convFree_other {ρ : Type} {convs : Convs ρ} {m n : Slot} (h : m ≠ n) :
    convFree n convs m = convs m := by
  unfold convFree
  split
  · rw [Function.update_of_ne h]
  · rfl

theorem convFree_self {ρ : Type} (convs : Convs ρ) (n : Slot) : (convFree n convs n).inUse = false := by
  unfold convFree
  split
  · rw [Function.update_self]
  · rename_i hfree
    simpa using hfree

theorem Server.attach_eq {s s' : Server F} {fid : F} (h : s.attach fid = some s') :
    s.fids fid = none ∧ s'.fs = s.fs ∧ s'.fids = Function.update s.fids fid (some .root) ∧
      s'.owner = Function.update s.owner fid none := by
  unfold Server.attach at h
  split at h
  · rename_i hnew
    cases h
    exact ⟨hnew, rfl, rfl, rfl⟩
  · cases h

/-- A walk leaves the slots alone or allocates one of them; its new fid, if it
gets one, is a copy or stands on the node at the end of the names. -/
theorem Server.walk_eq {s s' : Server F} {fid newfid : F} {names : List Name}
    (h : s.walk fid newfid names = some s') :
    (s'.fs = s.fs ∨ ∃ n, s.fs.alloc = some (n, s'.fs)) ∧
      ((s'.fids = s.fids ∧ s'.owner = s.owner) ∨
        ∃ last, s'.fids = Function.update s.fids newfid (some last) ∧
          (s'.owner = Function.update s.owner newfid (s'.fs.generation last) ∨
            s'.fs = s.fs ∧ s.fids fid = some last ∧
              s'.owner = Function.update s.owner newfid (s.owner fid))) := by
  unfold Server.walk at h
  split at h
  · cases h
  · rename_i node hnode
    split at h
    · cases h
    · have hwalk := walkNames_fs names node s.fs
      have hfs : ∀ found fs, walkNames names node s.fs = (found, fs) →
          fs = s.fs ∨ ∃ n, s.fs.alloc = some (n, fs) := by
        intro found fs heq
        rw [heq] at hwalk
        rcases hwalk with hsame | ⟨n, fs', halloc, rfl, -⟩
        · exact .inl hsame
        · exact .inr ⟨n, halloc⟩
      split at h
      · rename_i fs heq
        cases h
        exact ⟨hfs none fs heq, .inl ⟨rfl, rfl⟩⟩
      · rename_i last fs heq
        cases h
        refine ⟨hfs (some last) fs heq, .inr ⟨last, rfl, ?_⟩⟩
        by_cases hnames : names = []
        · subst hnames
          cases heq
          exact .inr ⟨rfl, hnode, by simp⟩
        · exact .inl (by simp [hnames])

theorem Server.clunk_eq {s s' : Server F} {fid : F} (h : s.clunk fid = some s') :
    ∃ node, s.fids fid = some node ∧ s'.fs = anetClunk node s.fs ∧
      s'.fids = Function.update s.fids fid none ∧ s'.owner = s.owner := by
  unfold Server.clunk at h
  split at h
  · cases h
  · rename_i node hnode
    cases h
    exact ⟨node, hnode, rfl, rfl, rfl⟩

end DectMesh.Aether
