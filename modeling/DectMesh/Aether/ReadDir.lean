import DectMesh.Aether.NodeTree
import DectMesh.Lib.Paging
import DectMesh.Lib.Wire

/-! A directory of `/net/aether` read in pages: `read_dir` goes along the child
list anew for every read. -/
namespace DectMesh.Aether

open DectMesh.Lib

/-- `ninep_write_stat` into a buffer of the size, or its error. -/
abbrev WriteStat := Nat → FsNode → Except Int (List UInt8)

def putDirent (writeStat : WriteStat) (cap : Nat) (child : FsNode) : Except Int (List UInt8) := writeStat cap child

/-- The loop of `read_dir` from a child on, `pos` bytes into the directory and
with `out` in the caller's buffer. The scratch buffer has 128 bytes. -/
def readDirFrom (writeStat : WriteStat) (t : NodeTree) (offset count : Nat) :
    Nat → Option NodeId → Nat → List UInt8 → Option (Except Int (List UInt8))
  | 0, _, _, _ => none
  | _ + 1, none, _, out => some (.ok out)
  | fuel + 1, some child, pos, out =>
      match putDirent writeStat 128 (t.nodes child) with
      | .error e => some (.error e)
      | .ok entry =>
          if offset ≤ pos then
            if count < out.length + entry.length then some (.ok out)
            else readDirFrom writeStat t offset count fuel (t.links.next child) (pos + entry.length) (out ++ entry)
          else readDirFrom writeStat t offset count fuel (t.links.next child) (pos + entry.length) out

def readDir (writeStat : WriteStat) (t : NodeTree) (fuel : Nat) (dir : NodeId) (offset count : Nat) :
    Option (Except Int (List UInt8)) :=
  readDirFrom writeStat t offset count fuel (t.links.children dir) 0 []

/-- A client's listing from offset 0: every read goes on where the last one
ended, until one returns 0. An error ends it without a result. -/
def listDir (writeStat : WriteStat) (t : NodeTree) (fuel : Nat) (dir : NodeId) (counts : Nat → Nat) :
    Option (List (List UInt8)) :=
  listing (fun offset count => (readDir writeStat t fuel dir offset count).bind Except.toOption) counts fuel 0 0

variable {writeStat : WriteStat} {t : NodeTree} {record : NodeId → List UInt8} {children : List NodeId}

/-- Along a child list whose entries can be written, `read_dir` returns a page
of their records. -/
theorem readDirFrom_chain {offset count fuel pos : Nat} {out : List UInt8} {child : Option NodeId}
    (hchain : Chain t.links.next child children) (hfuel : children.length < fuel)
    (hstat : ∀ child ∈ children, writeStat 128 (t.nodes child) = .ok (record child)) :
    readDirFrom writeStat t offset count fuel child pos out =
      some (.ok (recordPage record offset count pos out children)) := by
  induction children generalizing fuel pos out child with
  | nil =>
    obtain ⟨fuel, rfl⟩ := Nat.exists_eq_succ_of_ne_zero (Nat.ne_of_gt hfuel)
    rw [show child = none from hchain]
    rfl
  | cons first rest ih =>
    obtain ⟨fuel, rfl⟩ := Nat.exists_eq_succ_of_ne_zero (Nat.ne_of_gt (Nat.zero_lt_of_lt hfuel))
    have hfirst : putDirent writeStat 128 (t.nodes first) = .ok (record first) := hstat first List.mem_cons_self
    have hrest : ∀ child ∈ rest, writeStat 128 (t.nodes child) = .ok (record child) :=
      fun child hchild => hstat child (List.mem_cons_of_mem first hchild)
    have hnext := fun pos out => @ih fuel pos out (t.links.next first) hchain.2 (Nat.lt_of_succ_lt_succ hfuel) hrest
    rw [hchain.1, readDirFrom, hfirst, recordPage]
    simp only [hnext]
    split
    · split <;> rfl
    · rfl

/-- While the child list stays as it is, and every read has room for any entry,
a listing comes to its end and has the records of all children, each whole and
once, in the order of the list. -/
theorem dir_listed {dir : NodeId} (hlists : t.links.Lists dir children)
    (hstat : ∀ child ∈ children, writeStat 128 (t.nodes child) = .ok (record child)) {counts : Nat → Nat}
    (hcounts : ∀ k, ∀ child ∈ children, (record child).length ≤ counts k) {fuel : Nat}
    (hfuel : children.length < fuel) :
    ∃ groups : List (List NodeId), groups.flatten = children ∧
      listDir writeStat t fuel dir counts = some (groups.map fun group => group.flatMap record) := by
  obtain ⟨groups, hgroups, hlisting⟩ := listing_complete hcounts hfuel
  refine ⟨groups, hgroups, ?_⟩
  have hread : (fun offset count => (readDir writeStat t fuel dir offset count).bind Except.toOption) =
      fun offset count => some (recordPage record offset count 0 [] children) := by
    funext offset count
    rw [readDir, readDirFrom_chain hlists hfuel hstat]
    rfl
  rw [listDir, hread]
  exact hlisting

/-- A 9P directory entry without owners: its size, type, device, qid, mode, times,
length and name. -/
def statEntry (node : FsNode) : List UInt8 :=
  let entry := leBytes 6 0 ++ [if node.isDir then 0x80 else 0] ++ leBytes 4 0 ++ leBytes 8 node.qidPath ++
    leBytes 4 (if node.isDir then 0x800001ed else 0x1b6) ++ leBytes 16 0 ++
    leBytes 2 node.name.length ++ node.name ++ leBytes 6 0
  leBytes 2 entry.length ++ entry

def writeEntry : WriteStat := fun cap node =>
  if (statEntry node).length ≤ cap then .ok (statEntry node) else .error (-12)

/-- The six files of an empty node, in pages of one entry and of three. -/
theorem root_listed :
    ∃ groups : List (List NodeId), groups.flatten = [.prove, .maxmsg, .stats, .addr, .topstatus, .clone] ∧
      listDir writeEntry (NodeFs.init : NodeFs Unit).tree 7 .root (fun k => if k % 2 = 0 then 64 else 200) =
        some (groups.map fun group =>
          group.flatMap fun child => statEntry ((NodeFs.init : NodeFs Unit).tree.nodes child)) := by
  have hlengths : ∀ child ∈ (NodeFs.init : NodeFs Unit).fs.children .root,
      (statEntry ((NodeFs.init : NodeFs Unit).tree.nodes child)).length ≤ 64 := by decide +kernel
  refine dir_listed (inv_init.lists .root nofun) (fun child hchild => if_pos ?_) (fun k child hchild => ?_) (by decide)
  · exact (hlengths child hchild).trans (by decide)
  · have hroom : 64 ≤ if k % 2 = 0 then 64 else 200 := by split <;> decide
    exact (hlengths child hchild).trans hroom

end DectMesh.Aether
