import DectMesh.Aether.Namespace
import DectMesh.Lib.Run
import DectMesh.Lib.SiblingList
import Mathlib.Data.List.Find

/-! The nodes of `/net/aether` and their sibling pointers: what `node_init`,
`link_child` and `unlink_child` make of them as conversations come and go. -/
namespace DectMesh.Aether

open DectMesh.Lib

inductive NodeKind where
  | root
  | clone
  | topstatus
  | addr
  | stats
  | maxmsg
  | convdir
  | ctl
  | data
  | localAddr
  | remote
  | cstatus
  | prove
  deriving DecidableEq

def NodeId.kind : NodeId → NodeKind
  | .root => .root
  | .clone => .clone
  | .topstatus => .topstatus
  | .addr => .addr
  | .stats => .stats
  | .maxmsg => .maxmsg
  | .prove => .prove
  | .dir _ => .convdir
  | .ctl _ => .ctl
  | .data _ => .data
  | .localAddr _ => .localAddr
  | .remote _ => .remote
  | .status _ => .cstatus

def NodeId.slot : NodeId → Option Slot
  | .dir n => some n
  | id => id.convFile

/-- `struct ninep_fs_node` without its pointers, and its `struct anode`. -/
structure FsNode where
  name : Name
  isDir : Bool
  qidPath : Nat
  kind : NodeKind
  conv : Option Slot
  deriving DecidableEq

def NodeId.node (id : NodeId) (qidPath : Nat) : FsNode := ⟨id.name, id.isDir, qidPath, id.kind, id.slot⟩

/-- The nodes, their pointers and `next_qid`, a 32-bit counter. `inits` and `made`
are history: how many nodes have been initialised, and how many when a node
last was. -/
structure NodeTree where
  nodes : NodeId → FsNode
  links : Siblings NodeId
  nextQid : Nat
  inits : Nat
  made : NodeId → Nat

def NodeTree.blank : NodeTree := ⟨fun _ => ⟨[], false, 0, .root, none⟩, .bare, 1, 0, fun _ => 0⟩

def nodeInit (t : NodeTree) (id : NodeId) : NodeTree where
  nodes := Function.update t.nodes id (id.node t.nextQid)
  links := t.links.clear id
  nextQid := (t.nextQid + 1) % 4294967296
  inits := t.inits + 1
  made := Function.update t.made id (t.inits + 1)

def linkChild (parent : NodeId) (t : NodeTree) (child : NodeId) : NodeTree :=
  { t with links := t.links.link parent child }

/-- There are no more nodes than these, so no list is longer. -/
def nodeCount : Nat := 7 + 6 * maxConns

def unlinkChild (parent child : NodeId) (t : NodeTree) : Option NodeTree :=
  (t.links.unlink nodeCount parent child).map fun links => { t with links := links }

/-- The files under the root, as `aether_net_init` links them. -/
def staticNodes : List NodeId := [.clone, .topstatus, .addr, .stats, .maxmsg, .prove]

def convFiles (n : Slot) : List NodeId := [.ctl n, .data n, .localAddr n, .remote n, .status n]

def convBuildNodes (n : Slot) (t : NodeTree) : NodeTree :=
  let t := (.dir n :: convFiles n).foldl nodeInit t
  let t := (convFiles n).foldl (linkChild (.dir n)) t
  linkChild .root t (.dir n)

structure NodeFs (ρ : Type) where
  fs : NetFs ρ
  tree : NodeTree

variable {ρ : Type}

/-- `aether_net_init` -/
def NodeFs.init : NodeFs ρ where
  fs := .init
  tree := staticNodes.foldl (linkChild .root) ((.root :: staticNodes).foldl nodeInit .blank)

def NodeFs.convAlloc (s : NodeFs ρ) : Option (Slot × NodeFs ρ) :=
  s.fs.alloc.map fun (n, fs) => (n, ⟨fs, convBuildNodes n s.tree⟩)

def NodeFs.convFree (n : Slot) (s : NodeFs ρ) : Option (NodeFs ρ) :=
  if (s.fs.convs n).inUse then
    (unlinkChild .root (.dir n) s.tree).map fun tree => ⟨s.fs.free n, tree⟩
  else some s

def NodeFs.anetWalk (parent : NodeId) (name : Name) (s : NodeFs ρ) : Option (Option NodeId × NodeFs ρ) :=
  if (s.tree.nodes parent).isDir = false then some (none, s)
  else if (s.tree.nodes parent).kind = .root ∧ name = cloneName then
    match s.convAlloc with
    | some (n, s) => some (some (.ctl n), s)
    | none => some (none, s)
  else
    (s.tree.links.findFrom (fun child => (s.tree.nodes child).name = name) nodeCount (s.tree.links.children parent)).map
      fun found => (found, s)

inductive NodeEvent where
  | alloc
  | free (n : Slot)

def NodeFs.step (s : NodeFs ρ) : NodeEvent → Option (NodeFs ρ)
  | .alloc => some (s.convAlloc.elim s Prod.snd)
  | .free n => s.convFree n

/-! ## What the tree has to be -/

def NodeTree.Listed (t : NodeTree) (dir child : NodeId) : Prop := ∃ xs, t.links.Lists dir xs ∧ child ∈ xs

inductive NodeTree.Reachable (t : NodeTree) : NodeId → Prop
  | root : t.Reachable .root
  | child {dir child : NodeId} : t.Reachable dir → t.Listed dir child → t.Reachable child

structure NodeFs.Sound (s : NodeFs ρ) : Prop where
  root : ∃ xs, s.tree.links.Lists .root xs ∧ xs.Nodup ∧
    ∀ id, id ∈ xs ↔ id ∈ staticNodes ∨ ∃ n, id = .dir n ∧ (s.fs.convs n).inUse = true
  conv : ∀ n, (s.fs.convs n).inUse = true →
    ∃ xs, s.tree.links.Lists (.dir n) xs ∧ xs.Nodup ∧ ∀ id, id ∈ xs ↔ id ∈ convFiles n
  parents : ∀ dir child, s.tree.Reachable dir → s.tree.Listed dir child → s.tree.links.parent child = some dir
  names : ∀ dir a b, s.tree.Reachable dir → s.tree.Listed dir a → s.tree.Listed dir b →
    (s.tree.nodes a).name = (s.tree.nodes b).name → a = b
  walk : ∀ dir child, s.tree.Reachable dir → s.tree.Listed dir child → ¬ (dir = .root ∧ child = .clone) →
    s.anetWalk dir (s.tree.nodes child).name = some (some child, s)
  walkClone : s.anetWalk .root cloneName = some (s.convAlloc.elim (none, s) fun (n, s) => (some (.ctl n), s))
  walkNone : ∀ dir name, s.tree.Reachable dir → (∀ child, s.tree.Listed dir child → (s.tree.nodes child).name ≠ name) →
    s.anetWalk dir name = some (none, s)
  qids : s.tree.inits < 4294967295 → ∀ a b, s.tree.Reachable a → s.tree.Reachable b →
    (s.tree.nodes a).qidPath = (s.tree.nodes b).qidPath → a = b

/-! ## Numbering the nodes -/

/-- No number is given to two nodes, and a node that has one is as `node_init`
leaves it. -/
structure NodeTree.Numbered (t : NodeTree) : Prop where
  next : t.nextQid = (t.inits + 1) % 4294967296
  past : ∀ id, t.made id ≤ t.inits
  distinct : ∀ a b, t.made a = t.made b → a = b ∨ t.made a = 0
  node : ∀ id, t.made id ≠ 0 → t.nodes id = id.node (t.made id % 4294967296)

theorem numbered_blank : NodeTree.blank.Numbered where
  next := rfl
  past _ := Nat.zero_le _
  distinct _ _ _ := .inr rfl
  node _ h := absurd rfl h

theorem numbered_nodeInit {t : NodeTree} (h : t.Numbered) (id : NodeId) : (nodeInit t id).Numbered where
  next := by
    show (t.nextQid + 1) % 4294967296 = (t.inits + 1 + 1) % 4294967296
    rw [h.next]
    omega
  past other := by
    show Function.update t.made id (t.inits + 1) other ≤ t.inits + 1
    rw [Function.update_apply]
    split
    · exact Nat.le_refl _
    · exact Nat.le_succ_of_le (h.past other)
  distinct a b := by
    show Function.update t.made id (t.inits + 1) a = Function.update t.made id (t.inits + 1) b →
      a = b ∨ Function.update t.made id (t.inits + 1) a = 0
    simp only [Function.update_apply]
    have ha := h.past a
    have hb := h.past b
    split <;> split
    · rename_i hida hidb
      exact fun _ => .inl (hida.trans hidb.symm)
    · exact fun heq => by omega
    · exact fun heq => by omega
    · exact h.distinct a b
  node other := by
    show Function.update t.made id (t.inits + 1) other ≠ 0 →
      Function.update t.nodes id (id.node t.nextQid) other =
        other.node (Function.update t.made id (t.inits + 1) other % 4294967296)
    by_cases hid : other = id
    · subst hid
      rw [Function.update_self, Function.update_self, h.next]
      exact fun _ => rfl
    · rw [Function.update_of_ne hid, Function.update_of_ne hid]
      exact h.node other

theorem numbered_initAll {t : NodeTree} (h : t.Numbered) (ids : List NodeId) : (ids.foldl nodeInit t).Numbered := by
  induction ids generalizing t with
  | nil => exact h
  | cons id ids ih => exact ih (numbered_nodeInit h id)

theorem made_initAll {t : NodeTree} {ids : List NodeId} {id : NodeId} (h : id ∈ ids ∨ t.made id ≠ 0) :
    (ids.foldl nodeInit t).made id ≠ 0 := by
  induction ids generalizing t with
  | nil => exact h.resolve_left List.not_mem_nil
  | cons first ids ih =>
    apply ih
    by_cases hid : id = first
    · subst hid
      rw [show (nodeInit t id).made id = t.inits + 1 from Function.update_self _ _ _]
      exact .inr (Nat.succ_ne_zero _)
    · rw [show (nodeInit t first).made id = t.made id from Function.update_of_ne hid _ _]
      exact h.imp_left fun hmem => (List.mem_cons.mp hmem).resolve_left hid

theorem links_initAll (t : NodeTree) (ids : List NodeId) :
    (ids.foldl nodeInit t).links = ids.foldl (fun s a => s.clear a) t.links := by
  induction ids generalizing t with
  | nil => rfl
  | cons id ids ih => exact ih (nodeInit t id)

theorem linkAll_eq (parent : NodeId) (t : NodeTree) (ids : List NodeId) :
    ids.foldl (linkChild parent) t = { t with links := ids.foldl (fun s a => s.link parent a) t.links } := by
  induction ids generalizing t with
  | nil => rfl
  | cons id ids ih => exact ih (linkChild parent t id)

theorem NodeTree.Numbered.relink {t : NodeTree} (h : t.Numbered) (links : Siblings NodeId) :
    NodeTree.Numbered { t with links := links } := ⟨h.next, h.past, h.distinct, h.node⟩

/-! ## The invariant -/

def NetFs.Live (fs : NetFs ρ) (id : NodeId) : Prop := ∀ n, id.slot = some n → (fs.convs n).inUse = true

structure NodeFs.Inv (s : NodeFs ρ) : Prop where
  used : ∀ n, n ∈ s.fs.linked ↔ (s.fs.convs n).inUse = true
  lists : ∀ id, s.fs.Live id → s.tree.links.Lists id (s.fs.children id)
  parents : ∀ dir child, s.fs.Live dir → child ∈ s.fs.children dir → s.tree.links.parent child = some dir
  numbered : s.tree.Numbered
  made : ∀ id, s.fs.Live id → s.tree.made id ≠ 0

theorem mem_convNodes {n : Slot} {id : NodeId} : id ∈ NodeId.dir n :: convFiles n ↔ id.slot = some n := by
  cases id <;> simp [convFiles, NodeId.slot, NodeId.convFile]

theorem mem_convFiles {n : Slot} {id : NodeId} : id ∈ convFiles n ↔ id.convFile = some n := by
  cases id <;> simp [convFiles, NodeId.convFile, eq_comm]

theorem NetFs.children_slot {fs : NetFs ρ} {id child : NodeId} (hroot : id ≠ .root) (h : child ∈ fs.children id) :
    child.slot = id.slot := by
  cases id with
  | root => exact absurd rfl hroot
  | dir n =>
    simp only [NetFs.children, List.mem_cons, List.not_mem_nil, or_false] at h
    rcases h with rfl | rfl | rfl | rfl | rfl <;> rfl
  | _ => cases h

theorem NetFs.children_root {fs : NetFs ρ} {id : NodeId} :
    id ∈ fs.children .root ↔ id ∈ staticNodes ∨ ∃ n, id = .dir n ∧ n ∈ fs.linked := by
  simp only [NetFs.children, List.mem_append, List.mem_map, staticNodes, List.mem_cons, List.not_mem_nil, or_false]
  constructor
  · rintro (⟨n, hn, rfl⟩ | hstatic)
    · exact .inr ⟨n, rfl, hn⟩
    · exact .inl (by tauto)
  · rintro (hstatic | ⟨n, rfl, hn⟩)
    · exact .inr (by tauto)
    · exact .inl ⟨n, hn, rfl⟩

theorem NetFs.children_static {fs : NetFs ρ} {id : NodeId} (h : id ∈ staticNodes) : fs.children id = [] := by
  simp only [staticNodes, List.mem_cons, List.not_mem_nil, or_false] at h
  rcases h with rfl | rfl | rfl | rfl | rfl | rfl <;> rfl

theorem NetFs.children_convFile {fs : NetFs ρ} {id : NodeId} {n : Slot} (h : id ∈ convFiles n) :
    fs.children id = [] := by
  cases id with
  | root | dir n => cases mem_convFiles.mp h
  | _ => rfl

theorem NetFs.children_linked {fs fs' : NetFs ρ} {id : NodeId} (hroot : id ≠ .root) :
    fs'.children id = fs.children id := by
  cases id with
  | root => exact absurd rfl hroot
  | _ => rfl

theorem NodeId.slot_none {id : NodeId} (h : id.slot = none) : id = .root ∨ id ∈ staticNodes := by
  cases id <;> simp_all [staticNodes, NodeId.slot, NodeId.convFile]

theorem inv_init : (NodeFs.init : NodeFs ρ).Inv := by
  have hlive : ∀ id, (NodeFs.init : NodeFs ρ).fs.Live id → id = .root ∨ id ∈ staticNodes := by
    intro id hid
    refine NodeId.slot_none (Option.eq_none_iff_forall_not_mem.mpr fun n hn => ?_)
    cases hid n hn
  have hlinks : (NodeFs.init : NodeFs ρ).tree.links =
      staticNodes.foldl (fun s a => s.link .root a) ((.root :: staticNodes).foldl (fun s a => s.clear a) .bare) := rfl
  constructor
  case used => exact fun n => iff_of_false List.not_mem_nil nofun
  case lists =>
    intro id hid
    rw [hlinks]
    rcases hlive id hid with rfl | hstatic
    · exact Siblings.lists_linkAll (Siblings.lists_clearAll List.mem_cons_self) (by decide) nofun
    · have hroot : id ≠ .root := by
        rintro rfl
        exact absurd hstatic (by decide)
      rw [NetFs.children_static hstatic]
      exact Siblings.Lists.linkAll (Siblings.lists_clearAll (List.mem_cons_of_mem _ hstatic)) hroot nofun
  case parents =>
    intro dir child hdir hchild
    rcases hlive dir hdir with rfl | hstatic
    · have hstatic : child ∈ staticNodes := by
        rcases NetFs.children_root.mp hchild with hstatic | ⟨n, -, hn⟩
        · exact hstatic
        · cases hn
      rw [hlinks, Siblings.linkAll_parent, if_pos hstatic]
    · rw [NetFs.children_static hstatic] at hchild
      cases hchild
  case numbered =>
    rw [NodeFs.init, linkAll_eq]
    exact (numbered_initAll numbered_blank _).relink _
  case made =>
    intro id hid
    rw [NodeFs.init, linkAll_eq]
    exact made_initAll (.inl (List.mem_cons.mpr (hlive id hid)))

/-! ## Allocation -/

/-- The pointers of `conv_build_nodes` before the directory is linked. -/
def builtConv (n : Slot) (links : Siblings NodeId) : Siblings NodeId :=
  (convFiles n).foldl (fun s a => s.link (.dir n) a) ((.dir n :: convFiles n).foldl (fun s a => s.clear a) links)

theorem convBuildNodes_eq (n : Slot) (t : NodeTree) :
    convBuildNodes n t =
      { (NodeId.dir n :: convFiles n).foldl nodeInit t with
        links := (builtConv n t.links).link .root (.dir n) } := by
  rw [convBuildNodes, linkAll_eq, links_initAll]
  rfl

section

variable {n : Slot} {links : Siblings NodeId} {id child : NodeId} {xs : List NodeId}

theorem builtConv_dir : (builtConv n links).Lists (.dir n) [.status n, .remote n, .localAddr n, .data n, .ctl n] := by
  have hfiles : (convFiles n).Nodup := by simp [convFiles]
  exact Siblings.lists_linkAll (Siblings.lists_clearAll List.mem_cons_self) hfiles nofun

theorem builtConv_file (h : id ∈ convFiles n) : (builtConv n links).Lists id [] := by
  refine Siblings.Lists.linkAll (Siblings.lists_clearAll (List.mem_cons_of_mem _ h)) ?_ nofun
  rintro rfl
  cases mem_convFiles.mp h

theorem builtConv_other (h : links.Lists id xs) (hid : id.slot ≠ some n) (hxs : ∀ a ∈ xs, a.slot ≠ some n) :
    (builtConv n links).Lists id xs := by
  have hids : ∀ a ∈ xs, a ∉ NodeId.dir n :: convFiles n := fun a ha hmem => hxs a ha (mem_convNodes.mp hmem)
  refine Siblings.Lists.linkAll (h.clearAll (fun hmem => hid (mem_convNodes.mp hmem)) hids) ?_ ?_
  · rintro rfl
    exact hid rfl
  · exact fun a ha hmem => hids a ha (List.mem_cons_of_mem _ hmem)

theorem builtConv_parent :
    (builtConv n links).parent child = if child ∈ convFiles n then some (.dir n) else
      ((NodeId.dir n :: convFiles n).foldl (fun s a => s.clear a) links).parent child :=
  Siblings.linkAll_parent _ _

end

/-- An allocation takes the slot from outside the list and puts it in front. -/
theorem NetFs.alloc_linked {fs fs' : NetFs ρ} {n : Slot} (h : fs.alloc = some (n, fs')) :
    fs'.linked = n :: fs.linked := by
  obtain ⟨⟨m, convs⟩, -, heq⟩ := Option.map_eq_some_iff.mp h
  cases heq
  rfl

theorem NetFs.alloc_root {fs fs' : NetFs ρ} {n : Slot} (h : fs.alloc = some (n, fs')) :
    fs'.children .root = .dir n :: fs.children .root := by
  rw [NetFs.children, NetFs.alloc_linked h]
  rfl

theorem NetFs.alloc_live {fs fs' : NetFs ρ} {n : Slot} {id : NodeId} (h : fs.alloc = some (n, fs'))
    (hid : fs'.Live id) (hslot : id.slot ≠ some n) : fs.Live id := by
  intro m hm
  have hused := hid m hm
  rwa [(NetFs.alloc_eq h).2.1, Function.update_of_ne (fun hmn : m = n => hslot (hmn ▸ hm))] at hused

theorem NetFs.Live.other {fs : NetFs ρ} {n : Slot} {id : NodeId} (hid : fs.Live id)
    (hunused : (fs.convs n).inUse = false) : id.slot ≠ some n := by
  intro hslot
  rw [hid n hslot] at hunused
  cases hunused

/-- Nothing that is linked belongs to a slot that is not in use. -/
theorem NodeFs.Inv.foreign {s : NodeFs ρ} {n : Slot} {id child : NodeId} (h : s.Inv)
    (hunused : (s.fs.convs n).inUse = false) (hid : s.fs.Live id) (hchild : child ∈ s.fs.children id) :
    child.slot ≠ some n := by
  by_cases hroot : id = .root
  · subst hroot
    rcases NetFs.children_root.mp hchild with hstatic | ⟨m, rfl, hm⟩
    · simp only [staticNodes, List.mem_cons, List.not_mem_nil, or_false] at hstatic
      rcases hstatic with rfl | rfl | rfl | rfl | rfl | rfl <;> exact nofun
    · rintro ⟨⟩
      rw [(h.used n).mp hm] at hunused
      cases hunused
  · rw [NetFs.children_slot hroot hchild]
    exact hid.other hunused

section

variable {s : NodeFs ρ} {fs' : NetFs ρ} {n : Slot}

theorem NodeFs.Inv.alloc_lists (h : s.Inv) (hfs : s.fs.alloc = some (n, fs')) {id : NodeId} (hid : fs'.Live id) :
    (convBuildNodes n s.tree).links.Lists id (fs'.children id) := by
  obtain ⟨hunused, -⟩ := NetFs.alloc_eq hfs
  rw [convBuildNodes_eq]
  by_cases hroot : id = .root
  · subst hroot
    have hrootLive : s.fs.Live .root := nofun
    rw [NetFs.alloc_root hfs]
    have hkept := builtConv_other (h.lists _ hrootLive) nofun fun a ha => h.foreign hunused hrootLive ha
    exact Siblings.lists_link hkept fun hmem => h.foreign hunused hrootLive hmem rfl
  · by_cases hslot : id.slot = some n
    · rcases List.mem_cons.mp (mem_convNodes.mpr hslot) with rfl | hfile
      · exact Siblings.Lists.link builtConv_dir hroot (by simp [NetFs.children])
      · rw [NetFs.children_convFile hfile]
        exact Siblings.Lists.link (builtConv_file hfile) hroot nofun
    · have hid := NetFs.alloc_live hfs hid hslot
      rw [show fs'.children id = s.fs.children id from NetFs.children_linked hroot]
      have hkept := builtConv_other (h.lists id hid) hslot fun a ha => h.foreign hunused hid ha
      exact Siblings.Lists.link hkept hroot fun hmem => h.foreign hunused hid hmem rfl

theorem NodeFs.Inv.alloc_kept (h : s.Inv) (hunused : (s.fs.convs n).inUse = false) {dir child : NodeId}
    (hdir : s.fs.Live dir) (hchild : child ∈ s.fs.children dir) :
    (convBuildNodes n s.tree).links.parent child = some dir := by
  have hnew : child ∉ NodeId.dir n :: convFiles n := fun hmem =>
    h.foreign hunused hdir hchild (mem_convNodes.mp hmem)
  obtain ⟨hne, hfile⟩ := List.ne_and_not_mem_of_not_mem_cons hnew
  rw [convBuildNodes_eq, Siblings.link_parent, builtConv_parent, if_neg hne, if_neg hfile,
    Siblings.clearAll_parent hnew]
  exact h.parents dir child hdir hchild

theorem convBuildNodes_parent {t : NodeTree} {child : NodeId} (h : child ∈ convFiles n) :
    (convBuildNodes n t).links.parent child = some (.dir n) := by
  rw [convBuildNodes_eq, Siblings.link_parent, builtConv_parent, if_neg ?_, if_pos h]
  rintro rfl
  cases mem_convFiles.mp h

theorem NodeFs.Inv.alloc_parents (h : s.Inv) (hfs : s.fs.alloc = some (n, fs')) {dir child : NodeId}
    (hdir : fs'.Live dir) (hchild : child ∈ fs'.children dir) :
    (convBuildNodes n s.tree).links.parent child = some dir := by
  obtain ⟨hunused, -⟩ := NetFs.alloc_eq hfs
  by_cases hroot : dir = .root
  · subst hroot
    rw [NetFs.alloc_root hfs] at hchild
    rcases List.mem_cons.mp hchild with rfl | hchild
    · rw [convBuildNodes_eq, Siblings.link_parent]
      exact if_pos rfl
    · exact h.alloc_kept hunused nofun hchild
  · rw [show fs'.children dir = s.fs.children dir from NetFs.children_linked hroot] at hchild
    by_cases hslot : dir.slot = some n
    · rcases List.mem_cons.mp (mem_convNodes.mpr hslot) with rfl | hfile
      · apply convBuildNodes_parent
        simp only [NetFs.children, convFiles, List.mem_cons] at hchild ⊢
        tauto
      · rw [NetFs.children_convFile hfile] at hchild
        cases hchild
    · exact h.alloc_kept hunused (NetFs.alloc_live hfs hdir hslot) hchild

end

theorem inv_alloc {s s' : NodeFs ρ} {n : Slot} (h : s.Inv) (halloc : s.convAlloc = some (n, s')) : s'.Inv := by
  obtain ⟨⟨m, fs'⟩, hfs, heq⟩ := Option.map_eq_some_iff.mp halloc
  cases heq
  constructor
  case used =>
    intro m
    rw [NetFs.alloc_linked hfs, (NetFs.alloc_eq hfs).2.1, List.mem_cons, h.used m, Function.update_apply]
    by_cases hmn : m = n
    · simp [hmn, Conv.fresh]
    · simp [hmn]
  case lists => exact fun id hid => h.alloc_lists hfs hid
  case parents => exact fun dir child hdir hchild => h.alloc_parents hfs hdir hchild
  case numbered =>
    show (convBuildNodes n s.tree).Numbered
    rw [convBuildNodes_eq]
    exact (numbered_initAll h.numbered _).relink _
  case made =>
    intro id hid
    show (convBuildNodes n s.tree).made id ≠ 0
    rw [convBuildNodes_eq]
    show ((NodeId.dir n :: convFiles n).foldl nodeInit s.tree).made id ≠ 0
    apply made_initAll
    by_cases hslot : id.slot = some n
    · exact .inl (mem_convNodes.mpr hslot)
    · exact .inr (h.made id (NetFs.alloc_live hfs hid hslot))

/-! ## Teardown -/

theorem NodeFs.Inv.root_nodup {s : NodeFs ρ} (h : s.Inv) : (s.fs.children .root).Nodup :=
  Chain.nodup (h.lists .root nofun)

theorem NodeFs.Inv.linked_nodup {s : NodeFs ρ} (h : s.Inv) : s.fs.linked.Nodup :=
  List.Nodup.of_map _ (List.nodup_append.mp h.root_nodup).1

theorem NetFs.free_linked {fs : NetFs ρ} {n : Slot} (hused : (fs.convs n).inUse = true) :
    (fs.free n).linked = fs.linked.erase n := by
  rw [NetFs.free, if_pos hused]

theorem NetFs.free_inUse {fs : NetFs ρ} {n m : Slot} (hused : (fs.convs n).inUse = true) :
    ((fs.free n).convs m).inUse = true ↔ m ≠ n ∧ (fs.convs m).inUse = true := by
  rw [NetFs.free, if_pos hused]
  show ((Aether.convFree n fs.convs m).inUse = true) ↔ _
  rw [Aether.convFree, if_pos hused, Function.update_apply]
  by_cases hmn : m = n <;> simp [hmn]

theorem NetFs.free_root {fs : NetFs ρ} {n : Slot} (hused : (fs.convs n).inUse = true) (hn : n ∈ fs.linked) :
    (fs.free n).children .root = (fs.children .root).erase (.dir n) := by
  have hdir : Function.Injective NodeId.dir := fun a b hab => NodeId.dir.inj hab
  rw [NetFs.children, NetFs.free_linked hused, NetFs.children, List.map_erase hdir,
    List.erase_append_left _ (List.mem_map_of_mem hn)]

theorem NetFs.children_apart {fs : NetFs ρ} {id child : NodeId} (hroot : id ≠ .root) (h : child ∈ fs.children id) :
    child ∉ fs.children .root := by
  intro hmem
  cases id with
  | root => exact hroot rfl
  | dir n =>
    simp only [NetFs.children, List.mem_cons, List.not_mem_nil, or_false] at h
    rcases NetFs.children_root.mp hmem with hstatic | ⟨m, rfl, -⟩
    · rcases h with rfl | rfl | rfl | rfl | rfl <;> simp [staticNodes] at hstatic
    · rcases h with h | h | h | h | h <;> cases h
  | _ => cases h

theorem NodeFs.Inv.short {s : NodeFs ρ} (h : s.Inv) (id : NodeId) : (s.fs.children id).length < nodeCount := by
  have hlinked : s.fs.linked.length ≤ maxConns := by
    have hsubset : s.fs.linked ⊆ List.finRange maxConns := fun n _ => List.mem_finRange n
    simpa using (List.subperm_of_subset h.linked_nodup hsubset).length_le
  cases id with
  | root =>
    simp only [NetFs.children, List.length_append, List.length_map, List.length_cons, List.length_nil, nodeCount]
    omega
  | dir n => exact (by decide : 5 < nodeCount)
  | _ => exact (by decide : 0 < nodeCount)

theorem inv_free {s : NodeFs ρ} (h : s.Inv) (n : Slot) : ∃ s', s.convFree n = some s' ∧ s'.Inv := by
  cases hused : (s.fs.convs n).inUse with
  | false =>
    refine ⟨s, ?_, h⟩
    rw [NodeFs.convFree, hused, if_neg Bool.false_ne_true]
  | true =>
    have hroot := h.lists .root nofun
    obtain ⟨links, hunlink, hlists, hparent, hothers⟩ := Siblings.unlink_lists hroot (h.short .root)
    have hlive : ∀ id, (s.fs.free n).Live id → s.fs.Live id ∧ id.slot ≠ some n := by
      intro id hid
      refine ⟨fun m hm => ((NetFs.free_inUse hused).mp (hid m hm)).2, fun hslot => ?_⟩
      exact ((NetFs.free_inUse hused).mp (hid n hslot)).1 rfl
    refine ⟨⟨s.fs.free n, { s.tree with links := links }⟩, ?_, ?_⟩
    · rw [NodeFs.convFree, if_pos hused, unlinkChild, hunlink]
      rfl
    constructor
    case used =>
      intro m
      rw [NetFs.free_linked hused, NetFs.free_inUse hused, h.linked_nodup.mem_erase_iff, h.used m]
    case lists =>
      intro id hid
      obtain ⟨hid, hslot⟩ := hlive id hid
      by_cases hne : id = .root
      · subst hne
        rw [NetFs.free_root hused ((h.used n).mpr hused)]
        exact hlists
      · rw [show (s.fs.free n).children id = s.fs.children id from NetFs.children_linked hne]
        exact hothers id _ hne (fun child hchild => NetFs.children_apart hne hchild) (h.lists id hid)
    case parents =>
      intro dir child hdir hchild
      rw [hparent]
      refine h.parents dir child (hlive dir hdir).1 ?_
      by_cases hne : dir = .root
      · subst hne
        rw [NetFs.free_root hused ((h.used n).mpr hused)] at hchild
        exact List.mem_of_mem_erase hchild
      · rwa [show s.fs.children dir = (s.fs.free n).children dir from NetFs.children_linked hne]
    case numbered => exact h.numbered.relink links
    case made => exact fun id hid => h.made id (hlive id hid).1

/-! ## What the invariant says -/

section

variable {s : NodeFs ρ} {id dir child : NodeId}

theorem NodeFs.Inv.listed (h : s.Inv) (hdir : s.fs.Live dir) :
    s.tree.Listed dir child ↔ child ∈ s.fs.children dir := by
  constructor
  · rintro ⟨xs, hlists, hmem⟩
    rwa [(h.lists dir hdir).unique hlists]
  · exact fun hmem => ⟨_, h.lists dir hdir, hmem⟩

theorem NodeFs.Inv.children_live (h : s.Inv) (hdir : s.fs.Live dir) (hmem : child ∈ s.fs.children dir) :
    s.fs.Live child := by
  by_cases hroot : dir = .root
  · subst hroot
    rcases NetFs.children_root.mp hmem with hstatic | ⟨n, rfl, hn⟩
    · simp only [staticNodes, List.mem_cons, List.not_mem_nil, or_false] at hstatic
      rcases hstatic with rfl | rfl | rfl | rfl | rfl | rfl <;> exact nofun
    · rintro m ⟨⟩
      exact (h.used n).mp hn
  · intro n hn
    exact hdir n (NetFs.children_slot hroot hmem ▸ hn)

theorem NodeFs.Inv.live (h : s.Inv) (hid : s.tree.Reachable id) : s.fs.Live id := by
  induction hid with
  | root => exact nofun
  | child hdir hlisted ih => exact h.children_live ih ((h.listed ih).mp hlisted)

theorem NodeFs.Inv.node (h : s.Inv) (hid : s.fs.Live id) :
    s.tree.nodes id = id.node (s.tree.made id % 4294967296) :=
  h.numbered.node id (h.made id hid)

theorem NodeId.dirName_inj : ∀ m n : Slot, (NodeId.dir m).name = (NodeId.dir n).name → m = n := by decide

theorem NodeId.dirName_ne {n : Slot} {id : NodeId} (hid : id ∈ staticNodes) : (NodeId.dir n).name ≠ id.name := by
  intro hname
  have hlength := congrArg List.length hname
  simp only [staticNodes, List.mem_cons, List.not_mem_nil, or_false] at hid
  rcases hid with rfl | rfl | rfl | rfl | rfl | rfl <;> cases hlength

theorem NetFs.name_inj {fs : NetFs ρ} {a b : NodeId} (ha : a ∈ fs.children dir) (hb : b ∈ fs.children dir)
    (hname : a.name = b.name) : a = b := by
  cases dir with
  | root =>
    have hstatics : ∀ a ∈ staticNodes, ∀ b ∈ staticNodes, a.name = b.name → a = b := by decide
    rcases NetFs.children_root.mp ha with ha | ⟨m, rfl, -⟩
    · rcases NetFs.children_root.mp hb with hb | ⟨n, rfl, -⟩
      · exact hstatics a ha b hb hname
      · exact absurd hname.symm (NodeId.dirName_ne ha)
    · rcases NetFs.children_root.mp hb with hb | ⟨n, rfl, -⟩
      · exact absurd hname (NodeId.dirName_ne hb)
      · rw [NodeId.dirName_inj m n hname]
  | dir n =>
    have hfiles : ∀ n : Slot, ∀ a ∈ convFiles n, ∀ b ∈ convFiles n, a.name = b.name → a = b := by decide
    simp only [NetFs.children, List.mem_cons] at ha hb
    refine hfiles n a ?_ b ?_ hname <;> simp only [convFiles, List.mem_cons] <;> tauto
  | _ => cases ha

theorem NetFs.children_isDir {fs : NetFs ρ} (h : child ∈ fs.children dir) : dir.isDir = true := by
  cases dir with
  | root | dir n => rfl
  | _ => cases h

theorem NodeId.kind_root {id : NodeId} : id.kind = .root ↔ id = .root := by
  cases id <;> simp [NodeId.kind]

/-- The walk along the pointers is the search in the list of children. -/
theorem NodeFs.Inv.walk_eq (h : s.Inv) (hdir : s.fs.Live dir) (name : Name) :
    s.anetWalk dir name =
      if dir.isDir = false then some (none, s)
      else if dir = .root ∧ name = cloneName then
        some (s.convAlloc.elim (none, s) fun (n, s) => (some (.ctl n), s))
      else some ((s.fs.children dir).find? fun child => child.name = name, s) := by
  have hnode := h.node hdir
  have hfind : (s.fs.children dir).find? (fun child => (s.tree.nodes child).name = name) =
      (s.fs.children dir).find? fun child => child.name = name := by
    refine List.find?_congr fun child hchild => ?_
    rw [h.node (h.children_live hdir hchild)]
    rfl
  rw [NodeFs.anetWalk, hnode, Siblings.findFrom_chain (h.lists dir hdir) (h.short dir), hfind]
  simp only [NodeId.node, NodeId.kind_root, Option.map_some]
  cases s.convAlloc <;> rfl

/-- The walk of the tree is the walk of the slots. -/
theorem NodeFs.Inv.walk_refines (h : s.Inv) (hdir : s.fs.Live dir) (name : Name) :
    (s.anetWalk dir name).map (fun (found, s) => (found, s.fs)) = some (Aether.anetWalk dir name s.fs) := by
  rw [h.walk_eq hdir, Aether.anetWalk, NodeFs.convAlloc]
  split
  · rfl
  · split
    · cases s.fs.alloc <;> rfl
    · rfl

theorem NodeFs.Inv.walk_child (h : s.Inv) (hdir : s.fs.Live dir) (hchild : child ∈ s.fs.children dir)
    (hclone : ¬ (dir = .root ∧ child = .clone)) :
    s.anetWalk dir (s.tree.nodes child).name = some (some child, s) := by
  rw [h.walk_eq hdir, h.node (h.children_live hdir hchild), NetFs.children_isDir hchild,
    if_neg Bool.true_eq_false.mp, if_neg ?_]
  · have hfound : ((s.fs.children dir).find? fun c => c.name = child.name) = some child := by
      cases hfind : (s.fs.children dir).find? fun c => c.name = child.name with
      | none => exact (List.find?_eq_none.mp hfind child hchild (decide_eq_true rfl)).elim
      | some found =>
        have hname : found.name = child.name := by simpa using List.find?_some hfind
        rw [NetFs.name_inj (List.mem_of_find?_eq_some hfind) hchild hname]
    exact congrArg (fun found => some (found, s)) hfound
  · rintro ⟨rfl, hname⟩
    refine hclone ⟨rfl, NetFs.name_inj hchild (NetFs.children_root.mpr (.inl List.mem_cons_self)) hname⟩

theorem NodeFs.Inv.walk_none (h : s.Inv) (hdir : s.fs.Live dir) {name : Name}
    (habsent : ∀ child ∈ s.fs.children dir, (s.tree.nodes child).name ≠ name) :
    s.anetWalk dir name = some (none, s) := by
  rw [h.walk_eq hdir]
  split
  · rfl
  · rw [if_neg ?_]
    · have hfind : ((s.fs.children dir).find? fun child => child.name = name) = none := by
        refine List.find?_eq_none.mpr fun child hchild => ?_
        have hname := habsent child hchild
        rw [h.node (h.children_live hdir hchild)] at hname
        simpa [NodeId.node] using hname
      rw [hfind]
    · rintro ⟨rfl, rfl⟩
      have hclone : NodeId.clone ∈ s.fs.children .root := NetFs.children_root.mpr (.inl List.mem_cons_self)
      have hname := habsent .clone hclone
      rw [h.node (h.children_live hdir hclone)] at hname
      exact hname rfl

theorem NodeFs.Inv.qids (h : s.Inv) (hfew : s.tree.inits < 4294967295) {a b : NodeId} (ha : s.fs.Live a)
    (hb : s.fs.Live b) (hqid : (s.tree.nodes a).qidPath = (s.tree.nodes b).qidPath) : a = b := by
  have hpasta := h.numbered.past a
  have hpastb := h.numbered.past b
  rw [h.node ha, h.node hb] at hqid
  have hmade : s.tree.made a % 4294967296 = s.tree.made b % 4294967296 := hqid
  rw [Nat.mod_eq_of_lt (by omega), Nat.mod_eq_of_lt (by omega)] at hmade
  exact (h.numbered.distinct a b hmade).resolve_right (h.made a ha)

theorem NodeFs.Inv.sound (h : s.Inv) : s.Sound where
  root := by
    refine ⟨_, h.lists .root nofun, h.root_nodup, fun id => ?_⟩
    simp only [NetFs.children_root, h.used]
  conv n hused := by
    have hdir : s.fs.Live (.dir n) := by
      rintro m ⟨⟩
      exact hused
    refine ⟨_, h.lists _ hdir, Chain.nodup (h.lists _ hdir), fun id => ?_⟩
    simp only [NetFs.children, convFiles, List.mem_cons]
    tauto
  parents dir child hdir hlisted := h.parents dir child (h.live hdir) ((h.listed (h.live hdir)).mp hlisted)
  names dir a b hdir ha hb hname := by
    have ha := (h.listed (h.live hdir)).mp ha
    have hb := (h.listed (h.live hdir)).mp hb
    rw [h.node (h.children_live (h.live hdir) ha), h.node (h.children_live (h.live hdir) hb)] at hname
    exact NetFs.name_inj ha hb hname
  walk dir child hdir hlisted := h.walk_child (h.live hdir) ((h.listed (h.live hdir)).mp hlisted)
  walkClone := h.walk_eq (show s.fs.Live .root from nofun) cloneName
  walkNone dir name hdir habsent :=
    h.walk_none (h.live hdir) fun child hchild => habsent child ((h.listed (h.live hdir)).mpr hchild)
  qids hfew a b ha hb := h.qids hfew (h.live ha) (h.live hb)

end

/-- Whatever conversations are allocated and freed, and however often a free
slot is freed, the run goes on and the tree is sound. -/
theorem namespace_tree (events : List NodeEvent) :
    ∃ s, run NodeFs.step (NodeFs.init : NodeFs ρ) events = some s ∧ s.Sound := by
  suffices hinv : ∀ s : NodeFs ρ, s.Inv → ∃ final, run NodeFs.step s events = some final ∧ final.Inv by
    obtain ⟨s, hrun, hs⟩ := hinv .init inv_init
    exact ⟨s, hrun, hs.sound⟩
  induction events with
  | nil => exact fun s hs => ⟨s, rfl, hs⟩
  | cons event rest ih =>
    intro s hs
    have hnext : ∃ next, s.step event = some next ∧ next.Inv := by
      cases event with
      | alloc =>
        rw [NodeFs.step]
        cases halloc : s.convAlloc with
        | none => exact ⟨s, rfl, hs⟩
        | some got => exact ⟨got.2, rfl, inv_alloc hs halloc⟩
      | free n => exact inv_free hs n
    obtain ⟨next, hstep, hnext⟩ := hnext
    obtain ⟨final, hrun, hfinal⟩ := ih next hnext
    exact ⟨final, run_cons_eq_some.mpr ⟨next, hstep, hrun⟩, hfinal⟩

end DectMesh.Aether
