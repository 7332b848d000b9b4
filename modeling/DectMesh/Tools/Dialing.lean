import DectMesh.Aether.Lifetime
import DectMesh.Aether.TextFiles

/-! How the host's clients get a conversation: the walk to `clone`, the number
that its ctl file reads, the path that they print with it, and the connect
command. Other clients go on in between. -/
namespace DectMesh.Tools

open DectMesh.Lib DectMesh.Aether
open DectMesh.Relay (cString isSpace isDigit decimal)
open DectMesh.Telemetry (decimalText)

/-! ## The client's texts -/

def atoi (text : List UInt8) : Int :=
  match (cString text).dropWhile isSpace with
  | 0x2d :: text => - (decimal (text.takeWhile isDigit))
  | 0x2b :: text => decimal (text.takeWhile isDigit)
  | text => decimal (text.takeWhile isDigit)

abbrev slash : UInt8 := 0x2f

/-- The parts that `do_walk` sends: `strtok(tmp, "/")` on the first 127 bytes, and
the first 16 of what it gives. -/
def pathParts (path : List UInt8) : List (List UInt8) :=
  ((((cString path).take 127).splitOn slash).filter (· ≠ [])).take 16

def netName : List UInt8 := [0x6e, 0x65, 0x74]

def aetherName : List UInt8 := [0x61, 0x65, 0x74, 0x68, 0x65, 0x72]

/-- `"net/aether/%d/data"`, for any file of the conversation. -/
def convPath (conv : Int) (file : List UInt8) : List UInt8 :=
  netName ++ slash :: aetherName ++ slash :: decimalText conv ++ slash :: file

theorem mem_join {names : List (List UInt8)} {c : UInt8} (h : c ∈ [slash].intercalate names) :
    c = slash ∨ ∃ name ∈ names, c ∈ name := by
  induction names with
  | nil => cases h
  | cons name rest ih =>
    by_cases hrest : rest = []
    · rw [hrest, List.intercalate_singleton] at h
      exact .inr ⟨name, List.mem_cons_self, h⟩
    · rw [List.intercalate_cons_of_ne_nil hrest, List.mem_append, List.mem_append, List.mem_singleton] at h
      rcases h with (hname | hslash) | hlater
      · exact .inr ⟨name, List.mem_cons_self, hname⟩
      · exact .inl hslash
      · rcases ih hlater with hslash | ⟨other, hother, hmem⟩
        · exact .inl hslash
        · exact .inr ⟨other, List.mem_cons_of_mem name hother, hmem⟩

theorem pathParts_join {names : List (List UInt8)} (hsome : names ≠ []) (hfew : names.length ≤ 16)
    (hshort : ([slash].intercalate names).length ≤ 127)
    (hnames : ∀ name ∈ names, name ≠ [] ∧ slash ∉ name ∧ 0 ∉ name) :
    pathParts ([slash].intercalate names) = names := by
  have hnul : ∀ c ∈ [slash].intercalate names, c ≠ 0 := by
    rintro c hc rfl
    rcases mem_join hc with hzero | ⟨name, hname, hmem⟩
    · cases hzero
    · exact (hnames name hname).2.2 hmem
  have hall : names.filter (· ≠ []) = names :=
    List.filter_eq_self.mpr fun name hname => by simpa using (hnames name hname).1
  rw [pathParts, cString_of_no_nul hnul, List.take_of_length_le hshort,
    List.splitOn_intercalate slash (fun name hname => (hnames name hname).2.1) hsome, hall,
    List.take_of_length_le hfew]

theorem convPath_join (conv : Int) (file : List UInt8) :
    convPath conv file = [slash].intercalate [netName, aetherName, decimalText conv, file] := by
  simp [convPath, List.intercalate_cons_cons]

theorem slotNumber (n : Slot) : decimalText n.val = (NodeId.dir n).name ∧ atoi (decimalText n.val ++ [0x0a]) = n.val ∧
    atoi (decimalText n.val) = n.val := by
  revert n
  decide

theorem convPath_parts {n : Slot} {file : NodeId} (hfile : file ∈ convFiles n) :
    pathParts (convPath n.val file.name) = [netName, aetherName, (NodeId.dir n).name, file.name] := by
  have hname : file.name ≠ [] ∧ slash ∉ file.name ∧ 0 ∉ file.name ∧ file.name.length ≤ 6 := by
    have hall : ∀ n : Slot, ∀ file ∈ convFiles n,
        file.name ≠ [] ∧ slash ∉ file.name ∧ 0 ∉ file.name ∧ file.name.length ≤ 6 := by decide
    exact hall n file hfile
  have hdir : ∀ n : Slot, (NodeId.dir n).name ≠ [] ∧ slash ∉ (NodeId.dir n).name ∧ 0 ∉ (NodeId.dir n).name := by
    decide
  rw [convPath_join, (slotNumber n).1]
  refine pathParts_join (by simp) (by simp) ?_ ?_
  · have hdirLength : (NodeId.dir n).name.length = 1 := rfl
    simp only [List.intercalate_cons_cons, List.intercalate_singleton, List.length_append, List.length_cons,
      List.length_nil, netName, aetherName, hdirLength]
    omega
  · simp only [List.forall_mem_cons]
    exact ⟨by decide, by decide, hdir n, ⟨hname.1, hname.2.1, hname.2.2.1⟩, by simp⟩

theorem atoi_page (n : Slot) {count : Nat} (hcount : 0 < count) :
    atoi (readText (decimalText n.val ++ [0x0a]) 0 count) = n.val := by
  have hlength : ∀ n : Slot, (decimalText n.val).length = 1 := by decide
  rw [readText_eq, List.drop_zero]
  by_cases hone : count = 1
  · rw [hone, ← hlength n, List.take_left]
    exact (slotNumber n).2.2
  · rw [List.take_of_length_le (by rw [List.length_append, hlength]; simp; omega)]
    exact (slotNumber n).2.1

/-! ## Requests on the files -/

variable {F : Type} [DecidableEq F]

inductive FileEvent (F : Type) where
  | name (event : NameEvent F)
  | write (fid : F) (buf : List UInt8)

/-- `anet_write`. A write to another file than a ctl file says nothing of the names. -/
def writeFile (s : Server F) (fid : F) (buf : List UInt8) : Option (Server F) :=
  match s.fids fid with
  | some (.ctl n) =>
      some { s with
        fs := { s.fs with convs := Function.update s.fs.convs n (anetWriteCtl (s.fs.convs n) buf).2 } }
  | some _ => some s
  | none => none

def fileStep (s : Server F) : FileEvent F → Option (Server F)
  | .name event => s.nameStep event
  | .write fid buf => writeFile s fid buf

def Spares (ctl : F) (n : Slot) (s : Server F) : FileEvent F → Prop
  | .name (.walk _ newfid _) => newfid ≠ ctl
  | .name (.attach _) => True
  | .name (.clunk fid) | .write fid _ => s.fids fid ≠ some (.ctl n)

instance (ctl : F) (n : Slot) (s : Server F) : ∀ event, Decidable (Spares ctl n s event)
  | .name (.walk _ newfid _) => inferInstanceAs (Decidable (newfid ≠ ctl))
  | .name (.attach _) => .isTrue trivial
  | .name (.clunk fid) | .write fid _ => inferInstanceAs (Decidable (s.fids fid ≠ some (.ctl n)))

structure Dialed (ctl : F) (n : Slot) (c : Conv (Reader F)) (s : Server F) : Prop where
  fid : s.fids ctl = some (.ctl n)
  conv : s.fs.convs n = c
  used : c.inUse = true
  linked : n ∈ s.fs.linked

variable {ctl root data : F} {n : Slot} {c : Conv (Reader F)} {s s' : Server F}

omit [DecidableEq F] in
theorem Dialed.inUse (h : Dialed ctl n c s) : (s.fs.convs n).inUse = true := h.conv ▸ h.used

theorem dialed_step {event : FileEvent F} (h : Dialed ctl n c s) (hspares : Spares ctl n s event)
    (hstep : fileStep s event = some s') : Dialed ctl n c s' := by
  cases event with
  | name event =>
    cases event with
    | attach fid =>
      obtain ⟨hnew, hfs, hfids, -⟩ := Server.attach_eq hstep
      have hne : ctl ≠ fid := fun heq => by simp [← heq, h.fid] at hnew
      refine ⟨?_, hfs ▸ h.conv, h.used, hfs ▸ h.linked⟩
      rw [hfids, Function.update_of_ne hne, h.fid]
    | walk fid newfid names =>
      obtain ⟨hfs, hfids⟩ := Server.walk_eq hstep
      have hfid : s'.fids ctl = some (.ctl n) := by
        rcases hfids with ⟨hsame, -⟩ | ⟨last, hupdate, -⟩
        · rw [hsame, h.fid]
        · rw [hupdate, Function.update_of_ne (Ne.symm hspares), h.fid]
      rcases hfs with hsame | ⟨m, halloc⟩
      · exact ⟨hfid, hsame ▸ h.conv, h.used, hsame ▸ h.linked⟩
      · refine ⟨hfid, (alloc_keeps halloc h.inUse).trans h.conv, h.used, ?_⟩
        rw [NetFs.alloc_linked halloc]
        exact List.mem_cons_of_mem m h.linked
    | clunk fid =>
      obtain ⟨node, hnode, hfs, hfids, -⟩ := Server.clunk_eq hstep
      have hother : node ≠ .ctl n := fun heq => hspares (heq ▸ hnode)
      have hne : ctl ≠ fid := fun heq => hspares (heq ▸ h.fid)
      have hfid : s'.fids ctl = some (.ctl n) := by rw [hfids, Function.update_of_ne hne, h.fid]
      have hkept : s'.fs.convs n = s.fs.convs n ∧ n ∈ s'.fs.linked := by
        rw [hfs]
        cases node with
        | ctl m =>
          have hnm : n ≠ m := fun heq => hother (heq ▸ rfl)
          refine ⟨by rw [anetClunk, NetFs.free_convs, convFree_other hnm], ?_⟩
          rw [anetClunk, NetFs.free]
          split
          · exact (List.mem_erase_of_ne hnm).mpr h.linked
          · exact h.linked
        | _ => exact ⟨rfl, h.linked⟩
      exact ⟨hfid, hkept.1.trans h.conv, h.used, hkept.2⟩
  | write fid buf =>
    simp only [fileStep, writeFile] at hstep
    split at hstep
    · rename_i m hnode
      cases hstep
      have hnm : n ≠ m := fun heq => hspares (heq ▸ hnode)
      exact ⟨h.fid, (Function.update_of_ne hnm ..).trans h.conv, h.used, h.linked⟩
    · cases hstep
      exact h
    · cases hstep

theorem dialed_run {events : List (FileEvent F)} (h : Dialed ctl n c s)
    (hspares : Along fileStep (Spares ctl n) s events) (hrun : run fileStep s events = some s') : Dialed ctl n c s' :=
  run_invariant (Dialed ctl n c) (fun _ _ _ hdialed hspared hstep => dialed_step hdialed hspared hstep) h hspares hrun

theorem anetWalk_clone {ρ : Type} (fs : NetFs ρ) :
    anetWalk .root cloneName fs = fs.alloc.elim (none, fs) fun (n, fs) => (some (.ctl n), fs) := by
  unfold anetWalk
  rw [if_neg (by decide), if_pos ⟨rfl, rfl⟩]
  cases fs.alloc <;> rfl

theorem dialed_clone (hroot : s.fids root = some .root) (hwalk : s.walk root ctl [cloneName] = some s')
    (hgot : s'.fids ctl = some (.ctl n)) (hnew : s.fids ctl = none) : Dialed ctl n .fresh s' := by
  unfold Server.walk at hwalk
  rw [hroot] at hwalk
  dsimp only at hwalk
  rw [if_neg (fun hused => hused.2 hnew), walkNames, anetWalk_clone] at hwalk
  cases halloc : s.fs.alloc with
  | none =>
    simp only [halloc] at hwalk
    cases hwalk
    rw [hnew] at hgot
    cases hgot
  | some got =>
    obtain ⟨m, fs⟩ := got
    simp only [halloc, walkNames] at hwalk
    cases hwalk
    dsimp only at hgot
    rw [Function.update_self, Option.some.injEq, NodeId.ctl.injEq] at hgot
    subst hgot
    obtain ⟨-, hconvs, -⟩ := NetFs.alloc_eq halloc
    refine ⟨Function.update_self .., ?_, rfl, ?_⟩
    · rw [hconvs, Function.update_self]
    · rw [NetFs.alloc_linked halloc]
      exact List.mem_cons_self

theorem anetWalk_child {ρ : Type} {fs : NetFs ρ} {dir child : NodeId} (hchild : child ∈ fs.children dir)
    (hclone : child.name ≠ cloneName) : anetWalk dir child.name fs = (some child, fs) := by
  rw [anetWalk, NetFs.children_isDir hchild, if_neg Bool.true_eq_false.mp, if_neg fun h => hclone h.2]
  cases hfind : (fs.children dir).find? fun other => other.name = child.name with
  | none => exact (List.find?_eq_none.mp hfind child hchild (decide_eq_true rfl)).elim
  | some found =>
    have hname : found.name = child.name := by simpa using List.find?_some hfind
    rw [NetFs.name_inj (List.mem_of_find?_eq_some hfind) hchild hname]

/-- The path of a conversation that stands in the tree leads to its files. -/
theorem walkNames_conv {ρ : Type} {fs : NetFs ρ} (hlinked : n ∈ fs.linked) {file : NodeId}
    (hfile : file ∈ convFiles n) :
    walkNames [(NodeId.dir n).name, file.name] .root fs = (some file, fs) := by
  have hdir : NodeId.dir n ∈ fs.children .root := List.mem_append_left _ (List.mem_map_of_mem hlinked)
  have hmem : file ∈ fs.children (.dir n) := by
    simp only [convFiles, List.mem_cons, List.not_mem_nil, or_false] at hfile
    rcases hfile with rfl | rfl | rfl | rfl | rfl <;> simp [NetFs.children]
  have hnames : ∀ n : Slot, (NodeId.dir n).name ≠ cloneName ∧ ∀ file ∈ convFiles n, file.name ≠ cloneName := by decide
  rw [walkNames, anetWalk_child hdir (hnames n).1]
  dsimp only
  rw [walkNames, anetWalk_child hmem ((hnames n).2 file hfile)]
  rfl

/-- What the client gets by the text that it has read: the number of its
conversation, a path to each of its files, and a conversation with the peer it
asks for. -/
structure Reaches (ctl root : F) (n : Slot) (s : Server F) : Prop where
  number : ∀ info text count, anetText info s.fs (.ctl n) = some text → 0 < count →
    atoi (readText text 0 count) = n.val
  path : ∀ file ∈ convFiles n, pathParts (convPath n.val file.name) =
    [netName, aetherName, (NodeId.dir n).name, file.name]
  walk : ∀ file ∈ convFiles n, ∀ fid, s.fids fid = none → s.fids root = some .root →
    ∃ s', s.walk root fid [(NodeId.dir n).name, file.name] = some s' ∧ s'.fids fid = some file ∧ s'.fs = s.fs

theorem Dialed.reaches (h : Dialed ctl n c s) : Reaches ctl root n s where
  number info text count htext hcount := by
    cases htext
    exact atoi_page n hcount
  path file hfile := convPath_parts hfile
  walk file hfile fid hfree hroot := by
    have hwalk := walkNames_conv h.linked hfile
    unfold Server.walk
    rw [hroot]
    dsimp only
    rw [if_neg fun hused => hused.2 hfree, hwalk]
    exact ⟨_, rfl, Function.update_self .., rfl⟩

/-! ## The connect command -/

theorem stripped_connect (peer : Addr) : stripped (connectKey ++ fmtAddr peer) = connectKey ++ fmtAddr peer := by
  have hsome : fmtAddr peer ≠ [] := List.ne_nil_of_length_pos (by rw [length_fmtAddr]; decide)
  refine List.rdropWhile_eq_self_iff.mpr fun hl => ?_
  rw [List.getLast_append_of_right_ne_nil _ _ hsome]
  rcases mem_colonHex (List.getLast_mem hsome) with heq | ⟨d, hd, heq⟩
  · rw [heq]
    decide
  · have hplain : ∀ d < 16, ¬ isBlank (hexChar d) = true := by decide
    rw [heq]
    exact hplain d hd

theorem anetWriteCtl_connect {ρ : Type} {peer : Addr} (hpeer : peer ≠ .bcast) :
    (anetWriteCtl (Conv.fresh : Conv ρ) (connectKey ++ fmtAddr peer)).2 =
      { (Conv.fresh : Conv ρ) with state := .connected, peer := peer } := by
  have hgrammar : Grammar (stripped (connectKey ++ fmtAddr peer)) (.connect peer) :=
    (stripped_connect peer).symm ▸ .connect peer
  obtain ⟨hregular, htext⟩ := hgrammar.regular
  have hreads := CtlReads.of_regular hregular (Conv.fresh : Conv ρ)
  rw [hreads.effect (.connect peer) (htext.symm ▸ hgrammar) (.inr rfl)]
  exact if_neg hpeer

theorem dialed_connect (h : Dialed ctl n .fresh s) {peer : Addr} (hpeer : peer ≠ .bcast) :
    ∃ s', fileStep s (.write ctl (connectKey ++ fmtAddr peer)) = some s' ∧
      Dialed ctl n { (Conv.fresh : Conv (Reader F)) with state := .connected, peer := peer } s' := by
  unfold fileStep writeFile
  dsimp only
  rw [h.fid]
  refine ⟨_, rfl, h.fid, ?_, rfl, h.linked⟩
  dsimp only
  rw [Function.update_self, h.conv, anetWriteCtl_connect hpeer]

/-- A client walks to `clone` and gets the ctl file of a slot. Whatever the other
clients ask for from then on, as long as they leave that file alone: the text of
the file leads to its conversation, the connect command gives it the peer, and
it is what its files go on to show. -/
theorem dial_by_text {s s₁ s₂ : Server F} {others : List (FileEvent F)} (hroot : s.fids root = some .root)
    (hnew : s.fids ctl = none) (hwalk : s.walk root ctl [cloneName] = some s₁) (hgot : s₁.fids ctl = some (.ctl n))
    (hspares : Along fileStep (Spares ctl n) s₁ others) (hrun : run fileStep s₁ others = some s₂) :
    Reaches ctl root n s₂ ∧
      ∀ peer, peer ≠ .bcast → ∃ s₃, fileStep s₂ (.write ctl (connectKey ++ fmtAddr peer)) = some s₃ ∧
        ∀ later s₄, Along fileStep (Spares ctl n) s₃ later → run fileStep s₃ later = some s₄ →
          Reaches ctl root n s₄ ∧ ∀ info,
            anetText info s₄.fs (.remote n) = some (fmtAddr peer ++ [0x0a]) ∧
              anetText info s₄.fs (.status n) = some (connectedText peer) := by
  have hdialed := dialed_run (dialed_clone hroot hwalk hgot hnew) hspares hrun
  refine ⟨hdialed.reaches, fun peer hpeer => ?_⟩
  obtain ⟨s₃, hwrite, hconnected⟩ := dialed_connect hdialed hpeer
  refine ⟨s₃, hwrite, fun later s₄ hlater hrun => ?_⟩
  have hend := dialed_run hconnected hlater hrun
  refine ⟨hend.reaches, fun info => ?_⟩
  simp only [anetText, remoteText, statusText, hend.conv, if_true, and_self]

/-- Another client gets a conversation of its own in between, announces it and
lets go of it; and again behind the connect command. -/
theorem dial_by_text_beside :
    let peer : Addr := ⟨[2, 0, 0, 0, 0, 7], rfl⟩
    let others : List (FileEvent Nat) := [.name (.attach 5), .name (.walk 5 6 [cloneName]), .write 6 announceKey,
      .name (.clunk 6)]
    let later : List (FileEvent Nat) := [.name (.walk 5 6 [cloneName]), .write 6 announceKey]
    ∃ s s₁ s₂ s₃ s₄ : Server Nat, s.walk 0 1 [cloneName] = some s₁ ∧ run fileStep s₁ others = some s₂ ∧
      Reaches 1 0 .first s₂ ∧ fileStep s₂ (.write 1 (connectKey ++ fmtAddr peer)) = some s₃ ∧
      run fileStep s₃ later = some s₄ ∧ Reaches 1 0 .first s₄ ∧
      ∀ info, anetText info s₄.fs (.status .first) = some (connectedText peer) := by
  intro peer others later
  let s := ((Server.init : Server Nat).attach 0).get rfl
  let s₁ := (s.walk 0 1 [cloneName]).get rfl
  have hspares : Along fileStep (Spares 1 .first) s₁ others := by decide
  have hwalk : s.walk 0 1 [cloneName] = some s₁ := rfl
  obtain ⟨s₂, hrun, s₃, hwrite, hlater, s₄, hrunLater⟩ : ∃ s₂, run fileStep s₁ others = some s₂ ∧
      ∃ s₃, fileStep s₂ (.write 1 (connectKey ++ fmtAddr peer)) = some s₃ ∧
        Along fileStep (Spares 1 .first) s₃ later ∧ ∃ s₄, run fileStep s₃ later = some s₄ :=
    ⟨_, rfl, _, rfl, by decide, _, rfl⟩
  have hroot : s.fids 0 = some .root := rfl
  obtain ⟨hreaches, hconnects⟩ := dial_by_text hroot rfl hwalk rfl hspares hrun
  obtain ⟨s₃', hwrite', hshows⟩ := hconnects peer (by decide)
  obtain rfl : s₃' = s₃ := Option.some.inj (hwrite'.symm.trans hwrite)
  obtain ⟨hreaches', htexts⟩ := hshows later s₄ hlater hrunLater
  exact ⟨s, s₁, s₂, _, s₄, hwalk, hrun, hreaches, hwrite, hrunLater, hreaches', fun info => (htexts info).2⟩

end DectMesh.Tools
