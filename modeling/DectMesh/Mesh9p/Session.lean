import DectMesh.Aether.Drain
import DectMesh.Aether.Push
import DectMesh.Lib.Unwinding
import Mathlib.Data.List.DropRight
import Mathlib.Data.Setoid.Basic

/-! Sessions on the mesh server. The node has one `ninep_server` for the mesh,
so the requests of all peers meet one fid table and one file tree, and a
Tversion of any of them clears the table. -/
namespace DectMesh.Mesh9p

open DectMesh.Lib

inductive Request where
  | version
  | attach (fid : Nat)
  | walk (fid newfid : Nat) (names : List (List UInt8))
  | opens (fid : Nat) (mode : UInt8)
  | read (fid offset count : Nat)
  | write (fid offset : Nat) (data : List UInt8)
  | stat (fid : Nat)
  | clunk (fid : Nat)
  deriving DecidableEq

def Request.fids : Request → List Nat
  | .version => []
  | .attach fid | .opens fid _ | .read fid _ _ | .write fid _ _ | .stat fid | .clunk fid => [fid]
  | .walk fid newfid _ => [fid, newfid]

variable {Node Files Reply : Type}

abbrev FidTable (Node : Type) := Nat → Option Node

/-- One `ninep_server` instance: a request handler over a fid table and the
files it serves. Tversion clears the table; any other request depends on and
changes only the entries of the fids it names. -/
structure NinepServer (Node Files Reply : Type) where
  handle : Request → FidTable Node → Files → Reply × FidTable Node × Files
  version_reply : ∀ fids fids' files files',
    (handle .version fids files).1 = (handle .version fids' files').1
  version_clears : ∀ fids files, (handle .version fids files).2 = (fun _ => none, files)
  others_kept : ∀ req fids files fid, req ≠ .version → fid ∉ req.fids →
    (handle req fids files).2.1 fid = fids fid
  named_only : ∀ req fids fids' files, req ≠ .version → (∀ fid ∈ req.fids, fids fid = fids' fid) →
    (handle req fids files).1 = (handle req fids' files).1 ∧
      (∀ fid ∈ req.fids, (handle req fids files).2.1 fid = (handle req fids' files).2.1 fid) ∧
      (handle req fids files).2.2 = (handle req fids' files).2.2

abbrev Served (Node Files : Type) := FidTable Node × Files

/-- `mesh9p_work_fn` calls the server with one request after the other; which
session a request belongs to is not among the arguments. -/
def serveNext {ι : Type} (server : NinepServer Node Files Reply) (s : Served Node Files)
    (label : ι × Request) : Reply × Served Node Files :=
  server.handle label.2 s.1 s.2

section

variable {ι : Type} [DecidableEq ι]

def sessionView (server : NinepServer Node Files Reply) (me : ι) (s : Served Node Files)
    (labels : List (ι × Request)) : List Reply × Served Node Files :=
  view (serveNext server) (fun label => label.1 = me) s labels

def own (me : ι) (labels : List (ι × Request)) : List (ι × Request) := labels.filter fun label => label.1 = me

def untilLast (me : ι) (labels : List (ι × Request)) : List (ι × Request) :=
  labels.rdropWhile fun label => label.1 ≠ me

def begins (me : ι) (_ : Served Node Files) (label : ι × Request) (begun : Bool) : Bool := begun || label.1 = me

def sessionRun (server : NinepServer Node Files Reply) (me : ι) :
    Served Node Files × Bool → ι × Request → Option (Served Node Files × Bool) :=
  viewed (serveNext server) (begins me)

def Named (me : ι) (labels : List (ι × Request)) (fid : Nat) : Prop :=
  ∃ label ∈ labels, label.1 = me ∧ fid ∈ label.2.fids

instance (me : ι) (labels : List (ι × Request)) (fid : Nat) : Decidable (Named me labels fid) :=
  inferInstanceAs (Decidable (∃ label ∈ labels, _))

/-- The replies of the session, and what its fids stand for at each of its
requests, are as if no other session had sent anything. -/
def Isolated (server : NinepServer Node Files Reply) (me : ι) (s : Served Node Files)
    (labels : List (ι × Request)) : Prop :=
  (sessionView server me s labels).1 = (sessionView server me s (own me labels)).1 ∧
    ∀ past req later, labels = past ++ (me, req) :: later → ∀ fid, Named me labels fid →
      (sessionView server me s (past ++ [(me, req)])).2.1 fid =
        (sessionView server me s (own me (past ++ [(me, req)]))).2.1 fid

def SeesOnly (server : NinepServer Node Files Reply) (same : Setoid Files) (s : Served Node Files)
    (req : Request) : Prop :=
  ∀ files, same.r s.2 files →
    (server.handle req s.1 s.2).1 = (server.handle req s.1 files).1 ∧
      (∀ fid ∈ req.fids, (server.handle req s.1 s.2).2.1 fid = (server.handle req s.1 files).2.1 fid) ∧
      same.r (server.handle req s.1 s.2).2.2 (server.handle req s.1 files).2.2

/-- The session begins with a Tversion. From then on no other session sends one or
names a fid in `mine`, and what others do to the files is nothing that the
requests of the session see. -/
def Apart (server : NinepServer Node Files Reply) (same : Setoid Files) (me : ι) (mine : Nat → Prop)
    (t : Served Node Files × Bool) (label : ι × Request) : Prop :=
  if label.1 = me then (label.2 = .version ∨ t.2 = true) ∧ SeesOnly server same t.1 label.2
  else same.r t.1.2 (server.handle label.2 t.1.1 t.1.2).2.2 ∧
    (t.2 = true → label.2 ≠ .version ∧ ∀ fid ∈ label.2.fids, ¬ mine fid)

def SameFor (same : Setoid Files) (mine : Nat → Prop) (begun : Bool) (s t : Served Node Files) : Prop :=
  (begun = true → ∀ fid, mine fid → s.1 fid = t.1 fid) ∧ same.r s.2 t.2

variable {server : NinepServer Node Files Reply} {same : Setoid Files} {me : ι} {mine : Nat → Prop}

theorem sameFor_own (s t : Served Node Files) (begun : Bool) (label : ι × Request)
    (h : SameFor same mine begun s t) (hapart : Apart server same me mine (s, begun) label) (hme : label.1 = me)
    (hmine : ∀ fid ∈ label.2.fids, mine fid) :
    (serveNext server s label).1 = (serveNext server t label).1 ∧
      SameFor same mine (begins me s label begun) (serveNext server s label).2 (serveNext server t label).2 := by
  obtain ⟨hfids, hfiles⟩ := h
  obtain ⟨hbegun, hsees⟩ := (if_pos hme).mp hapart
  unfold serveNext
  by_cases hversion : label.2 = .version
  · rw [hversion]
    refine ⟨server.version_reply _ _ _ _, fun _ fid _ => ?_, ?_⟩
    · rw [server.version_clears, server.version_clears]
    · rw [server.version_clears, server.version_clears]
      exact hfiles
  · have hsame := hfids (hbegun.resolve_left hversion)
    -- first the files change, then the table
    obtain ⟨hreply, hentries, hkept⟩ := hsees t.2 hfiles
    obtain ⟨hreply', hentries', hkept'⟩ :=
      server.named_only label.2 s.1 t.1 t.2 hversion fun fid hfid => hsame fid (hmine fid hfid)
    refine ⟨hreply.trans hreply', fun _ fid hfid => ?_, hkept' ▸ hkept⟩
    by_cases hnamed : fid ∈ label.2.fids
    · exact (hentries fid hnamed).trans (hentries' fid hnamed)
    · rw [server.others_kept _ _ _ _ hversion hnamed, server.others_kept _ _ _ _ hversion hnamed]
      exact hsame fid hfid

theorem sameFor_other (s t : Served Node Files) (begun : Bool) (label : ι × Request)
    (h : SameFor same mine begun s t) (hapart : Apart server same me mine (s, begun) label) (hother : label.1 ≠ me) :
    SameFor same mine (begins me s label begun) (serveNext server s label).2 t := by
  obtain ⟨hfids, hfiles⟩ := h
  obtain ⟨hquiet, hkeeps⟩ := (if_neg hother).mp hapart
  refine ⟨fun hbegun fid hfid => ?_, same.trans (same.symm hquiet) hfiles⟩
  have hbefore : begun = true := by simpa [begins, hother] using hbegun
  obtain ⟨hversion, hnot⟩ := hkeeps hbefore
  unfold serveNext
  rw [server.others_kept _ _ _ _ hversion fun hnamed => hnot fid hnamed hfid]
  exact hfids hbefore fid hfid

theorem apart_upTo {s : Served Node Files} {past : List (ι × Request)} {req : Request}
    (hmine : ∀ fid, Named me (past ++ [(me, req)]) fid → mine fid)
    (hapart : Along (sessionRun server me) (Apart server same me mine) (s, false) (past ++ [(me, req)])) :
    (sessionView server me s (past ++ [(me, req)])).1 = (sessionView server me s (own me (past ++ [(me, req)]))).1 ∧
      ∀ fid, mine fid → (sessionView server me s (past ++ [(me, req)])).2.1 fid =
        (sessionView server me s (own me (past ++ [(me, req)]))).2.1 fid := by
  have hnamed : Along (sessionRun server me) (fun _ label => label.1 = me → ∀ fid ∈ label.2.fids, mine fid)
      (s, false) (past ++ [(me, req)]) :=
    along_of_mem fun _ label hlabel hme fid hfid => hmine fid ⟨label, hlabel, hme, hfid⟩
  obtain ⟨houts, begun, hrun, hsame⟩ := view_purge
    (fun t label => Apart server same me mine t label ∧ (label.1 = me → ∀ fid ∈ label.2.fids, mine fid))
    (SameFor same mine)
    (fun s t begun label h hgood hme =>
      sameFor_own s t begun label h hgood.1 (of_decide_eq_true hme) (hgood.2 (of_decide_eq_true hme)))
    (fun s t begun label h hgood hother => sameFor_other s t begun label h hgood.1 (of_decide_eq_false hother))
    (show SameFor same mine false s s from ⟨nofun, same.refl s.2⟩) (along_and hapart hnamed)
  refine ⟨houts, hsame.1 ?_⟩
  -- the last step is the session's own
  obtain ⟨mid, -, hlast⟩ := run_append_eq_some.mp hrun
  obtain ⟨next, hnext, hend⟩ := run_cons_eq_some.mp hlast
  cases hend
  have hbegun := (recording_eq_some.mp hnext).2
  rw [hbegun]
  simp [begins]

theorem untilLast_append {past later : List (ι × Request)} {req : Request} :
    past ++ [(me, req)] <+: untilLast me (past ++ (me, req) :: later) := by
  induction later using List.reverseRecOn with
  | nil => simp [untilLast]
  | append_singleton later label ih =>
    have hassoc : past ++ (me, req) :: (later ++ [label]) = (past ++ (me, req) :: later) ++ [label] := by simp
    rw [hassoc, untilLast]
    by_cases hme : label.1 = me
    · rw [List.rdropWhile_concat_neg _ _ _ (by simpa using hme)]
      exact ⟨later ++ [label], by simp⟩
    · rw [List.rdropWhile_concat_pos _ _ _ (by simpa using hme)]
      exact ih

theorem own_others {labels : List (ι × Request)} (h : ∀ label ∈ labels, label.1 ≠ me) : own me labels = [] :=
  List.filter_eq_nil_iff.mpr fun label hlabel => by simpa using h label hlabel

theorem untilLast_split (me : ι) (labels : List (ι × Request)) :
    (∀ label ∈ labels, label.1 ≠ me) ∨
      ∃ past req later, labels = past ++ (me, req) :: later ∧ ∀ label ∈ later, label.1 ≠ me := by
  induction labels with
  | nil => exact .inl fun _ h => absurd h List.not_mem_nil
  | cons label rest ih =>
    rcases ih with hothers | ⟨past, req, later, rfl, hothers⟩
    · by_cases hme : label.1 = me
      · exact .inr ⟨[], label.2, rest, by rw [← hme]; rfl, hothers⟩
      · exact .inl (List.forall_mem_cons.mpr ⟨hme, hothers⟩)
    · exact .inr ⟨label :: past, req, later, rfl, hothers⟩

end

/-! ## A server of two device files -/

inductive DevNode where
  | root
  | dev
  | firmware
  | mflt
  deriving DecidableEq

structure DevFiles where
  image : List UInt8
  batches : List (List UInt8)
  deriving DecidableEq

inductive DevReply where
  | rversion
  | rattach
  | rwalk
  | ropen
  | rread (data : List UInt8)
  | rwrite (count : Nat)
  | rstat
  | rclunk
  | rerror
  deriving DecidableEq

def DevNode.walk : DevNode → List (List UInt8) → Option DevNode
  | node, [] => some node
  | .root, name :: rest => if name = Aether.devName then DevNode.dev.walk rest else none
  | .dev, name :: rest =>
      if name = Aether.firmwareName then DevNode.firmware.walk rest
      else if name = Aether.mfltName then DevNode.mflt.walk rest
      else none
  | _, _ :: _ => none

def DevNode.read (files : DevFiles) : DevNode → List UInt8 × DevFiles
  | .mflt => (files.batches.headD [], { files with batches := files.batches.tail })
  | _ => ([], files)

def DevNode.write (data : List UInt8) (files : DevFiles) : DevNode → DevReply × DevFiles
  | .firmware => (.rwrite data.length, { files with image := files.image ++ data })
  | _ => (.rerror, files)

def devHandle (req : Request) (fids : FidTable DevNode) (files : DevFiles) :
    DevReply × FidTable DevNode × DevFiles :=
  match req with
  | .version => (.rversion, fun _ => none, files)
  | .attach fid =>
      if fids fid = none then (.rattach, Function.update fids fid (some .root), files)
      else (.rerror, fids, files)
  | .walk fid newfid names =>
      match (fids fid).bind (·.walk names) with
      | none => (.rerror, fids, files)
      | some node =>
          if newfid ≠ fid ∧ fids newfid ≠ none then (.rerror, fids, files)
          else (.rwalk, Function.update fids newfid (some node), files)
  | .opens fid _ => (if fids fid = none then .rerror else .ropen, fids, files)
  | .read fid _ _ =>
      match fids fid with
      | none => (.rerror, fids, files)
      | some node => (.rread (node.read files).1, fids, (node.read files).2)
  | .write fid _ data =>
      match fids fid with
      | none => (.rerror, fids, files)
      | some node => ((node.write data files).1, fids, (node.write data files).2)
  | .stat fid => (if fids fid = none then .rerror else .rstat, fids, files)
  | .clunk fid =>
      if fids fid = none then (.rerror, fids, files) else (.rclunk, Function.update fids fid none, files)

theorem devHandle_kept {req : Request} {fids : FidTable DevNode} {files : DevFiles} {fid : Nat}
    (hversion : req ≠ .version) (hnot : fid ∉ req.fids) : (devHandle req fids files).2.1 fid = fids fid := by
  cases req with
  | version => contradiction
  | attach other =>
    have hne : fid ≠ other := by simpa [Request.fids] using hnot
    simp only [devHandle]
    split
    · exact Function.update_of_ne hne _ _
    · rfl
  | walk other newfid names =>
    have hne : fid ≠ newfid := by
      simp only [Request.fids, List.mem_cons, List.not_mem_nil, or_false, not_or] at hnot
      exact hnot.2
    simp only [devHandle]
    split
    · rfl
    · split
      · rfl
      · exact Function.update_of_ne hne _ _
  | opens | stat => rfl
  | read other => simp only [devHandle]; split <;> rfl
  | write other => simp only [devHandle]; split <;> rfl
  | clunk other =>
    have hne : fid ≠ other := by simpa [Request.fids] using hnot
    simp only [devHandle]
    split
    · rfl
    · exact Function.update_of_ne hne _ _

theorem devHandle_named {req : Request} {fids fids' : FidTable DevNode} {files : DevFiles}
    (hversion : req ≠ .version) (hsame : ∀ fid ∈ req.fids, fids fid = fids' fid) :
    (devHandle req fids files).1 = (devHandle req fids' files).1 ∧
      (∀ fid ∈ req.fids, (devHandle req fids files).2.1 fid = (devHandle req fids' files).2.1 fid) ∧
      (devHandle req fids files).2.2 = (devHandle req fids' files).2.2 := by
  cases req with
  | version => contradiction
  | attach fid | read fid | write fid | clunk fid =>
    have hfid := hsame fid (by simp [Request.fids])
    simp only [devHandle, Request.fids, List.mem_singleton, forall_eq, hfid]
    split <;> simp [hfid]
  | opens fid | stat fid =>
    have hfid := hsame fid (by simp [Request.fids])
    simp [devHandle, Request.fids, hfid]
  | walk fid newfid names =>
    have hfid := hsame fid (by simp [Request.fids])
    have hnew := hsame newfid (by simp [Request.fids])
    simp only [devHandle, hfid, hnew]
    split
    · exact ⟨rfl, hsame, rfl⟩
    · split
      · exact ⟨rfl, hsame, rfl⟩
      · refine ⟨rfl, fun other hother => ?_, rfl⟩
        change Function.update fids newfid _ other = Function.update fids' newfid _ other
        by_cases heq : other = newfid
        · rw [heq, Function.update_self, Function.update_self]
        · rw [Function.update_of_ne heq, Function.update_of_ne heq]
          exact hsame other hother

def devServer : NinepServer DevNode DevFiles DevReply where
  handle := devHandle
  version_reply := fun _ _ _ _ => rfl
  version_clears := fun _ _ => rfl
  others_kept := fun _ _ _ _ => devHandle_kept
  named_only := fun _ _ _ _ => devHandle_named

def openDevfile (file : List UInt8) (mode : UInt8) : List Request :=
  [.version, .attach 0, .walk 0 2 [Aether.devName, file], .opens 2 mode]

def pushUnderDrain : List (Nat × Request) :=
  (openDevfile Aether.firmwareName 1).map (fun req => (0, req)) ++ [(1, .version), (0, .write 2 0 [7])]

def sameImage : Setoid DevFiles := Setoid.ker DevFiles.image

theorem DevNode.read_image (files : DevFiles) (node : DevNode) : (node.read files).2.image = files.image := by
  cases node <;> rfl

/-- Without a fid on `dev/mflt` a request sees nothing but the image. -/
theorem devHandle_sees_image {s : Served DevNode DevFiles} {req : Request}
    (hmflt : ∀ fid ∈ req.fids, s.1 fid ≠ some .mflt) : SeesOnly devServer sameImage s req := by
  obtain ⟨fids, files⟩ := s
  intro files' himage
  change files.image = files'.image at himage
  change (devHandle req fids files).1 = (devHandle req fids files').1 ∧
    (∀ fid ∈ req.fids, (devHandle req fids files).2.1 fid = (devHandle req fids files').2.1 fid) ∧
    (devHandle req fids files).2.2.image = (devHandle req fids files').2.2.image
  cases req with
  | version | opens | stat => exact ⟨rfl, fun _ _ => rfl, himage⟩
  | attach | walk | clunk =>
    simp only [devHandle]
    repeat' split
    all_goals exact ⟨rfl, fun _ _ => rfl, himage⟩
  | read fid =>
    have hnode := hmflt fid (by simp [Request.fids])
    simp only [devHandle]
    split
    · exact ⟨rfl, fun _ _ => rfl, himage⟩
    · rename_i node hfid
      cases node with
      | mflt => exact absurd hfid hnode
      | root | dev | firmware => exact ⟨rfl, fun _ _ => rfl, himage⟩
  | write fid =>
    simp only [devHandle]
    split
    · exact ⟨rfl, fun _ _ => rfl, himage⟩
    · rename_i node hfid
      cases node with
      | firmware => exact ⟨rfl, fun _ _ => rfl, congrArg (· ++ _) himage⟩
      | root | dev | mflt => exact ⟨rfl, fun _ _ => rfl, himage⟩

/-- Without a fid on `dev/firmware` a request leaves the image. -/
theorem devHandle_keeps_image {s : Served DevNode DevFiles} {req : Request}
    (hfirmware : ∀ fid ∈ req.fids, s.1 fid ≠ some .firmware) :
    (devHandle req s.1 s.2).2.2.image = s.2.image := by
  cases req with
  | version | opens | stat => rfl
  | attach | walk | clunk =>
    simp only [devHandle]
    repeat' split
    all_goals rfl
  | read fid =>
    simp only [devHandle]
    split
    · rfl
    · exact DevNode.read_image _ _
  | write fid =>
    have hnode := hfirmware fid (by simp [Request.fids])
    simp only [devHandle]
    split
    · rfl
    · rename_i node hfid
      cases node with
      | firmware => exact absurd hfid hnode
      | root | dev | mflt => rfl

/-- Session 0 pushes; the others have no fid on `dev/firmware`. -/
def PushApart (mine : Nat → Prop) (t : Served DevNode DevFiles × Bool) (label : Nat × Request) : Prop :=
  if label.1 = 0 then (label.2 = .version ∨ t.2 = true) ∧ ∀ fid ∈ label.2.fids, t.1.1 fid ≠ some .mflt
  else (∀ fid ∈ label.2.fids, t.1.1 fid ≠ some .firmware) ∧
    (t.2 = true → label.2 ≠ .version ∧ ∀ fid ∈ label.2.fids, ¬ mine fid)

instance (mine : Nat → Prop) [DecidablePred mine] (t : Served DevNode DevFiles × Bool) (label : Nat × Request) :
    Decidable (PushApart mine t label) := by
  unfold PushApart
  infer_instance

theorem PushApart.apart {mine : Nat → Prop} {t : Served DevNode DevFiles × Bool} {label : Nat × Request}
    (h : PushApart mine t label) : Apart devServer sameImage 0 mine t label := by
  unfold PushApart at h
  unfold Apart
  split
  · rename_i hme
    rw [if_pos hme] at h
    exact ⟨h.1, devHandle_sees_image h.2⟩
  · rename_i hother
    rw [if_neg hother] at h
    exact ⟨(devHandle_keeps_image h.1).symm, h.2⟩

def drainRequests : List Request := openDevfile Aether.mfltName 0 ++ [.read 2 0 496, .read 2 0 496]

def pushRequests : List Request := openDevfile Aether.firmwareName 1 ++ [.write 2 0 [7], .write 2 1 [8], .clunk 2]

def pushBetweenDrains : List (Nat × Request) :=
  drainRequests.map (fun req => (1, req)) ++ pushRequests.map (fun req => (0, req)) ++
    drainRequests.map (fun req => (2, req))

end DectMesh.Mesh9p
