import DectMesh.Aether.Fids

/-! How long a conversation lives: `anet_clunk` ends it with any fid on its ctl
node, not with the last one. -/
namespace DectMesh.Aether

open DectMesh.Lib

variable {F : Type} [DecidableEq F]

/-- What one request owes every conversation in use: untouched while a fid on
its ctl node is held, and freed with the clunk of the last one. -/
def KeepsLifetime (s : Server F) (event : NameEvent F) : Prop :=
  ∀ s', s.nameStep event = some s' → ∀ n, (s.fs.convs n).inUse = true →
    ((∃ fid, s'.fids fid = some (.ctl n)) → s'.fs.convs n = s.fs.convs n) ∧
    ((∃ fid, s.fids fid = some (.ctl n)) → (∀ fid, s'.fids fid ≠ some (.ctl n)) →
      (∃ fid, event = .clunk fid) → (s'.fs.convs n).inUse = false)

def ClunksSoleCtl (s : Server F) : NameEvent F → Prop
  | .clunk fid => ∀ n, s.fids fid = some (.ctl n) → (s.fs.convs n).inUse = true →
      ∀ other, s.fids other = some (.ctl n) → other = fid
  | _ => True

theorem alloc_keeps {ρ : Type} {fs fs' : NetFs ρ} {m n : Slot} (h : fs.alloc = some (m, fs'))
    (hn : (fs.convs n).inUse = true) : fs'.convs n = fs.convs n := by
  obtain ⟨hfree, hconvs, -⟩ := NetFs.alloc_eq h
  have hne : n ≠ m := by
    rintro rfl
    rw [hfree] at hn
    cases hn
  rw [hconvs, Function.update_of_ne hne]

theorem keepsLifetime_iff (s : Server F) (event : NameEvent F) :
    KeepsLifetime s event ↔ ClunksSoleCtl s event := by
  cases event with
  | attach fid =>
    refine iff_of_true (fun s' hs' n _ => ⟨fun _ => ?_, fun _ _ hclunk => ?_⟩) trivial
    · rw [(Server.attach_eq hs').2.1]
    · obtain ⟨_, hclunk⟩ := hclunk
      cases hclunk
  | walk fid newfid names =>
    refine iff_of_true (fun s' hs' n hn => ⟨fun _ => ?_, fun _ _ hclunk => ?_⟩) trivial
    · rcases (Server.walk_eq hs').1 with hsame | ⟨m, halloc⟩
      · rw [hsame]
      · exact alloc_keeps halloc hn
    · obtain ⟨_, hclunk⟩ := hclunk
      cases hclunk
  | clunk fid =>
    constructor
    · intro hkeeps n hfid hn other hother
      by_contra hne
      have hs' : s.nameStep (.clunk fid) = some
          { s with fs := s.fs.free n, fids := Function.update s.fids fid none } := by
        simp [Server.nameStep, Server.clunk, hfid, anetClunk]
      have hheld : Function.update s.fids fid none other = some (.ctl n) := by
        rw [Function.update_of_ne hne, hother]
      have hkept := (hkeeps _ hs' n hn).1 ⟨other, hheld⟩
      have hfreed := convFree_self s.fs.convs n
      rw [← NetFs.free_convs] at hfreed
      have hstill : ((s.fs.free n).convs n).inUse = true := by
        rw [hkept]
        exact hn
      rw [hfreed] at hstill
      cases hstill
    · intro hsole s' hs' n hn
      obtain ⟨node, hnode, hfs, hfids, -⟩ := Server.clunk_eq hs'
      by_cases hctl : node = .ctl n
      · subst hctl
        have hfreed : (s'.fs.convs n).inUse = false := by
          rw [hfs, anetClunk, NetFs.free_convs]
          exact convFree_self s.fs.convs n
        refine ⟨fun ⟨other, hother⟩ => ?_, fun _ _ _ => hfreed⟩
        -- no ctl fid is left
        rw [hfids] at hother
        by_cases hsame : other = fid
        · rw [hsame, Function.update_self] at hother
          cases hother
        · rw [Function.update_of_ne hsame] at hother
          exact absurd (hsole n hnode hn other hother) hsame
      · have hkept : s'.fs.convs n = s.fs.convs n := by
          rw [hfs]
          cases node with
          | ctl m =>
            have hne : n ≠ m := fun h => hctl (h ▸ rfl)
            rw [anetClunk, NetFs.free_convs, convFree_other hne]
          | _ => rfl
        refine ⟨fun _ => hkept, fun ⟨other, hother⟩ hnone _ => ?_⟩
        have hother' : other ≠ fid := by
          rintro rfl
          rw [hnode] at hother
          exact hctl (Option.some.inj hother)
        refine absurd ?_ (hnone other)
        rw [hfids, Function.update_of_ne hother', hother]

/-- Every run of attaches, walks and clunks: it keeps the lifetime of every
conversation exactly if each clunk of a ctl fid of a conversation in use is the
clunk of the only fid held on that node. -/
theorem run_keeps_lifetime_iff (s : Server F) (events : List (NameEvent F)) :
    Along Server.nameStep KeepsLifetime s events ↔ Along Server.nameStep ClunksSoleCtl s events :=
  ⟨along_mono fun s event => (keepsLifetime_iff s event).mp,
    along_mono fun s event => (keepsLifetime_iff s event).mpr⟩

/-- A second client walks to the ctl file of a cloned conversation and clunks
its fid; the conversation is freed under the first client's. -/
theorem clunk_frees_held_conversation :
    ¬ ∀ events : List (NameEvent Nat), Along Server.nameStep KeepsLifetime .init events := by
  intro hclaim
  obtain ⟨-, hrest⟩ := hclaim [.attach 0, .walk 0 1 [cloneName], .walk 0 2 [[0x30], (NodeId.ctl 0).name],
    .clunk 2]
  obtain ⟨-, hrest⟩ := hrest _ rfl
  obtain ⟨-, hrest⟩ := hrest _ rfl
  obtain ⟨hkeeps, -⟩ := hrest _ rfl
  have hkept := (hkeeps _ rfl 0 (by decide)).1 ⟨1, by decide⟩
  have hinUse := congrArg Conv.inUse hkept
  revert hinUse
  decide

/-- In a run that keeps the lifetimes, a conversation some ctl fid of which is
held after every step is the same at its end. -/
theorem held_conversation_survives {s final : Server F} {events : List (NameEvent F)} {n : Slot}
    (hkeeps : Along Server.nameStep KeepsLifetime s events)
    (hheld : Along Server.nameStep
      (fun t event => ∀ t', t.nameStep event = some t' → ∃ fid, t'.fids fid = some (.ctl n)) s events)
    (hrun : run Server.nameStep s events = some final) (hn : (s.fs.convs n).inUse = true) :
    final.fs.convs n = s.fs.convs n := by
  refine run_invariant (fun t => t.fs.convs n = s.fs.convs n) ?_ rfl (along_and hkeeps hheld) hrun
  intro t event t' hsame hgood hstep
  have hused : (t.fs.convs n).inUse = true := by rw [hsame, hn]
  exact ((hgood.1 t' hstep n hused).1 (hgood.2 t' hstep)).trans hsame

end DectMesh.Aether
