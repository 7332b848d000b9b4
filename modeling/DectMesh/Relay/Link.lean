import Mathlib.Data.List.Basic

/-! The relay's 9P session with the 9151. `mesh_sess` is held over a whole
re-attach, so that each section it guards is one step here. -/
namespace DectMesh.Relay

/-- `mesh_attached`, `mesh_versioned` and `mesh_root_fid`. -/
structure Link where
  attached : Bool
  versioned : Bool
  rootFid : Nat
  deriving DecidableEq

/-- What the three RPCs of a re-attach come to: the Tattach that keeps the
9151's fids, and the Tversion with the Tattach behind it. -/
structure Handshake where
  reattach : Option Nat
  version : Bool
  attach : Option Nat
  deriving DecidableEq

/-- The `attached:` label. -/
def Link.attach (link : Link) (root : Nat) : Option Nat × Link :=
  (some root, { link with attached := true, rootFid := root })

def Link.negotiate (link : Link) (h : Handshake) : Option Nat × Link :=
  if h.version then
    match h.attach with
    | some root => { link with versioned := true }.attach root
    | none => (none, { link with versioned := true })
  else (none, link)

/-- The root fid, or `none` for a negative result. -/
def meshEnsureAttached (h : Handshake) (link : Link) : Option Nat × Link :=
  if link.attached then (some link.rootFid, link)
  else if link.versioned then
    match h.reattach with
    | some root => link.attach root
    | none => { link with versioned := false }.negotiate h
  else link.negotiate h

/-- `mesh_remote_down`, and the drop after a failed walk or a reboot. -/
def Link.drop (link : Link) : Link := { link with attached := false }

/-- `mesh_host_disconnected` -/
def Link.reset (link : Link) : Link := { link with attached := false, versioned := false }

def Handshake.succeeds (h : Handshake) (link : Link) : Bool :=
  (link.versioned && h.reattach.isSome) || (h.version && h.attach.isSome)

@[simp] theorem Link.drop_attached (link : Link) : link.drop.attached = false := rfl

theorem Link.negotiate_attached {link : Link} {h : Handshake} (hdown : link.attached = false) :
    (link.negotiate h).2.attached = (h.version && h.attach.isSome) ∧
      (link.negotiate h).1.isSome = (h.version && h.attach.isSome) := by
  unfold Link.negotiate
  cases h.version with
  | false => exact ⟨hdown, rfl⟩
  | true =>
    cases h.attach with
    | none => exact ⟨hdown, rfl⟩
    | some root => exact ⟨rfl, rfl⟩

theorem ensureAttached_up {h : Handshake} {link : Link} (hup : link.attached = true) :
    meshEnsureAttached h link = (some link.rootFid, link) := if_pos hup

theorem ensureAttached_down {h : Handshake} {link : Link} (hdown : link.attached = false) :
    (meshEnsureAttached h link).2.attached = h.succeeds link ∧
      (meshEnsureAttached h link).1.isSome = h.succeeds link := by
  have hnot : ¬ link.attached = true := by rw [hdown]; decide
  unfold meshEnsureAttached Handshake.succeeds
  rw [if_neg hnot]
  cases hv : link.versioned with
  | false => exact Link.negotiate_attached hdown
  | true =>
    cases h.reattach with
    | some root => exact ⟨rfl, rfl⟩
    | none => exact Link.negotiate_attached hdown

theorem ensureAttached_isSome (h : Handshake) (link : Link) :
    (meshEnsureAttached h link).1.isSome = (meshEnsureAttached h link).2.attached := by
  cases hup : link.attached with
  | true => rw [ensureAttached_up hup]; exact hup.symm
  | false => rw [(ensureAttached_down hup).1, (ensureAttached_down hup).2]

end DectMesh.Relay
