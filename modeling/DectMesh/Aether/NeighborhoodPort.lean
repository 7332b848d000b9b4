import DectMesh.Aether.PeerPort
import DectMesh.Aether.PortSimulation
import Mathlib.Logic.Function.Basic

/-! A node and the neighbours it can ask: each has its own 9P server, and its
replies reach the conversation only while that is connected to it. -/
namespace DectMesh.Aether

open DectMesh.Lib DectMesh.Mesh9p

/-- The slot that an allocation finds, the peer of the conversation, and what is
between the node and each neighbour. -/
structure Neighborhood (S : Type) where
  slot : Option Slot
  bound : Addr
  airs : Addr → Air S

variable {S : Type}

def Neighborhood.put (w : Neighborhood S) (eui : Addr) (a : Air S) : Neighborhood S :=
  { w with bound := eui, airs := Function.update w.airs eui a }

section

variable (maxMsg : Nat) (handle : Addr → Handler S) (plan : Addr → Nat → List Nat)

abbrev neighborPort (eui : Addr) : Port (Air S) := airPort maxMsg (handle eui) (plan eui)

def neighborhoodPort : Port (Neighborhood S) where
  convAlloc := fun w => (w.slot, w)
  connect := fun conv eui w => w.put eui ((neighborPort maxMsg handle plan eui).connect conv eui (w.airs eui))
  convFree := fun _ w => w
  peer := fun conv w => (neighborPort maxMsg handle plan w.bound).peer conv (w.airs w.bound)
  euiToAddr := fun eui w =>
    match (neighborPort maxMsg handle plan w.bound).euiToAddr eui (w.airs w.bound) with
    | (route, a) => (route, w.put w.bound a)
  sendReliable := fun dst msg w =>
    match (neighborPort maxMsg handle plan w.bound).sendReliable dst msg (w.airs w.bound) with
    | (sr, a) => (sr, w.put w.bound a)
  msgqGet := fun conv wait w =>
    match (neighborPort maxMsg handle plan w.bound).msgqGet conv wait (w.airs w.bound) with
    | (got, a) => (got, w.put w.bound a)

end

section

variable (w : Neighborhood S) (eui : Addr) (a b : Air S)

@[simp] theorem Neighborhood.put_bound : (w.put eui a).bound = eui := rfl

@[simp] theorem Neighborhood.put_same : (w.put eui a).airs eui = a := by
  simp [Neighborhood.put]

@[simp] theorem Neighborhood.put_put : (w.put eui a).put eui b = w.put eui b := by
  simp [Neighborhood.put]

theorem Neighborhood.put_other {other : Addr} (h : other ≠ eui) : (w.put eui a).airs other = w.airs other := by
  simp [Neighborhood.put, h]

end

variable {maxMsg : Nat} {handle : Addr → Handler S} {plan : Addr → Nat → List Nat}

/-- A session with one neighbour is a session with it alone: nothing else
around the node moves. -/
theorem neighborhoodPort_simulates (w : Neighborhood S) (eui : Addr) :
    (neighborhoodPort maxMsg handle plan).Simulates (fun now a => now = w.put eui a)
      (neighborPort maxMsg handle plan eui) where
  peer := by
    rintro conv - a rfl
    simp [neighborhoodPort]
  euiToAddr := by
    rintro asked - a rfl
    simp [neighborhoodPort, Agree]
  sendReliable := by
    rintro dst msg - a rfl
    simp [neighborhoodPort, Agree]
  msgqGet := by
    rintro conv wait - a rfl
    simp [neighborhoodPort, Agree]

theorem neighborhoodPort_drain_none (eui : Addr) (cap : Nat) {w : Neighborhood S} (h : w.slot = none) :
    drainPeer (neighborhoodPort maxMsg handle plan) maxMsg eui cap w = ({ Drained.start with total := -28 }, w) := by
  have halloc : (neighborhoodPort maxMsg handle plan).convAlloc w = (none, w) := congrArg (·, w) h
  unfold drainPeer
  rw [halloc]

theorem neighborhoodPort_drain_some (eui : Addr) (cap : Nat) {w : Neighborhood S} {conv : Slot}
    (h : w.slot = some conv) :
    ∃ d a, drainSession (neighborPort maxMsg handle plan eui) maxMsg conv cap { w.airs eui with bound := eui } =
        (d, a) ∧
      drainPeer (neighborhoodPort maxMsg handle plan) maxMsg eui cap w = (d, w.put eui a) := by
  have halloc : (neighborhoodPort maxMsg handle plan).convAlloc w = (some conv, w) := congrArg (·, w) h
  obtain ⟨hd, ha⟩ := drainSession_agree maxMsg (@neighborhoodPort_simulates S maxMsg handle plan w eui) conv cap
    (rfl : w.put eui { w.airs eui with bound := eui } = _)
  refine ⟨_, _, rfl, ?_⟩
  unfold drainPeer
  rw [halloc]
  dsimp only
  exact Prod.ext hd ha

end DectMesh.Aether
