import DectMesh.Aether.Drain

/-! `aether_net_probe_peer`: the handshake of a drain and one Tread, each step
taken only behind the reply type it wants. -/
namespace DectMesh.Aether

open DectMesh.Lib

structure Probed where
  route : Option Addr
  version : Int
  attach : Int
  walk : Int
  opened : Int
  read : Int
  deriving DecidableEq

/-- `(r > 4) ? rbuf[4] : r` -/
def stepType (r : Option (List UInt8)) : Int :=
  match r with
  | some rbuf => if 4 < rbuf.length then (typeOf rbuf).toNat else rbuf.length
  | none => -1

def probeCount (r : Option (List UInt8)) : Int :=
  match r with
  | some rbuf => if isRread rbuf then cInt (rreadCount rbuf) else if 4 < rbuf.length then -(typeOf rbuf).toNat
    else rbuf.length
  | none => -1

section

variable {σ : Type} (port : Port σ) (maxMsg : Nat)

/-- The steps of a probe: each request and the reply type that the next one wants
of it. The results of the steps that are not taken stay -1. -/
def probeSteps (conv : Slot) : List (List UInt8 × UInt8) → σ → List Int × Bool × σ
  | [], w => ([], true, w)
  | (msg, type) :: rest, w =>
      match m9Rpc port conv msg maxMsg w with
      | (r, w) =>
          if replied type r then
            match probeSteps conv rest w with
            | (types, through, w) => (stepType r :: types, through, w)
          else (stepType r :: rest.map (fun _ => -1), false, w)

def probeSession (conv : Slot) (route : Option Addr) (w : σ) : Probed × σ :=
  match probeSteps port maxMsg conv (openRequests maxMsg 1 mfltName 0) w with
  | (types, through, w) =>
      let probed : Probed := ⟨route, types.getD 0 (-1), types.getD 1 (-1), types.getD 2 (-1), types.getD 3 (-1), -1⟩
      if through then
        match m9Rpc port conv (tRead 4 (cUInt (maxMsg - 16))) maxMsg w with
        | (r, w) => ({ probed with read := probeCount r }, w)
      else (probed, w)

def probePeer (eui : Addr) (w : σ) : Option Probed × σ :=
  match port.convAlloc w with
  | (none, w) => (none, w)
  | (some conv, w) =>
      let w := port.connect conv eui w
      let (route, w) := port.euiToAddr (port.peer conv w) w
      let (probed, w) := probeSession port maxMsg conv route w
      (some probed, port.convFree conv w)

end

end DectMesh.Aether
