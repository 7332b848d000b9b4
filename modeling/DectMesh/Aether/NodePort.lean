import DectMesh.Aether.MeshClient

/-! The client's port on the conversation slots themselves: frames go through
`aether_recv_cb`, in the order of a given schedule. -/
namespace DectMesh.Aether

open DectMesh.Lib

/-- The slots, and what the mesh still has in store: the results of the coming
reliable sends and, for each coming wait, the frames received by its end. -/
structure World where
  convs : Convs Unit
  mesh : Bindings
  sends : List Int
  arrivals : List (List Frame)

def World.receive (maxMsg : Nat) (w : World) : World :=
  match w.arrivals with
  | [] => w
  | frames :: later =>
      { w with
        convs := frames.foldl (fun convs f => aetherRecvCb maxMsg w.mesh f convs) w.convs
        arrivals := later }

def nodePort (maxMsg : Nat) : Port World where
  convAlloc := fun w =>
    match convAlloc w.convs with
    | some (n, convs) => (some n, { w with convs := convs })
    | none => (none, w)
  connect := fun n eui w =>
    { w with convs := Function.update w.convs n { w.convs n with peer := eui, state := .connected } }
  convFree := fun n w => { w with convs := convFree n w.convs }
  peer := fun n w => (w.convs n).peer
  euiToAddr := fun eui w => (w.mesh.euiToAddr eui, w)
  sendReliable := fun _ _ w =>
    match w.sends with
    | [] => (-1, w)
    | result :: later => (result, { w with sends := later })
  msgqGet := fun n _ w =>
    let w := w.receive maxMsg
    let (d, rxq) := (w.convs n).rxq.poll
    (d, { w with convs := Function.update w.convs n { w.convs n with rxq := rxq } })

/-- No slot in use, no bindings, every send acknowledged, and in each wait one
datagram of `peer` or none. -/
def World.hearing (peer : Addr) (waits : List (Option (List UInt8))) : World where
  convs := fun _ => .unused
  mesh := ⟨fun _ => none, fun _ => none⟩
  sends := List.replicate waits.length 0
  arrivals := waits.zipIdx.map fun (wait, i) =>
    wait.toList.map fun payload => ⟨peer, payload, false, i + 1⟩

end DectMesh.Aether
