import DectMesh.Aether.CtlGrammar
import DectMesh.Aether.NodeTree
import DectMesh.Lib.Paging
import DectMesh.Telemetry.Stream

/-! The files of `/net/aether` that `anet_read` prints, and what is printed in
them. -/
namespace DectMesh.Aether

open DectMesh.Telemetry (decimalText)

variable {ρ : Type}

structure LinkStats where
  rx : UInt32
  tx : UInt32
  rssi : Int32
  snr : Int32

structure NodeInfo where
  identity : Addr
  maxMsg : Nat
  stats : LinkStats

/-- `"%d/%d\n"` -/
def topstatusText (fs : NetFs ρ) : List UInt8 :=
  decimalText ((List.finRange maxConns).countP fun n => (fs.convs n).inUse) ++ 0x2f :: decimalText maxConns ++ [0x0a]

/-- `"rx %u tx %u rssi %d snr %d\n"` -/
def statsText (s : LinkStats) : List UInt8 :=
  [0x72, 0x78, 0x20] ++ decimalText s.rx.toNat ++ [0x20, 0x74, 0x78, 0x20] ++ decimalText s.tx.toNat ++
    [0x20, 0x72, 0x73, 0x73, 0x69, 0x20] ++ decimalText s.rssi.toInt ++ [0x20, 0x73, 0x6e, 0x72, 0x20] ++
    decimalText s.snr.toInt ++ [0x0a]

/-- `"connected aether!%s reliable\n"` -/
def connectedText (peer : Addr) : List UInt8 :=
  [0x63, 0x6f, 0x6e, 0x6e, 0x65, 0x63, 0x74, 0x65, 0x64, 0x20, 0x61, 0x65, 0x74, 0x68, 0x65, 0x72, 0x21] ++
    fmtAddr peer ++ [0x20, 0x72, 0x65, 0x6c, 0x69, 0x61, 0x62, 0x6c, 0x65, 0x0a]

/-- `"announced\n"`, `"broadcast best-effort\n"` and `"unconnected\n"` are the others. -/
def statusText (c : Conv ρ) : List UInt8 :=
  match c.state with
  | .connected => connectedText c.peer
  | .announced => [0x61, 0x6e, 0x6e, 0x6f, 0x75, 0x6e, 0x63, 0x65, 0x64, 0x0a]
  | .bcast =>
      [0x62, 0x72, 0x6f, 0x61, 0x64, 0x63, 0x61, 0x73, 0x74, 0x20, 0x62, 0x65, 0x73, 0x74, 0x2d, 0x65, 0x66, 0x66, 0x6f,
        0x72, 0x74, 0x0a]
  | .unconnected => [0x75, 0x6e, 0x63, 0x6f, 0x6e, 0x6e, 0x65, 0x63, 0x74, 0x65, 0x64, 0x0a]

def remoteText (c : Conv ρ) : List UInt8 := if c.state = .connected then fmtAddr c.peer ++ [0x0a] else []

/-- `s[0..n)` of `anet_read`. The clone node has no conversation; the
directories, `prove` and the data files are not printed. -/
def anetText (info : NodeInfo) (fs : NetFs ρ) : NodeId → Option (List UInt8)
  | .addr | .localAddr _ => some (fmtAddr info.identity ++ [0x0a])
  | .topstatus => some (topstatusText fs)
  | .stats => some (statsText info.stats)
  | .maxmsg => some (decimalText info.maxMsg ++ [0x0a])
  | .clone => some (decimalText 0 ++ [0x0a])
  | .ctl n => some (decimalText n.val ++ [0x0a])
  | .remote n => some (remoteText (fs.convs n))
  | .status n => some (statusText (fs.convs n))
  | .root | .dir _ | .prove | .data _ => none

def readText (text : List UInt8) (offset count : Nat) : List UInt8 :=
  if text.length ≤ offset then [] else (text.drop offset).take (min count (text.length - offset))

theorem readText_eq (text : List UInt8) (offset count : Nat) :
    readText text offset count = (text.drop offset).take count := by
  unfold readText
  split
  · rename_i hpast
    rw [List.drop_eq_nil_of_le hpast, List.take_nil]
  · rw [← List.length_drop, List.take_eq_take_iff]
    omega

end DectMesh.Aether
