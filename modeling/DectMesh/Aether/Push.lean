import DectMesh.Aether.Reply

/-! The windowed image push: `aether_net_push_open`, `_write` and `_close` over
one held session. `fuel` bounds the loops that only the mesh ends; `none` is a
call that has not returned within it. -/
namespace DectMesh.Aether

open DectMesh.Lib

/-- `g_push` -/
structure Push where
  conv : Option Slot
  fid : Nat
  tag : Nat
  woff : Nat
  outstanding : Nat
  active : Bool
  deriving DecidableEq

def Push.idle : Push := ⟨none, 0, 0, 0, 0, false⟩

def firmwareName : List UInt8 := [0x66, 0x69, 0x72, 0x6d, 0x77, 0x61, 0x72, 0x65]

section

variable {σ : Type} (port : Port σ) (maxMsg : Nat)

/-- Take replies off the queue, whatever they say, and slide the window. Only
the first read waits. -/
def pushReap (conv : Slot) : Nat → Nat → Nat → σ → Option (Nat × σ)
  | 0, _, _, _ => none
  | fuel + 1, wait, outstanding, w =>
      match port.msgqGet conv wait w with
      | (none, w) => some (outstanding, w)
      | (some _, w) => pushReap conv fuel 0 (outstanding - 1) w

def dropStale (g : Push) (w : σ) : Push × σ :=
  if g.active then
    ({ g with active := false, conv := none }, match g.conv with
      | some conv => port.convFree conv w
      | none => w)
  else (g, w)

/-- The step number of `m9OpenDevfile`, or -28 without a free slot. -/
def pushOpen (eui : Addr) (g : Push) (w : σ) : Int × Push × σ :=
  match dropStale port g w with
  | (g, w) =>
      match port.convAlloc w with
      | (none, w) => (-28, g, w)
      | (some conv, w) =>
          match m9OpenDevfile port maxMsg conv 1 firmwareName 1 (port.connect conv eui w) with
          | (step, tag, w) =>
              if step < 0 then (step, { g with tag := tag }, port.convFree conv w)
              else (0, ⟨some conv, 2, tag, 0, 0, true⟩, w)

/-- The attempts to get one Twrite acknowledged, each with a tag of its own. The
result is the last send's and the next tag. -/
def pushChunk (conv : Slot) (route : Option Addr) (fid offset : Nat) (data : List UInt8) :
    Nat → Int → Nat → σ → Int × Nat × σ
  | 0, sr, tag, w => (sr, tag, w)
  | attempts + 1, sr, tag, w =>
      if sr < 0 then
        match port.sendReliable (route.getD (port.peer conv w)) (tWrite tag fid offset data) w with
        | (sr, w) => pushChunk conv route fid offset data attempts sr (tag + 1) w
      else (sr, tag, w)

def pushMaxData : Nat := min (cUInt (maxMsg - 23)) 384

def pushLoop (fuel : Nat) (conv : Slot) (route : Option Addr) :
    Nat → Nat → List UInt8 → Push → σ → Option (Bool × Push × σ)
  | 0, _, _, _, _ => none
  | rounds + 1, offset, left, g, w =>
      if left = [] then some (true, g, w)
      else
        match pushChunk port conv route g.fid offset (left.take (pushMaxData maxMsg)) 12 (-1) g.tag w with
        | (sr, tag, w) =>
            if sr < 0 then some (false, { g with tag := tag }, w)
            else
              match pushReap port conv fuel 0 g.outstanding w with
              | none => none
              | some (outstanding, w) =>
                  pushLoop fuel conv route rounds (offset + (left.take (pushMaxData maxMsg)).length)
                    (left.drop (pushMaxData maxMsg)) { g with tag := tag, outstanding := outstanding } w

/-- The bytes accepted, -5 after a chunk that nobody acknowledged, -32 without a
session. -/
def pushWrite (fuel : Nat) (buf : List UInt8) (offset : Nat) (g : Push) (w : σ) : Option (Int × Push × σ) :=
  match g.active, g.conv with
  | true, some conv =>
      match port.euiToAddr (port.peer conv w) w with
      | (route, w) =>
          match pushLoop port maxMsg fuel conv route fuel offset buf g w with
          | none => none
          | some (true, g, w) => some (buf.length, { g with woff := offset + buf.length }, w)
          | some (false, g, w) => some (-5, g, w)
  | _, _ => some (-32, g, w)

def pushSettle (fuel : Nat) (conv : Slot) : Nat → Nat → σ → Option (Nat × σ)
  | 0, outstanding, w => some (outstanding, w)
  | rounds + 1, outstanding, w =>
      if 0 < outstanding then
        match pushReap port conv fuel 500 outstanding w with
        | none => none
        | some (outstanding, w) => pushSettle fuel conv rounds outstanding w
      else some (outstanding, w)

def pushClose (fuel : Nat) (g : Push) (w : σ) : Option (Int × Push × σ) :=
  match g.active, g.conv with
  | true, some conv =>
      match pushSettle port fuel conv 16 g.outstanding w with
      | none => none
      | some (outstanding, w) =>
          let (_, w) := m9Rpc port conv (tClunk g.tag g.fid) maxMsg w
          some (0, { g with conv := none, tag := g.tag + 1, outstanding := outstanding, active := false },
            port.convFree conv w)
  | _, _ => some (-32, g, w)

def pushWrites (fuel : Nat) : List (Nat × List UInt8) → Push → σ → Option (List Int × Push × σ)
  | [], g, w => some ([], g, w)
  | (offset, buf) :: later, g, w =>
      match pushWrite port maxMsg fuel buf offset g w with
      | none => none
      | some (result, g, w) =>
          match pushWrites fuel later g w with
          | none => none
          | some (results, g, w) => some (result :: results, g, w)

def pushSession (fuel : Nat) (eui : Addr) (writes : List (Nat × List UInt8)) (g : Push) (w : σ) :
    Option (Int × List Int × Int × Push × σ) :=
  match pushOpen port maxMsg eui g w with
  | (opened, g, w) =>
      match pushWrites port maxMsg fuel writes g w with
      | none => none
      | some (results, g, w) =>
          match pushClose port maxMsg fuel g w with
          | none => none
          | some (closed, g, w) => some (opened, results, closed, g, w)

end

end DectMesh.Aether
