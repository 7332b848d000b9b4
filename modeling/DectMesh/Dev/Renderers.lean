import DectMesh.Aether.CtlGrammar
import DectMesh.Lib.Printing
import DectMesh.Telemetry.Stream
import Mathlib.Data.Nat.Digits.Lemmas

/-! The node's state files, rendered at offset 0 into static buffers by prints
that move the cursor by the length of the whole text. -/
namespace DectMesh.Dev

open DectMesh.Lib DectMesh.Aether DectMesh.Telemetry

structure Neighbor where
  active : Bool
  addr : Addr
  nodeEui : Addr
  rssi : Int
  snr : Int
  lastSeen : UInt32

structure Route where
  active : Bool
  dest : Addr
  nextHop : Addr
  hopCount : Int

structure MeshCtx where
  honrAddr : UInt16
  honrJoined : Bool
  honrChildBitmap : Nat
  neighbors : List Neighbor
  routes : List Route

structure Honr where
  rank : UInt16 → UInt8
  isRoot : UInt16 → Bool
  parent : UInt16 → Nat
  setNibble : UInt16 → UInt8 → UInt8 → Nat
  childMin : Nat
  childMax : Nat

def emit (sz off : Nat) (bytes : List UInt8) : List UInt8 :=
  ((bytes.takeWhile (· ≠ 0)).drop off).take sz

def page {cap : Nat} (render : Sheet cap → Sheet cap) (buf : Sheet cap) (sz off : Nat) : List UInt8 × Sheet cap :=
  let buf := if off = 0 then render buf.rewind else buf.rewind
  (emit sz off buf.bytes, buf)

/-- `"%0*x"` -/
def hexPad (width v : Nat) : List UInt8 :=
  List.replicate (width - (Nat.digits 16 v).length) 0x30 ++ (Nat.digits 16 v).reverse.map hexChar

/-! ## The lines -/

def Neighbor.age (n : Neighbor) (uptime : UInt32) : Nat := ((uptime - n.lastSeen) / 1000).toNat

/-- `"%02x:%02x identity %02x:%02x:%02x:%02x:%02x:%02x rssi %d snr %d age %us\n"` -/
def neighborLine (uptime : UInt32) (n : Neighbor) : List UInt8 :=
  colonHex (n.addr.bytes.drop 4) ++ [0x20, 0x69, 0x64, 0x65, 0x6e, 0x74, 0x69, 0x74, 0x79, 0x20] ++
    fmtAddr n.nodeEui ++ [0x20, 0x72, 0x73, 0x73, 0x69, 0x20] ++ decimalText n.rssi ++
    [0x20, 0x73, 0x6e, 0x72, 0x20] ++ decimalText n.snr ++ [0x20, 0x61, 0x67, 0x65, 0x20] ++
    decimalText (n.age uptime) ++ [0x73, 0x0a]

/-- `"%02x:%02x via %02x:%02x hops %d\n"` -/
def routeLine (r : Route) : List UInt8 :=
  colonHex (r.dest.bytes.drop 4) ++ [0x20, 0x76, 0x69, 0x61, 0x20] ++ colonHex (r.nextHop.bytes.drop 4) ++
    [0x20, 0x68, 0x6f, 0x70, 0x73, 0x20] ++ decimalText r.hopCount ++ [0x0a]

def stateWord (root joined : Bool) : List UInt8 :=
  if root then [0x72, 0x6f, 0x6f, 0x74]
  else if joined then [0x6a, 0x6f, 0x69, 0x6e, 0x65, 0x64]
  else [0x75, 0x6e, 0x6a, 0x6f, 0x69, 0x6e, 0x65, 0x64]

/-- `"node %04x\nrank %u\nstate %s\nnodeid %08x\n"` -/
def nodeLines (addr : UInt16) (rank : UInt8) (state : List UInt8) (nodeId : UInt32) : List UInt8 :=
  [0x6e, 0x6f, 0x64, 0x65, 0x20] ++ hexPad 4 addr.toNat ++ [0x0a, 0x72, 0x61, 0x6e, 0x6b, 0x20] ++
    decimalText rank.toNat ++ [0x0a, 0x73, 0x74, 0x61, 0x74, 0x65, 0x20] ++ state ++
    [0x0a, 0x6e, 0x6f, 0x64, 0x65, 0x69, 0x64, 0x20] ++ hexPad 8 nodeId.toNat ++ [0x0a]

/-- `"parent %04x\n"` -/
def parentLine (parent : Nat) : List UInt8 := [0x70, 0x61, 0x72, 0x65, 0x6e, 0x74, 0x20] ++ hexPad 4 parent ++ [0x0a]

/-- `"child %04x\n"` -/
def childLine (child : Nat) : List UInt8 := [0x63, 0x68, 0x69, 0x6c, 0x64, 0x20] ++ hexPad 4 child ++ [0x0a]

/-! ## The renderers -/

def neighborEntry (uptime : Nat → UInt32) (entry : Neighbor × Nat) : Option (List UInt8) :=
  if entry.1.active then some (neighborLine (uptime entry.2) entry.1) else none

def routeEntry (r : Route) : Option (List UInt8) := if r.active then some (routeLine r) else none

def neighborTable (c : Option MeshCtx) : List (Neighbor × Nat) := ((c.map (·.neighbors)).getD []).zipIdx

def routeTable (c : Option MeshCtx) : List Route := (c.map (·.routes)).getD []

def renderNeighbors (uptime : Nat → UInt32) (c : Option MeshCtx) (nb : Sheet 512) : Sheet 512 :=
  nb.clear.printEach (neighborEntry uptime) (neighborTable c)

def genNeighbors (uptime : Nat → UInt32) (c : Option MeshCtx) (nb : Sheet 512) (sz off : Nat) :
    List UInt8 × Sheet 512 :=
  page (renderNeighbors uptime c) nb sz off

def renderRoutes (c : Option MeshCtx) (rb : Sheet 512) : Sheet 512 := rb.clear.printEach routeEntry (routeTable c)

def genRoutes (c : Option MeshCtx) (rb : Sheet 512) (sz off : Nat) : List UInt8 × Sheet 512 :=
  page (renderRoutes c) rb sz off

section

variable (honr : Honr) (nodeId : UInt32)

def treeAddr (c : Option MeshCtx) : UInt16 := (c.map (·.honrAddr)).getD 0

def treeState (c : Option MeshCtx) : List UInt8 :=
  stateWord (honr.isRoot (treeAddr c)) ((c.map (·.honrJoined)).getD false)

def treeHead (c : Option MeshCtx) : List UInt8 :=
  nodeLines (treeAddr c) (honr.rank (treeAddr c)) (treeState honr c) nodeId

def treeParent (c : MeshCtx) : Option (List UInt8) :=
  if c.honrJoined ∧ honr.isRoot c.honrAddr = false then some (parentLine (honr.parent c.honrAddr)) else none

def treeChild (c : MeshCtx) (n : Nat) : Option (List UInt8) :=
  if c.honrChildBitmap.testBit n then
    some (childLine (honr.setNibble c.honrAddr (honr.rank c.honrAddr) (UInt8.ofNat n)))
  else none

def childNumbers : List Nat := List.range' honr.childMin (honr.childMax + 1 - honr.childMin)

def renderTree (c : Option MeshCtx) (tb : Sheet 256) : Sheet 256 :=
  let tb := tb.print (treeHead honr nodeId c)
  match c with
  | none => tb
  | some c => (tb.printSome (treeParent honr c)).printEach (treeChild honr c) (childNumbers honr)

def genTree (c : Option MeshCtx) (tb : Sheet 256) (sz off : Nat) : List UInt8 × Sheet 256 :=
  page (renderTree honr nodeId c) tb sz off

end

/-! ## How much they print -/

def decimalWidth (i : Int) : Nat := (if i < 0 then 1 else 0) + max 1 (Nat.digits 10 i.natAbs).length

def hexWidth (width v : Nat) : Nat := max width (Nat.digits 16 v).length

def neighborsWidth (uptime : Nat → UInt32) (c : Option MeshCtx) : Nat :=
  ((neighborTable c).map fun entry =>
    if entry.1.active then
      50 + decimalWidth entry.1.rssi + decimalWidth entry.1.snr + decimalWidth (entry.1.age (uptime entry.2))
    else 0).sum

def routesWidth (c : Option MeshCtx) : Nat :=
  ((routeTable c).map fun r => if r.active then 22 + decimalWidth r.hopCount else 0).sum

def stateWidth (root joined : Bool) : Nat := if root then 4 else if joined then 6 else 8

section

variable (honr : Honr) (nodeId : UInt32)

def treeWidth (c : MeshCtx) : Nat :=
  (if c.honrJoined ∧ honr.isRoot c.honrAddr = false then 8 + hexWidth 4 (honr.parent c.honrAddr) else 0) +
    ((childNumbers honr).map fun n =>
      if c.honrChildBitmap.testBit n then
        7 + hexWidth 4 (honr.setNibble c.honrAddr (honr.rank c.honrAddr) (UInt8.ofNat n))
      else 0).sum

def nodeWidth (c : Option MeshCtx) : Nat :=
  27 + hexWidth 4 (treeAddr c).toNat + decimalWidth (honr.rank (treeAddr c)).toNat +
    stateWidth (honr.isRoot (treeAddr c)) ((c.map (·.honrJoined)).getD false) + hexWidth 8 nodeId.toNat

end

theorem length_decimalText (i : Int) : (decimalText i).length = decimalWidth i := by
  have hdigits : (if i = 0 then [0x30]
      else (Nat.digits 10 i.natAbs).reverse.map fun d => UInt8.ofNat (0x30 + d)).length =
      max 1 (Nat.digits 10 i.natAbs).length := by
    by_cases hzero : i = 0
    · rw [if_pos hzero, hzero]
      simp
    · have hsome : 0 < (Nat.digits 10 i.natAbs).length :=
        List.length_pos_iff.mpr (Nat.digits_ne_nil_iff_ne_zero.mpr (Int.natAbs_ne_zero.mpr hzero))
      rw [if_neg hzero, List.length_map, List.length_reverse]
      omega
  rw [decimalText, decimalWidth, List.length_append, hdigits]
  split <;> rfl

theorem digits_length_le {n k : Nat} (h : n < 10 ^ k) : (Nat.digits 10 n).length ≤ k :=
  (Nat.digits_length_le_iff (by decide) n).mpr h

theorem decimalWidth_neg {i : Int} {k : Nat} (hk : 1 ≤ k) (h : i.natAbs < 10 ^ k) : decimalWidth i ≤ k + 1 := by
  have hdigits := digits_length_le h
  rw [decimalWidth]
  split <;> omega

theorem decimalWidth_nat {i : Int} {k : Nat} (hk : 1 ≤ k) (hi : 0 ≤ i) (h : i.natAbs < 10 ^ k) : decimalWidth i ≤ k := by
  have hdigits := digits_length_le h
  rw [decimalWidth, if_neg (by omega)]
  omega

theorem decimalWidth_int {i : Int} (h : -2147483648 ≤ i) (hi : i < 2147483648) : decimalWidth i ≤ 11 :=
  decimalWidth_neg (by decide) (by omega)

theorem length_hexPad (width v : Nat) : (hexPad width v).length = hexWidth width v := by
  simp only [hexPad, hexWidth, List.length_append, List.length_replicate, List.length_map, List.length_reverse]
  omega

theorem length_neighborLine (uptime : UInt32) (n : Neighbor) : (neighborLine uptime n).length =
    50 + decimalWidth n.rssi + decimalWidth n.snr + decimalWidth (n.age uptime) := by
  simp only [neighborLine, List.length_append, length_colonHex, length_fmtAddr, length_decimalText, List.length_drop,
    n.addr.six, List.length_cons, List.length_nil]
  omega

theorem length_routeLine (r : Route) : (routeLine r).length = 22 + decimalWidth r.hopCount := by
  simp only [routeLine, List.length_append, length_colonHex, length_decimalText, List.length_drop, r.dest.six,
    r.nextHop.six, List.length_cons, List.length_nil]
  omega

theorem length_stateWord (root joined : Bool) : (stateWord root joined).length = stateWidth root joined := by
  cases root <;> cases joined <;> rfl

theorem length_nodeLines (addr : UInt16) (rank : UInt8) (state : List UInt8) (nodeId : UInt32) :
    (nodeLines addr rank state nodeId).length =
      27 + hexWidth 4 addr.toNat + decimalWidth rank.toNat + state.length + hexWidth 8 nodeId.toNat := by
  simp only [nodeLines, List.length_append, length_hexPad, length_decimalText, List.length_cons, List.length_nil]
  omega

theorem length_parentLine (parent : Nat) : (parentLine parent).length = 8 + hexWidth 4 parent := by
  simp only [parentLine, List.length_append, length_hexPad, List.length_cons, List.length_nil]
  omega

theorem length_childLine (child : Nat) : (childLine child).length = 7 + hexWidth 4 child := by
  simp only [childLine, List.length_append, length_hexPad, List.length_cons, List.length_nil]
  omega

theorem length_eachText {β : Type} (line : β → Option (List UInt8)) (items : List β) :
    (Sheet.eachText line items).length = (items.map fun item => ((line item).getD []).length).sum :=
  List.length_flatMap

theorem length_neighborEntries (uptime : Nat → UInt32) (c : Option MeshCtx) :
    (Sheet.eachText (neighborEntry uptime) (neighborTable c)).length = neighborsWidth uptime c := by
  rw [length_eachText, neighborsWidth]
  congr 2
  funext entry
  unfold neighborEntry
  split
  · exact length_neighborLine _ _
  · rfl

theorem length_routeEntries (c : Option MeshCtx) :
    (Sheet.eachText routeEntry (routeTable c)).length = routesWidth c := by
  rw [length_eachText, routesWidth]
  congr 2
  funext r
  unfold routeEntry
  split
  · exact length_routeLine r
  · rfl

theorem length_treeHead (honr : Honr) (nodeId : UInt32) (c : Option MeshCtx) :
    (treeHead honr nodeId c).length = nodeWidth honr nodeId c := by
  rw [treeHead, length_nodeLines, treeState, length_stateWord]
  rfl

theorem length_treeEntries (honr : Honr) (c : MeshCtx) :
    ((treeParent honr c).getD []).length + (Sheet.eachText (treeChild honr c) (childNumbers honr)).length =
      treeWidth honr c := by
  rw [length_eachText, treeWidth]
  congr 1
  · unfold treeParent
    split
    · exact length_parentLine _
    · rfl
  · congr 2
    funext n
    unfold treeChild
    split
    · exact length_childLine _
    · rfl

/-! ## They stay inside while the lines fit -/

theorem page_inside {cap : Nat} {render : Sheet cap → Sheet cap} {width : Nat}
    (hrender : ∀ buf : Sheet cap, (render buf.rewind).StaysInside ↔ width ≤ cap)
    (buf : Sheet cap) (sz off : Nat) :
    (page render buf sz off).2.StaysInside ↔ (off = 0 → width ≤ cap) := by
  unfold page
  by_cases hoff : off = 0
  · simp only [if_pos hoff, hrender]
    exact ⟨fun h _ => h, fun h => h hoff⟩
  · simp only [if_neg hoff]
    exact iff_of_true buf.rewind_inside fun h => absurd h hoff

theorem genNeighbors_inside (uptime : Nat → UInt32) (c : Option MeshCtx) (nb : Sheet 512) (sz off : Nat) :
    (genNeighbors uptime c nb sz off).2.StaysInside ↔ (off = 0 → neighborsWidth uptime c ≤ 512) := by
  apply page_inside
  intro buf
  rw [renderNeighbors, Sheet.printEach_inside _ (by decide), length_neighborEntries, Sheet.clear_inside]
  simp only [buf.rewind_inside, true_and]
  exact iff_of_eq (congrArg (· ≤ 512) (Nat.zero_add _))

theorem genRoutes_inside (c : Option MeshCtx) (rb : Sheet 512) (sz off : Nat) :
    (genRoutes c rb sz off).2.StaysInside ↔ (off = 0 → routesWidth c ≤ 512) := by
  apply page_inside
  intro buf
  rw [renderRoutes, Sheet.printEach_inside _ (by decide), length_routeEntries, Sheet.clear_inside]
  simp only [buf.rewind_inside, true_and]
  exact iff_of_eq (congrArg (· ≤ 512) (Nat.zero_add _))

theorem genTree_inside (honr : Honr) (nodeId : UInt32) (c : Option MeshCtx) (tb : Sheet 256) (sz off : Nat) :
    (genTree honr nodeId c tb sz off).2.StaysInside ↔
      (off = 0 → nodeWidth honr nodeId c + (c.map (treeWidth honr)).getD 0 ≤ 256) := by
  apply page_inside
  intro buf
  have hhead : (buf.rewind.print (treeHead honr nodeId c)).StaysInside ↔ nodeWidth honr nodeId c ≤ 256 := by
    rw [Sheet.print_inside (by decide), length_treeHead]
    simp only [buf.rewind_inside, true_and]
    exact iff_of_eq (congrArg (· ≤ 256) (Nat.zero_add _))
  cases c with
  | none => exact hhead
  | some c =>
    have hcursor : (buf.rewind.print (treeHead honr nodeId (some c))).cursor = nodeWidth honr nodeId (some c) := by
      rw [← length_treeHead]
      exact Nat.zero_add _
    have hwidth := length_treeEntries honr c
    simp only [renderTree, Sheet.printEach_inside _ (show 256 < 4294967296 by decide),
      Sheet.printSome_inside (show 256 < 4294967296 by decide), hhead, Sheet.printSome_cursor, hcursor,
      Option.map_some, Option.getD_some]
    omega

/-- The three renderers stay inside their buffers exactly if what they print
fits: 50 characters and three numbers for each active neighbour, 22 and a number
for each active route. -/
theorem renderers_inside_iff (uptime : Nat → UInt32) (honr : Honr) (nodeId : UInt32) (c : Option MeshCtx)
    (nb rb : Sheet 512) (tb : Sheet 256) (sz off : Nat) :
    ((genNeighbors uptime c nb sz off).2.StaysInside ↔ (off = 0 → neighborsWidth uptime c ≤ 512)) ∧
      ((genRoutes c rb sz off).2.StaysInside ↔ (off = 0 → routesWidth c ≤ 512)) ∧
      ((genTree honr nodeId c tb sz off).2.StaysInside ↔
        (off = 0 → nodeWidth honr nodeId c + (c.map (treeWidth honr)).getD 0 ≤ 256)) :=
  ⟨genNeighbors_inside uptime c nb sz off, genRoutes_inside c rb sz off, genTree_inside honr nodeId c tb sz off⟩

def nearNeighbor : Neighbor := ⟨true, .zero, .zero, -71, 18, 5000⟩

def crowdedMesh : MeshCtx := ⟨0x1000, true, 0, List.replicate 10 nearNeighbor, []⟩

/-- The tenth line begins in the buffer and ends behind it. -/
theorem neighbors_overrun : ¬ ∀ nb : Sheet 512,
    (genNeighbors (fun _ => 6000) (some crowdedMesh) nb 1024 0).2.StaysInside := by
  intro hall
  have hinside := hall ⟨List.replicate 512 0, List.length_replicate, 0, []⟩
  have hwidth := (genNeighbors_inside _ _ _ _ _).mp hinside rfl
  revert hwidth
  decide +kernel

/-! ## What a reader gets -/

@[simp] theorem decimalText_plain (i : Int) : Plain (decimalText i) := fun c hc => (decimalText_clean i c hc).2

@[simp] theorem colonHex_plain (bytes : List UInt8) : Plain (colonHex bytes) := colonHex_no_nul bytes

@[simp] theorem hexPad_plain (width v : Nat) : Plain (hexPad width v) := by
  rw [hexPad, plain_append]
  constructor
  · intro c hc
    rw [List.eq_of_mem_replicate hc]
    decide
  · intro c hc
    obtain ⟨d, hd, rfl⟩ := List.mem_map.mp hc
    have hlt : d < 16 := Nat.digits_lt_base (by decide) (List.mem_reverse.mp hd)
    interval_cases d <;> decide

theorem eachText_plain {β : Type} {line : β → Option (List UInt8)} (items : List β)
    (hline : ∀ item text, line item = some text → Plain text) : Plain (Sheet.eachText line items) := by
  intro c hc
  obtain ⟨item, -, hitem⟩ := List.mem_flatMap.mp hc
  cases htext : line item with
  | none =>
    rw [htext] at hitem
    cases hitem
  | some text =>
    rw [htext] at hitem
    exact hline item text htext c hitem

theorem string_holds {cap : Nat} {s : Sheet cap} {text : List UInt8} (h : s.Holds text) (hplain : Plain text) :
    s.bytes.takeWhile (· ≠ 0) = text := by
  obtain ⟨-, rest, hbytes⟩ := h
  rw [hbytes, List.takeWhile_append_of_pos fun c hc => by simpa using hplain c hc]
  simp

theorem neighborEntry_plain (uptime : Nat → UInt32) (entry : Neighbor × Nat) (text : List UInt8)
    (h : neighborEntry uptime entry = some text) : Plain text := by
  obtain ⟨-, htext⟩ := Option.ite_none_right_eq_some.mp h
  cases htext
  simp [neighborLine, fmtAddr]

theorem routeEntry_plain (r : Route) (text : List UInt8) (h : routeEntry r = some text) : Plain text := by
  obtain ⟨-, htext⟩ := Option.ite_none_right_eq_some.mp h
  cases htext
  simp [routeLine]

theorem renderNeighbors_holds {uptime : Nat → UInt32} {c : Option MeshCtx} (h : neighborsWidth uptime c < 512)
    (nb : Sheet 512) :
    (renderNeighbors uptime c nb.rewind).Holds (Sheet.eachText (neighborEntry uptime) (neighborTable c)) := by
  apply Sheet.printEach_holds _ (by decide) _ (nb.clear_holds (by decide))
  rw [length_neighborEntries]
  exact (Nat.zero_add _).trans_lt h

theorem renderRoutes_holds {c : Option MeshCtx} (h : routesWidth c < 512) (rb : Sheet 512) :
    (renderRoutes c rb.rewind).Holds (Sheet.eachText routeEntry (routeTable c)) := by
  apply Sheet.printEach_holds _ (by decide) _ (rb.clear_holds (by decide))
  rw [length_routeEntries]
  exact (Nat.zero_add _).trans_lt h

def treeText (honr : Honr) (nodeId : UInt32) (c : Option MeshCtx) : List UInt8 :=
  match c with
  | none => treeHead honr nodeId none
  | some c =>
      treeHead honr nodeId (some c) ++ (treeParent honr c).getD [] ++
        Sheet.eachText (treeChild honr c) (childNumbers honr)

theorem treeHead_plain (honr : Honr) (nodeId : UInt32) (c : Option MeshCtx) : Plain (treeHead honr nodeId c) := by
  have hstate : ∀ root joined, Plain (stateWord root joined) := by
    intro root joined
    cases root <;> cases joined <;> simp [stateWord]
  simp [treeHead, nodeLines, treeState, hstate]

theorem treeText_plain (honr : Honr) (nodeId : UInt32) (c : Option MeshCtx) : Plain (treeText honr nodeId c) := by
  cases c with
  | none => exact treeHead_plain honr nodeId none
  | some c =>
    rw [treeText, plain_append, plain_append]
    refine ⟨⟨treeHead_plain honr nodeId (some c), ?_⟩, ?_⟩
    · unfold treeParent
      split <;> simp [parentLine]
    · apply eachText_plain
      intro n text htext
      obtain ⟨-, htext⟩ := Option.ite_none_right_eq_some.mp htext
      cases htext
      simp [childLine]

theorem renderTree_holds {honr : Honr} {nodeId : UInt32} {c : Option MeshCtx}
    (h : nodeWidth honr nodeId c + (c.map (treeWidth honr)).getD 0 < 256) (tb : Sheet 256) :
    (renderTree honr nodeId c tb.rewind).Holds (treeText honr nodeId c) := by
  have hhead : (tb.rewind.print (treeHead honr nodeId c)).Holds (treeHead honr nodeId c) := by
    refine Sheet.print_holds (by decide) (List.length_nil).symm (List.nil_append _).symm ?_
    rw [length_treeHead, List.length_nil]
    omega
  cases c with
  | none => exact hhead
  | some c =>
    have hwidth := length_treeEntries honr c
    rw [Option.map_some, Option.getD_some] at h
    refine Sheet.printEach_holds _ (by decide) _ (Sheet.printSome_holds (by decide) hhead ?_) ?_
    · rw [length_treeHead]
      omega
    · rw [List.length_append, length_treeHead]
      omega

end DectMesh.Dev
