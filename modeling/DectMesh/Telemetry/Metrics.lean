import DectMesh.Aether.Counters
import DectMesh.Dev.Renderers

/-! The heartbeat metrics: every 15 seconds the counters of the mesh, of the modem
and of the datagram service are reported, with rates and trace events made from
what they were before. -/
namespace DectMesh.Telemetry

open DectMesh.Lib DectMesh.Aether
open DectMesh.Dev (MeshCtx Honr)

/-! ## What is collected -/

structure PhyGauges where
  txOk : UInt32
  txBusy : UInt32
  rxPcc : UInt32
  rxFrames : UInt32
  lastTempC : Int
  lastVoltageMv : UInt32

structure LinkHealth where
  rssi : Int
  snr : Int
  txErrors : UInt32
  rxErrors : UInt32

structure MeshGauges where
  ctx : MeshCtx
  helloSent : UInt32
  helloReceived : UInt32
  packetsForwarded : UInt32
  packetsDropped : UInt32
  arqRetx : UInt32
  link : Option LinkHealth

/-- What the build and the libraries say: `tempNotMeasured` is the modem's mark of
a temperature that it has not measured. -/
structure BuildInfo where
  honr : Honr
  tempNotMeasured : Int
  carrier : Nat
  txPower : Int
  carrierText : List UInt8

structure Collector where
  prevTxb : UInt32
  prevRxb : UInt32
  havePrevBytes : Bool
  prevReel : UInt32
  prevOrph : UInt32
  prevArqf : UInt32

def Collector.init : Collector := ⟨0, 0, false, 0, 0, 0⟩

structure TraceEvents where
  reelection : Bool
  orphan : Bool
  arqFailed : Bool
  deriving DecidableEq

/-- What a call sets. A metric that is `none` is left as it was. -/
structure Report where
  neighbors : Nat
  routes : Nat
  honrRank : UInt8
  honrJoined : Bool
  isRoot : Bool
  helloSent : UInt32
  helloRecv : UInt32
  forwarded : UInt32
  dropped : UInt32
  link : Option LinkHealth
  carrier : Nat
  txPower : Int
  carrierDecoded : List UInt8
  txOk : UInt32
  lbtBusy : UInt32
  rxPcc : UInt32
  rxFrames : UInt32
  temp : Option Int
  voltage : Option UInt32
  txBytes : UInt32
  rxBytes : UInt32
  txBps : Option UInt32
  rxBps : Option UInt32
  reelections : UInt32
  orphans : UInt32
  arqRetx : UInt32
  arqFailed : UInt32
  dataTx : UInt32
  dataRx : UInt32
  rxqDrops : UInt32
  events : TraceEvents

structure Compared where
  txBytes : UInt32
  rxBytes : UInt32
  reelections : UInt32
  orphans : UInt32
  arqFailed : UInt32

def metricsInterval : Nat := 15

/-- Bits per second since the last call, as a `uint32_t`. -/
def bps (now prev : UInt32) : UInt32 := UInt32.ofNat ((now - prev).toNat * 8 / metricsInterval)

def metricsCollect (info : BuildInfo) (c : Collector) (mesh : MeshGauges) (phy : PhyGauges) (now : Compared)
    (stats : UInt32 × UInt32 × UInt32) : Report × Collector :=
  ({ neighbors := mesh.ctx.neighbors.countP (·.active)
     routes := mesh.ctx.routes.countP (·.active)
     honrRank := info.honr.rank mesh.ctx.honrAddr
     honrJoined := mesh.ctx.honrJoined
     isRoot := info.honr.isRoot mesh.ctx.honrAddr
     helloSent := mesh.helloSent
     helloRecv := mesh.helloReceived
     forwarded := mesh.packetsForwarded
     dropped := mesh.packetsDropped
     link := mesh.link
     carrier := info.carrier
     txPower := info.txPower
     carrierDecoded := info.carrierText
     txOk := phy.txOk
     lbtBusy := phy.txBusy
     rxPcc := phy.rxPcc
     rxFrames := phy.rxFrames
     temp := if phy.lastTempC ≠ info.tempNotMeasured then some phy.lastTempC else none
     voltage := if phy.lastVoltageMv ≠ 0 then some phy.lastVoltageMv else none
     txBytes := now.txBytes
     rxBytes := now.rxBytes
     txBps := if c.havePrevBytes then some (bps now.txBytes c.prevTxb) else none
     rxBps := if c.havePrevBytes then some (bps now.rxBytes c.prevRxb) else none
     reelections := now.reelections
     orphans := now.orphans
     arqRetx := mesh.arqRetx
     arqFailed := now.arqFailed
     dataTx := stats.1
     dataRx := stats.2.1
     rxqDrops := stats.2.2
     events := ⟨c.prevReel < now.reelections, c.prevOrph < now.orphans, c.prevArqf < now.arqFailed⟩ },
   ⟨now.txBytes, now.rxBytes, true, now.reelections, now.orphans, now.arqFailed⟩)

/-! ## A node over time -/

/-- All that has happened since the boot. The counters show it modulo their
range. -/
structure Totals where
  txBytes : Nat
  rxBytes : Nat
  reelections : Nat
  orphans : Nat
  arqFailed : Nat
  datagrams : DatagramTotals

def Totals.zero : Totals := ⟨0, 0, 0, 0, 0, .zero⟩

def Totals.compared (t : Totals) : Compared where
  txBytes := .ofNat t.txBytes
  rxBytes := .ofNat t.rxBytes
  reelections := .ofNat t.reelections
  orphans := .ofNat t.orphans
  arqFailed := .ofNat t.arqFailed

structure Sample where
  report : Report
  totals : Totals

/-- `armed`: the work item is scheduled. `log` is history. -/
structure Reporter where
  node : CountedNode
  mesh : Option MeshGauges
  phy : PhyGauges
  totals : Totals
  collector : Collector
  armed : Bool
  log : List Sample

def Reporter.init (mesh : Option MeshGauges) (phy : PhyGauges) : Reporter :=
  ⟨.init, mesh, phy, .zero, .init, true, []⟩

/-- The modem carries bytes; the tree changes, or the mesh context comes or goes;
a datagram is received or written; the work item is run. -/
inductive ReporterEvent where
  | radio (tx rx : Nat) (phy : PhyGauges)
  | tree (reelections orphans arqFailed : Nat) (mesh : Option MeshGauges)
  | datagram (event : DatagramEvent)
  | collect

def Reporter.step (maxMsg : Nat) (info : BuildInfo) (s : Reporter) : ReporterEvent → Option Reporter
  | .radio tx rx phy =>
      some { s with
        phy := phy
        totals := { s.totals with txBytes := s.totals.txBytes + tx, rxBytes := s.totals.rxBytes + rx } }
  | .tree reelections orphans arqFailed mesh =>
      some { s with
        mesh := mesh
        totals := { s.totals with
          reelections := s.totals.reelections + reelections
          orphans := s.totals.orphans + orphans
          arqFailed := s.totals.arqFailed + arqFailed } }
  | .datagram event =>
      (s.node.step maxMsg event).map fun node =>
        { s with
          node := node
          totals := { s.totals with datagrams := s.totals.datagrams.note maxMsg s.node event } }
  | .collect =>
      if !s.armed then none
      else
        match s.mesh with
        | none => some { s with armed := true }
        | some mesh =>
            match metricsCollect info s.collector mesh s.phy s.totals.compared s.node.stats with
            | (report, collector) =>
                some { s with armed := true, collector := collector, log := s.log ++ [⟨report, s.totals⟩] }

/-! ## What the reports say -/

/-- The datagram service as it was, modulo the range of the counters: `rxq_drops`
has what conversations took and had no room for. -/
structure Sample.Shows (e : Sample) : Prop where
  dataTx : e.report.dataTx = .ofNat e.totals.datagrams.written
  dataRx : e.report.dataRx = .ofNat e.totals.datagrams.received
  kept : e.totals.datagrams.queued ≤ e.totals.datagrams.taken
  rxqDrops : e.report.rxqDrops = .ofNat (e.totals.datagrams.taken - e.totals.datagrams.queued)

def Totals.risen (t t' : Totals) : TraceEvents :=
  ⟨t.reelections < t'.reelections, t.orphans < t'.orphans, t.arqFailed < t'.arqFailed⟩

/-- Rates are in every sample but the first, and make up what was moved, up to
the rounding of each. -/
structure RatesAddUp (rate : Sample → Option UInt32) (moved : Sample → Nat) (first : Sample) (rest : List Sample) :
    Prop where
  absent : rate first = none
  later : ∀ e ∈ rest, (rate e).isSome
  atMost : 15 * (rest.map fun e => ((rate e).getD 0).toNat).sum ≤
    8 * (moved ((first :: rest).getLast (List.cons_ne_nil first rest)) - moved first)
  atLeast : 8 * (moved ((first :: rest).getLast (List.cons_ne_nil first rest)) - moved first) ≤
    15 * (rest.map fun e => ((rate e).getD 0).toNat).sum + 14 * rest.length

structure Sample.Soon (e e' : Sample) : Prop where
  tx : e'.totals.txBytes < e.totals.txBytes + 4294967296
  rx : e'.totals.rxBytes < e.totals.rxBytes + 4294967296

structure Totals.Small (t : Totals) : Prop where
  reelections : t.reelections < 4294967296
  orphans : t.orphans < 4294967296
  arqFailed : t.arqFailed < 4294967296

structure Totals.Before (t t' : Totals) : Prop where
  txBytes : t.txBytes ≤ t'.txBytes
  rxBytes : t.rxBytes ≤ t'.rxBytes
  reelections : t.reelections ≤ t'.reelections
  orphans : t.orphans ≤ t'.orphans
  arqFailed : t.arqFailed ≤ t'.arqFailed

theorem Totals.Before.refl (t : Totals) : t.Before t :=
  ⟨Nat.le_refl _, Nat.le_refl _, Nat.le_refl _, Nat.le_refl _, Nat.le_refl _⟩

theorem Totals.Before.trans {t t' t'' : Totals} (h : t.Before t') (h' : t'.Before t'') : t.Before t'' :=
  ⟨h.txBytes.trans h'.txBytes, h.rxBytes.trans h'.rxBytes, h.reelections.trans h'.reelections,
    h.orphans.trans h'.orphans, h.arqFailed.trans h'.arqFailed⟩

def Totals.raised (t t' : Totals) : TraceEvents :=
  ⟨t.compared.reelections < t'.compared.reelections, t.compared.orphans < t'.compared.orphans,
    t.compared.arqFailed < t'.compared.arqFailed⟩

structure Sample.Follows (e e' : Sample) : Prop where
  before : e.totals.Before e'.totals
  txBps : e'.report.txBps = some (bps e'.totals.compared.txBytes e.totals.compared.txBytes)
  rxBps : e'.report.rxBps = some (bps e'.totals.compared.rxBytes e.totals.compared.rxBytes)
  events : e'.report.events = e.totals.raised e'.totals

structure Sample.First (e : Sample) : Prop where
  txBps : e.report.txBps = none
  rxBps : e.report.rxBps = none
  events : e.report.events = Totals.zero.raised e.totals

def Totals.noted (t : Totals) : Collector :=
  ⟨t.compared.txBytes, t.compared.rxBytes, true, t.compared.reelections, t.compared.orphans, t.compared.arqFailed⟩

structure Reporter.Inv (s : Reporter) : Prop where
  armed : s.armed = true
  counts : s.node.Counts s.totals.datagrams
  shows : ∀ e ∈ s.log, e.Shows
  chain : s.log.IsChain Sample.Follows
  first : ∀ e ∈ s.log.head?, e.First
  before : ∀ e ∈ s.log, e.totals.Before s.totals
  collector : s.collector = (s.log.getLast?.map fun e => e.totals.noted).getD .init

theorem reporterInv_init (mesh : Option MeshGauges) (phy : PhyGauges) : (Reporter.init mesh phy).Inv where
  armed := rfl
  counts := counts_init
  shows _ he := nomatch he
  chain := .nil
  first _ he := nomatch he
  before _ he := nomatch he
  collector := rfl

theorem Reporter.Inv.collect {s : Reporter} (h : s.Inv) (info : BuildInfo) (mesh : MeshGauges) :
    ({ s with
        armed := true
        collector := (metricsCollect info s.collector mesh s.phy s.totals.compared s.node.stats).2
        log := s.log ++ [⟨(metricsCollect info s.collector mesh s.phy s.totals.compared s.node.stats).1, s.totals⟩] }
      : Reporter).Inv := by
  have hshows : Sample.Shows
      ⟨(metricsCollect info s.collector mesh s.phy s.totals.compared s.node.stats).1, s.totals⟩ := by
    refine ⟨h.counts.tx, h.counts.rx, h.counts.kept, ?_⟩
    show UInt32.ofNat s.node.traffic.rxDrop = _
    rw [h.counts.drop]
    exact UInt32.ofNat_mod_size
  have hcollector := h.collector
  refine ⟨rfl, h.counts, ?_, ?_, ?_, ?_, ?_⟩
  · intro e he
    rcases List.mem_append.mp he with hold | hnew
    · exact h.shows e hold
    · rwa [List.mem_singleton.mp hnew]
  · refine h.chain.append (.singleton _) fun e he e' he' => ?_
    cases he'
    rw [Option.mem_def.mp he, Option.map_some, Option.getD_some] at hcollector
    rw [hcollector]
    exact ⟨h.before e (List.mem_of_getLast? he), rfl, rfl, rfl⟩
  · intro e he
    by_cases hlog : s.log = []
    · rw [hlog, List.getLast?_nil, Option.map_none, Option.getD_none] at hcollector
      rw [hlog] at he
      cases he
      rw [hcollector]
      exact ⟨rfl, rfl, rfl⟩
    · obtain ⟨first, rest, hcons⟩ := List.exists_cons_of_ne_nil hlog
      apply h.first
      rw [hcons] at he ⊢
      exact he
  · intro e he
    rcases List.mem_append.mp he with hold | hnew
    · exact h.before e hold
    · rw [List.mem_singleton.mp hnew]
      exact .refl _
  · rw [List.getLast?_concat]
    rfl

theorem reporterInv_step {maxMsg : Nat} {info : BuildInfo} {s s' : Reporter} {event : ReporterEvent} (h : s.Inv)
    (hstep : s.step maxMsg info event = some s') : s'.Inv := by
  cases event with
  | radio tx rx phy =>
    cases hstep
    have hlater : s.totals.Before
        { s.totals with txBytes := s.totals.txBytes + tx, rxBytes := s.totals.rxBytes + rx } :=
      ⟨Nat.le_add_right _ _, Nat.le_add_right _ _, Nat.le_refl _, Nat.le_refl _, Nat.le_refl _⟩
    exact ⟨h.armed, h.counts, h.shows, h.chain, h.first, fun e he => (h.before e he).trans hlater, h.collector⟩
  | tree reelections orphans arqFailed mesh =>
    cases hstep
    have hlater : s.totals.Before
        { s.totals with
          reelections := s.totals.reelections + reelections
          orphans := s.totals.orphans + orphans
          arqFailed := s.totals.arqFailed + arqFailed } :=
      ⟨Nat.le_refl _, Nat.le_refl _, Nat.le_add_right _ _, Nat.le_add_right _ _, Nat.le_add_right _ _⟩
    exact ⟨h.armed, h.counts, h.shows, h.chain, h.first, fun e he => (h.before e he).trans hlater, h.collector⟩
  | datagram event =>
    obtain ⟨node, hnode, rfl⟩ := Option.map_eq_some_iff.mp hstep
    have hsame : s.totals.Before { s.totals with datagrams := s.totals.datagrams.note maxMsg s.node event } :=
      ⟨Nat.le_refl _, Nat.le_refl _, Nat.le_refl _, Nat.le_refl _, Nat.le_refl _⟩
    exact ⟨h.armed, counts_step h.counts hnode, h.shows, h.chain, h.first,
      fun e he => (h.before e he).trans hsame, h.collector⟩
  | collect =>
    simp only [Reporter.step, h.armed, Bool.not_true, Bool.false_eq_true, if_false] at hstep
    cases hmesh : s.mesh with
    | none =>
      rw [hmesh] at hstep
      cases hstep
      exact ⟨rfl, h.counts, h.shows, h.chain, h.first, h.before, h.collector⟩
    | some mesh =>
      rw [hmesh] at hstep
      cases hstep
      have hcollect := h.collect info mesh
      rwa [hmesh] at hcollect

theorem bps_toNat {m n : Nat} (hle : m ≤ n) (hlt : n < m + 4294967296) :
    (bps (.ofNat n) (.ofNat m)).toNat = (n - m) * 8 / 15 := by
  rw [bps, counter_step hle hlt, metricsInterval, UInt32.toNat_ofNat']
  omega

theorem rates_add_up {rate : Sample → Option UInt32} {moved : Sample → Nat} {first : Sample} {rest : List Sample}
    (hfirst : rate first = none)
    (hchain : (first :: rest).IsChain fun e e' => moved e ≤ moved e' ∧ moved e' < moved e + 4294967296 ∧
      rate e' = some (bps (.ofNat (moved e')) (.ofNat (moved e)))) :
    RatesAddUp rate moved first rest := by
  have hrates : ∀ (e : Sample) (later : List Sample), (e :: later).IsChain (fun e e' => moved e ≤ moved e' ∧
      moved e' < moved e + 4294967296 ∧ rate e' = some (bps (.ofNat (moved e')) (.ofNat (moved e)))) →
      (∀ e' ∈ later, (rate e').isSome) ∧
        later.map (fun e' => ((rate e').getD 0).toNat) =
          (steps ((e :: later).map moved)).map fun x => x * 8 / 15 := by
    intro e later hlater
    induction later generalizing e with
    | nil => exact ⟨fun _ he => absurd he List.not_mem_nil, rfl⟩
    | cons e' later ih =>
      obtain ⟨⟨hle, hlt, hrate⟩, hnext⟩ := List.isChain_cons_cons.mp hlater
      obtain ⟨hsome, hsteps⟩ := ih e' hnext
      refine ⟨List.forall_mem_cons.mpr ⟨by rw [hrate]; rfl, hsome⟩, ?_⟩
      rw [List.map_cons, hsteps, hrate, Option.getD_some, bps_toNat hle hlt]
      rfl
  obtain ⟨hsome, hsteps⟩ := hrates first rest hchain
  have hmono : ((first :: rest).map moved).IsChain (· ≤ ·) :=
    List.isChain_map_of_isChain moved (fun _ _ h => h.1) hchain
  have hway : moved first + (steps ((first :: rest).map moved)).sum = _ := sum_steps hmono
  have hround := rounded_sum (show 0 < 15 by decide) 8 (steps ((first :: rest).map moved))
  have hcount : (steps ((first :: rest).map moved)).length = rest.length := by
    rw [List.map_cons, length_steps, List.length_map]
  have hlast : (moved first :: rest.map moved).getLast (List.cons_ne_nil _ _) =
      moved ((first :: rest).getLast (List.cons_ne_nil first rest)) :=
    List.getLast_map (f := moved) (l := first :: rest) (by simp)
  rw [hlast] at hway
  refine ⟨hfirst, hsome, ?_, ?_⟩
  · rw [hsteps]
    omega
  · rw [hsteps]
    omega

theorem Totals.raised_eq {t t' : Totals} (hbefore : t.Before t') (hsmall : t'.Small) : t.raised t' = t.risen t' := by
  have hreelections : ∀ {m n : Nat}, m ≤ n → n < 4294967296 → (UInt32.ofNat m < UInt32.ofNat n ↔ m < n) := by
    intro m n hle hlt
    rw [UInt32.lt_iff_toNat_lt, UInt32.toNat_ofNat', UInt32.toNat_ofNat']
    omega
  simp only [Totals.raised, Totals.risen, Totals.compared, hreelections hbefore.reelections hsmall.reelections,
    hreelections hbefore.orphans hsmall.orphans, hreelections hbefore.arqFailed hsmall.arqFailed]

/-- In every run the reports have the datagram service's counters, and the work
item is scheduled again after each. If a sample is taken before 4 GiB have passed,
the rates make up what was sent and received since the first, up to less than a bit
per second each; and as long as the tree's counters do not come round, there is a
trace event of each kind exactly where the counter has grown since the sample
before, or since the boot. -/
theorem heartbeat_reports (maxMsg : Nat) (info : BuildInfo) {mesh : Option MeshGauges} {phy : PhyGauges}
    {events : List ReporterEvent} {s : Reporter}
    (hrun : run (Reporter.step maxMsg info) (.init mesh phy) events = some s) :
    s.armed = true ∧ (∀ e ∈ s.log, e.Shows) ∧
      (s.log.IsChain Sample.Soon → ∀ first rest, s.log = first :: rest →
        RatesAddUp (·.report.txBps) (·.totals.txBytes) first rest ∧
          RatesAddUp (·.report.rxBps) (·.totals.rxBytes) first rest) ∧
      (∀ first ∈ s.log.head?, first.totals.Small → first.report.events = Totals.zero.risen first.totals) ∧
      s.log.IsChain fun e e' => e'.totals.Small → e'.report.events = e.totals.risen e'.totals := by
  have hinv : s.Inv :=
    run_invariant Reporter.Inv (fun _ _ _ hinv _ => reporterInv_step hinv) (reporterInv_init mesh phy)
      (along_true _ _) hrun
  refine ⟨hinv.armed, hinv.shows, fun hsoon first rest hlog => ?_, fun first hfirst hsmall => ?_, ?_⟩
  · have hfirst : first.First := hinv.first first (by rw [hlog]; rfl)
    have hpaced := isChain_and hinv.chain hsoon
    rw [hlog] at hpaced
    constructor
    · exact rates_add_up hfirst.txBps (hpaced.imp fun e e' h => ⟨h.1.before.txBytes, h.2.tx, h.1.txBps⟩)
    · exact rates_add_up hfirst.rxBps (hpaced.imp fun e e' h => ⟨h.1.before.rxBytes, h.2.rx, h.1.rxBps⟩)
  · rw [(hinv.first first hfirst).events]
    refine Totals.raised_eq ?_ hsmall
    exact ⟨Nat.zero_le _, Nat.zero_le _, Nat.zero_le _, Nat.zero_le _, Nat.zero_le _⟩
  · refine hinv.chain.imp fun e e' h hsmall => ?_
    rw [h.events]
    exact Totals.raised_eq h.before hsmall

def sampleBuild : BuildInfo := ⟨⟨fun _ => 0, fun _ => false, fun _ => 0, fun _ _ _ => 0, 1, 15⟩, -128, 0, 0, []⟩

def samplePhy : PhyGauges := ⟨0, 0, 0, 0, 20, 0⟩

def sampleMeshGauges : MeshGauges := ⟨⟨0, false, 0, [], []⟩, 0, 0, 0, 0, 0, none⟩

def sampleBeats : List ReporterEvent :=
  [.radio 100 0 samplePhy, .collect, .radio 30 0 samplePhy, .tree 1 0 0 (some sampleMeshGauges), .collect]

theorem heartbeat_reports_two_samples :
    ∃ s first second,
      run (Reporter.step 1 sampleBuild) (.init (some sampleMeshGauges) samplePhy) sampleBeats = some s ∧
      s.log = [first, second] ∧ RatesAddUp (·.report.txBps) (·.totals.txBytes) first [second] ∧
      second.report.txBps = some 16 ∧ second.report.events = first.totals.risen second.totals := by
  obtain ⟨s, first, second, hrun, hlog, hsoon, hsmall, hrate⟩ : ∃ s first second,
      run (Reporter.step 1 sampleBuild) (.init (some sampleMeshGauges) samplePhy) sampleBeats = some s ∧
        s.log = [first, second] ∧ first.Soon second ∧ second.totals.Small ∧ second.report.txBps = some 16 :=
    ⟨_, _, _, rfl, rfl, ⟨by decide, by decide⟩, ⟨by decide, by decide, by decide⟩, rfl⟩
  obtain ⟨-, -, hrates, -, hevents⟩ := heartbeat_reports 1 sampleBuild hrun
  rw [hlog] at hrates hevents
  refine ⟨s, first, second, hrun, hlog, ?_, hrate, (List.isChain_cons_cons.mp hevents).1 hsmall⟩
  exact (hrates ((List.IsChain.singleton _).cons_cons hsoon) first [second] rfl).1

end DectMesh.Telemetry
