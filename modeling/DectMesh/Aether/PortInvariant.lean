import DectMesh.Aether.Probe
import DectMesh.Aether.Push
import DectMesh.Aether.PushCtl

/-! What the port's lookups, sends and reads keep, every session of the client
keeps: the allocations are left to those who open and close the sessions. -/
namespace DectMesh.Aether

open DectMesh.Lib

variable {σ : Type}

structure Port.Keeps (port : Port σ) (inv : σ → Prop) : Prop where
  euiToAddr : ∀ eui w, inv w → inv (port.euiToAddr eui w).2
  sendReliable : ∀ dst msg w, inv w → inv (port.sendReliable dst msg w).2
  msgqGet : ∀ conv wait w, inv w → inv (port.msgqGet conv wait w).2

variable {port : Port σ} {inv : σ → Prop}

theorem m9Reads_keeps (k : port.Keeps inv) (conv : Slot) (want cap reads : Nat) {w : σ} (h : inv w) :
    inv (m9Reads port conv want cap reads w).2 := by
  induction reads generalizing w with
  | zero => exact h
  | succ reads ih =>
    have hget := k.msgqGet conv 1500 w h
    unfold m9Reads
    split
    · rename_i next heq
      rw [heq] at hget
      exact hget
    · rename_i d next heq
      rw [heq] at hget
      split
      · exact hget
      · split
        · exact hget
        · exact ih hget

theorem m9Attempts_keeps (k : port.Keeps inv) (conv : Slot) (route : Option Addr) (msg : List UInt8)
    (cap attempts : Nat) {w : σ} (h : inv w) : inv (m9Attempts port conv route msg cap attempts w).2 := by
  induction attempts generalizing w with
  | zero => exact h
  | succ attempts ih =>
    have hsent := k.sendReliable (route.getD (port.peer conv w)) msg w h
    unfold m9Attempts
    dsimp only
    split
    · exact ih hsent
    · have hread := m9Reads_keeps k conv (tagOf msg) cap 2 hsent
      split
      · rename_i rbuf next heq
        rw [heq] at hread
        exact hread
      · rename_i next heq
        rw [heq] at hread
        exact hread
      · rename_i next heq
        rw [heq] at hread
        exact ih hread

theorem m9Rpc_keeps (k : port.Keeps inv) (conv : Slot) (msg : List UInt8) (cap : Nat) {w : σ} (h : inv w) :
    inv (m9Rpc port conv msg cap w).2 :=
  m9Attempts_keeps k conv _ msg cap 2 (k.euiToAddr (port.peer conv w) w h)

variable (maxMsg : Nat)

theorem m9Steps_keeps (k : port.Keeps inv) (conv : Slot) (requests : List (List UInt8 × UInt8)) (number : Nat)
    {w : σ} (h : inv w) : inv (m9Steps port maxMsg conv requests number w).2 := by
  induction requests generalizing number w with
  | nil => exact h
  | cons request rest ih =>
    have hcall := m9Rpc_keeps k conv request.1 maxMsg h
    unfold m9Steps
    dsimp only
    split
    · exact ih (number + 1) hcall
    · exact hcall

theorem m9OpenDevfile_keeps (k : port.Keeps inv) (conv : Slot) (tag : Nat) (file : List UInt8) (mode : UInt8)
    {w : σ} (h : inv w) : inv (m9OpenDevfile port maxMsg conv tag file mode w).2.2 := by
  have hsteps := m9Steps_keeps maxMsg k conv (openRequests maxMsg tag file mode) 1 h
  unfold m9OpenDevfile
  split
  rename_i step next heq
  rw [heq] at hsteps
  exact hsteps

theorem drainLoop_keeps (k : port.Keeps inv) (conv : Slot) (cap rounds tag : Nat) (d : Drained) {w : σ}
    (h : inv w) : inv (drainLoop port maxMsg conv cap rounds tag d w).2 := by
  induction rounds generalizing tag d w with
  | zero => exact h
  | succ rounds ih =>
    have hcall := m9Rpc_keeps k conv (tRead tag (cUInt (maxMsg - 16))) maxMsg h
    unfold drainLoop
    split
    · split
      · rename_i next heq
        rw [heq] at hcall
        exact hcall
      · rename_i rbuf next heq
        rw [heq] at hcall
        split
        · split
          · exact hcall
          · exact ih _ _ hcall
        · exact hcall
    · exact h

theorem drainSession_keeps (k : port.Keeps inv) (conv : Slot) (cap : Nat) {w : σ} (h : inv w) :
    inv (drainSession port maxMsg conv cap w).2 := by
  have hopen := m9OpenDevfile_keeps maxMsg k conv 1 mfltName 0 h
  unfold drainSession
  split
  rename_i step tag next heq
  rw [heq] at hopen
  split
  · exact drainLoop_keeps maxMsg k conv cap 16 tag .start hopen
  · exact hopen

theorem probeSteps_keeps (k : port.Keeps inv) (conv : Slot) (requests : List (List UInt8 × UInt8)) {w : σ}
    (h : inv w) : inv (probeSteps port maxMsg conv requests w).2.2 := by
  induction requests generalizing w with
  | nil => exact h
  | cons request rest ih =>
    have hcall := m9Rpc_keeps k conv request.1 maxMsg h
    unfold probeSteps
    dsimp only
    split
    · exact ih hcall
    · exact hcall

theorem probeSession_keeps (k : port.Keeps inv) (conv : Slot) (route : Option Addr) {w : σ} (h : inv w) :
    inv (probeSession port maxMsg conv route w).2 := by
  have hsteps := probeSteps_keeps maxMsg k conv (openRequests maxMsg 1 mfltName 0) h
  unfold probeSession
  split
  rename_i types through next heq
  rw [heq] at hsteps
  dsimp only
  split
  · exact m9Rpc_keeps k conv (tRead 4 (cUInt (maxMsg - 16))) maxMsg hsteps
  · exact hsteps

theorem ctlWrite_keeps (k : port.Keeps inv) (conv : Slot) (tag : Nat) (expectReset : Bool) {w : σ} (h : inv w) :
    inv (ctlWrite port maxMsg conv tag expectReset w).2 :=
  m9Rpc_keeps k conv _ maxMsg (m9Rpc_keeps k conv (tWrite tag 2 0 [0x31]) maxMsg h)

theorem pushChunk_keeps (k : port.Keeps inv) (conv : Slot) (route : Option Addr) (fid offset : Nat)
    (data : List UInt8) (attempts : Nat) (sr : Int) (tag : Nat) {w : σ} (h : inv w) :
    inv (pushChunk port conv route fid offset data attempts sr tag w).2.2 := by
  induction attempts generalizing sr tag w with
  | zero => exact h
  | succ attempts ih =>
    unfold pushChunk
    split
    · exact ih _ _ (k.sendReliable _ _ w h)
    · exact h

theorem pushReap_keeps (k : port.Keeps inv) (conv : Slot) {fuel wait outstanding left : Nat} {w w' : σ}
    (h : inv w) (hreap : pushReap port conv fuel wait outstanding w = some (left, w')) : inv w' := by
  induction fuel generalizing wait outstanding w with
  | zero => cases hreap
  | succ fuel ih =>
    have hget := k.msgqGet conv wait w h
    unfold pushReap at hreap
    split at hreap
    · rename_i next heq
      rw [heq] at hget
      cases hreap
      exact hget
    · rename_i d next heq
      rw [heq] at hget
      exact ih hget hreap

theorem pushSettle_keeps (k : port.Keeps inv) (conv : Slot) {fuel rounds outstanding left : Nat} {w w' : σ}
    (h : inv w) (hsettle : pushSettle port fuel conv rounds outstanding w = some (left, w')) : inv w' := by
  induction rounds generalizing outstanding w with
  | zero =>
    cases hsettle
    exact h
  | succ rounds ih =>
    unfold pushSettle at hsettle
    split at hsettle
    · split at hsettle
      · cases hsettle
      · rename_i reaped next heq
        exact ih (pushReap_keeps k conv h heq) hsettle
    · cases hsettle
      exact h

theorem pushLoop_keeps (k : port.Keeps inv) (conv : Slot) (route : Option Addr)
    {fuel rounds offset : Nat} {left : List UInt8} {g g' : Push} {w w' : σ} {through : Bool} (h : inv w)
    (hloop : pushLoop port maxMsg fuel conv route rounds offset left g w = some (through, g', w')) :
    inv w' ∧ g'.conv = g.conv ∧ g'.active = g.active := by
  induction rounds generalizing offset left g w with
  | zero => cases hloop
  | succ rounds ih =>
    unfold pushLoop at hloop
    split at hloop
    · cases hloop
      exact ⟨h, rfl, rfl⟩
    · have hchunk := pushChunk_keeps k conv route g.fid offset (left.take (pushMaxData maxMsg)) 12 (-1) g.tag h
      dsimp only at hloop
      split at hloop
      · cases hloop
        exact ⟨hchunk, rfl, rfl⟩
      · split at hloop
        · cases hloop
        · rename_i outstanding next heq
          obtain ⟨hinv, hconv, hactive⟩ := ih (pushReap_keeps k conv hchunk heq) hloop
          exact ⟨hinv, hconv, hactive⟩

theorem pushWrite_keeps (k : port.Keeps inv) {fuel offset : Nat} {buf : List UInt8} {g g' : Push} {w w' : σ}
    {result : Int} (h : inv w)
    (hwrite : pushWrite port maxMsg fuel buf offset g w = some (result, g', w')) :
    inv w' ∧ g'.conv = g.conv ∧ g'.active = g.active := by
  unfold pushWrite at hwrite
  split at hwrite
  · rename_i conv _ _
    have hroute := k.euiToAddr (port.peer conv w) w h
    dsimp only at hwrite
    split at hwrite
    · cases hwrite
    · rename_i gEnd next heq
      obtain ⟨hinv, hconv, hactive⟩ := pushLoop_keeps maxMsg k conv _ hroute heq
      cases hwrite
      exact ⟨hinv, hconv, hactive⟩
    · rename_i gEnd next heq
      cases hwrite
      exact pushLoop_keeps maxMsg k conv _ hroute heq
  · cases hwrite
    exact ⟨h, rfl, rfl⟩

/-! ## Sessions -/

structure Port.Holds (port : Port σ) (held : List Slot → σ → Prop) : Prop where
  keeps : ∀ own, port.Keeps (held own)
  convAlloc : ∀ own w, held own w → held ((port.convAlloc w).1.toList ++ own) (port.convAlloc w).2
  connect : ∀ own conv eui w, held own w → held own (port.connect conv eui w)
  convFree : ∀ own conv w, held (conv :: own) w → held own (port.convFree conv w)

variable {held : List Slot → σ → Prop}

theorem Port.Holds.noSlot {own : List Slot} (k : port.Holds held) {w next : σ} (h : held own w)
    (heq : port.convAlloc w = (none, next)) : held own next := by
  have halloc := k.convAlloc own w h
  rw [heq] at halloc
  exact halloc

theorem Port.Holds.opened {own : List Slot} (k : port.Holds held) {w next : σ} {conv : Slot} (h : held own w)
    (heq : port.convAlloc w = (some conv, next)) (eui : Addr) : held (conv :: own) (port.connect conv eui next) := by
  have halloc := k.convAlloc own w h
  rw [heq] at halloc
  exact k.connect _ conv eui next halloc

theorem drainPeer_holds (own : List Slot) (k : port.Holds held) (eui : Addr) (cap : Nat) {w : σ} (h : held own w) :
    held own (drainPeer port maxMsg eui cap w).2 := by
  unfold drainPeer
  split
  · rename_i next heq
    exact k.noSlot h heq
  · rename_i conv next heq
    apply k.convFree
    exact drainSession_keeps maxMsg (k.keeps _) conv cap (k.opened h heq eui)

theorem probePeer_holds (own : List Slot) (k : port.Holds held) (eui : Addr) {w : σ} (h : held own w) :
    held own (probePeer port maxMsg eui w).2 := by
  unfold probePeer
  split
  · rename_i next heq
    exact k.noSlot h heq
  · rename_i conv next heq
    have hroute := (k.keeps _).euiToAddr (port.peer conv (port.connect conv eui next)) _ (k.opened h heq eui)
    apply k.convFree
    exact probeSession_keeps maxMsg (k.keeps _) conv _ hroute

theorem pushCtl_holds (own : List Slot) (k : port.Holds held) (eui : Addr) (file : List UInt8)
    (expectReset : Bool) {w : σ} (h : held own w) : held own (pushCtl port maxMsg eui file expectReset w).2 := by
  unfold pushCtl
  split
  · rename_i next heq
    exact k.noSlot h heq
  · rename_i conv next heq
    have hopen := m9OpenDevfile_keeps maxMsg (k.keeps _) conv 1 file 1 (k.opened h heq eui)
    split
    rename_i step tag opened hsteps
    rw [hsteps] at hopen
    split
    · exact k.convFree _ conv opened hopen
    · apply k.convFree
      exact ctlWrite_keeps maxMsg (k.keeps _) conv tag expectReset hopen

def Push.Paired (g : Push) : Prop := g.active = g.conv.isSome

instance (g : Push) : Decidable g.Paired := inferInstanceAs (Decidable (_ = _))

theorem dropStale_holds (k : port.Holds held) {g : Push} {w : σ} (hg : g.Paired) (h : held g.conv.toList w) :
    (dropStale port g w).1.active = false ∧ (dropStale port g w).1.conv = none ∧
      held [] (dropStale port g w).2 := by
  unfold dropStale
  split
  · refine ⟨rfl, rfl, ?_⟩
    cases hconv : g.conv with
    | none =>
      rw [hconv] at h
      exact h
    | some conv =>
      rw [hconv] at h
      exact k.convFree [] conv w h
  · rename_i hidle
    rw [Bool.not_eq_true] at hidle
    have hnone : g.conv = none := by
      rw [Push.Paired, hidle] at hg
      exact Option.isNone_iff_eq_none.mp (Option.isSome_eq_false_iff.mp hg.symm)
    rw [hnone] at h
    exact ⟨hidle, hnone, h⟩

theorem pushOpen_holds (k : port.Holds held) (eui : Addr) {g : Push} {w : σ} (hg : g.Paired)
    (h : held g.conv.toList w) :
    (pushOpen port maxMsg eui g w).2.1.Paired ∧
      held (pushOpen port maxMsg eui g w).2.1.conv.toList (pushOpen port maxMsg eui g w).2.2 := by
  obtain ⟨hactive, hconv, hdropped⟩ := dropStale_holds k hg h
  unfold pushOpen
  split
  rename_i dropped before hstale
  rw [hstale] at hactive hconv hdropped
  split
  · rename_i next heq
    dsimp only at hactive hconv ⊢
    rw [Push.Paired, hactive, hconv]
    exact ⟨rfl, k.noSlot hdropped heq⟩
  · rename_i conv next heq
    have hopen := m9OpenDevfile_keeps maxMsg (k.keeps _) conv 1 firmwareName 1 (k.opened hdropped heq eui)
    split
    rename_i step tag opened hsteps
    rw [hsteps] at hopen
    dsimp only at hactive hconv ⊢
    split
    · rw [Push.Paired, hactive, hconv]
      exact ⟨rfl, k.convFree [] conv opened hopen⟩
    · exact ⟨rfl, hopen⟩

theorem pushWrite_holds (k : port.Holds held) {fuel offset : Nat} {buf : List UInt8} {g g' : Push} {w w' : σ}
    {result : Int} (hg : g.Paired) (h : held g.conv.toList w)
    (hwrite : pushWrite port maxMsg fuel buf offset g w = some (result, g', w')) :
    g'.Paired ∧ held g'.conv.toList w' := by
  obtain ⟨hinv, hconv, hactive⟩ := pushWrite_keeps maxMsg (k.keeps _) h hwrite
  rw [Push.Paired, hconv, hactive]
  exact ⟨hg, hinv⟩

theorem pushClose_holds (k : port.Holds held) {fuel : Nat} {g g' : Push} {w w' : σ} {result : Int}
    (hg : g.Paired) (h : held g.conv.toList w)
    (hclose : pushClose port maxMsg fuel g w = some (result, g', w')) :
    g'.Paired ∧ held g'.conv.toList w' := by
  unfold pushClose at hclose
  split at hclose
  · rename_i conv _ hconv
    rw [hconv] at h
    split at hclose
    · cases hclose
    · rename_i outstanding settled heq
      have hsettled := pushSettle_keeps (k.keeps _) conv h heq
      cases hclose
      refine ⟨rfl, ?_⟩
      apply k.convFree
      exact m9Rpc_keeps (k.keeps _) conv (tClunk g.tag g.fid) maxMsg hsettled
  · cases hclose
    exact ⟨hg, h⟩

end DectMesh.Aether
