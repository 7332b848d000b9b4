import DectMesh.Aether.PortInvariant
import DectMesh.Lib.History
import Mathlib.Data.List.Perm.Basic

/-! Who holds the conversation slots: the clients that cloned one, the push
session, and a call of the in-process client for as long as it runs. Clients come
and go between any two things that a call waits for. -/
namespace DectMesh.Aether

open DectMesh.Lib

inductive ClientOp where
  | clone
  | clunk (n : Slot)
  deriving DecidableEq

/-- What is done by the end of one call into the rest of the node: by clients, and
by the call itself. -/
structure Turn where
  clients : List ClientOp
  route : Option Addr
  sent : Int
  got : Option Dgram
  deriving DecidableEq

def Turn.none : Turn := ⟨[], .none, -1, .none⟩

structure Pool where
  convs : Convs Unit
  clients : List Slot
  turns : List Turn

def Pool.init : Pool := ⟨fun _ => .unused, [], []⟩

/-- A clone that finds no free slot fails; only a client's own ctl is clunked. -/
def Pool.client (w : Pool) : ClientOp → Pool
  | .clone =>
      match convAlloc w.convs with
      | some (n, convs) => { w with convs := convs, clients := n :: w.clients }
      | none => w
  | .clunk n =>
      if n ∈ w.clients then { w with convs := convFree n w.convs, clients := w.clients.erase n } else w

def Pool.turn (w : Pool) : Turn × Pool :=
  match w.turns with
  | [] => (.none, w)
  | t :: later => (t, t.clients.foldl Pool.client { w with turns := later })

def poolPort : Port Pool where
  convAlloc := fun w =>
    match convAlloc w.turn.2.convs with
    | some (n, convs) => (some n, { w.turn.2 with convs := convs })
    | none => (none, w.turn.2)
  connect := fun n eui w =>
    { w with convs := Function.update w.convs n { w.convs n with peer := eui, state := .connected } }
  convFree := fun n w => { w with convs := convFree n w.convs }
  peer := fun n w => (w.convs n).peer
  euiToAddr := fun _ w => (w.turn.1.route, w.turn.2)
  sendReliable := fun _ _ w => (w.turn.1.sent, w.turn.2)
  msgqGet := fun _ _ w => (w.turn.1.got, w.turn.2)

/-! ## The balance -/

/-- The slots in use are the clients' and those in `own`, each held once. -/
structure Balanced (own : List Slot) (w : Pool) : Prop where
  nodup : (w.clients ++ own).Nodup
  used : ∀ n, (w.convs n).inUse = true ↔ n ∈ w.clients ++ own

theorem convAlloc_used {convs convs' : Convs Unit} {n : Slot} (h : convAlloc convs = some (n, convs')) :
    (convs n).inUse = false ∧ ∀ m, (convs' m).inUse = true ↔ m = n ∨ (convs m).inUse = true := by
  obtain ⟨k, hfree, heq⟩ := Option.map_eq_some_iff.mp h
  cases heq
  refine ⟨freeSlot_notInUse hfree, fun m => ?_⟩
  by_cases hm : m = n
  · subst hm
    rw [Function.update_self]
    exact iff_of_true rfl (.inl rfl)
  · rw [Function.update_of_ne hm]
    simp [hm]

theorem convFree_used (convs : Convs Unit) (n m : Slot) :
    (convFree n convs m).inUse = true ↔ m ≠ n ∧ (convs m).inUse = true := by
  unfold convFree
  split
  · by_cases hm : m = n
    · subst hm
      rw [Function.update_self]
      simp
    · rw [Function.update_of_ne hm]
      simp [hm]
  · rename_i hfree
    constructor
    · intro hused
      refine ⟨?_, hused⟩
      rintro rfl
      exact hfree hused
    · exact And.right

theorem Balanced.alloc {own : List Slot} {w : Pool} {n : Slot} {convs : Convs Unit} (h : Balanced own w)
    (halloc : convAlloc w.convs = some (n, convs)) : Balanced (n :: own) { w with convs := convs } := by
  obtain ⟨hfree, hused⟩ := convAlloc_used halloc
  have hnew : n ∉ w.clients ++ own := by
    intro hmem
    rw [(h.used n).mpr hmem] at hfree
    cases hfree
  constructor
  · exact (List.nodup_middle).mpr (List.nodup_cons.mpr ⟨hnew, h.nodup⟩)
  · intro m
    rw [hused m, h.used m]
    simp only [List.mem_append, List.mem_cons]
    tauto

theorem Balanced.free {own : List Slot} {w : Pool} {n : Slot} (h : Balanced (n :: own) w) :
    Balanced own { w with convs := convFree n w.convs } := by
  obtain ⟨hnew, hnodup⟩ := List.nodup_cons.mp (List.nodup_middle.mp h.nodup)
  constructor
  · exact hnodup
  · intro m
    rw [convFree_used, h.used m]
    simp only [List.mem_append, List.mem_cons] at hnew ⊢
    constructor
    · rintro ⟨hm, hclient | rfl | hown⟩
      · exact .inl hclient
      · exact absurd rfl hm
      · exact .inr hown
    · intro hmem
      refine ⟨?_, hmem.imp_right .inr⟩
      rintro rfl
      exact hnew hmem

theorem Balanced.client {own : List Slot} {w : Pool} (h : Balanced own w) (op : ClientOp) :
    Balanced own (w.client op) := by
  unfold Pool.client
  cases op with
  | clone =>
    dsimp only
    split
    · rename_i n convs halloc
      -- a slot of the clients is one of `own` up to the order
      have hown := h.alloc halloc
      exact ⟨List.nodup_middle.mp hown.nodup, fun m => (hown.used m).trans (by simp [or_left_comm])⟩
    · exact h
  | clunk n =>
    dsimp only
    split
    · rename_i hmem
      have hperm : (w.clients ++ own).Perm (n :: (w.clients.erase n ++ own)) :=
        (List.perm_cons_erase hmem).append_right own
      have hheld : Balanced (n :: own) { w with clients := w.clients.erase n } :=
        ⟨List.nodup_middle.mpr (hperm.nodup_iff.mp h.nodup), fun m =>
          (h.used m).trans (hperm.mem_iff.trans List.perm_middle.symm.mem_iff)⟩
      exact hheld.free
    · exact h

theorem Balanced.turn {own : List Slot} {w : Pool} (h : Balanced own w) : Balanced own w.turn.2 := by
  unfold Pool.turn
  split
  · exact h
  · rename_i t later _
    have hlater : Balanced own { w with turns := later } := ⟨h.nodup, h.used⟩
    show Balanced own (t.clients.foldl Pool.client { w with turns := later })
    generalize { w with turns := later } = w at hlater
    induction t.clients generalizing w with
    | nil => exact hlater
    | cons op rest ih => exact ih _ (hlater.client op)

theorem Balanced.connect {own : List Slot} {w : Pool} (h : Balanced own w) (n : Slot) (eui : Addr) :
    Balanced own (poolPort.connect n eui w) := by
  refine ⟨h.nodup, fun m => Iff.trans ?_ (h.used m)⟩
  show (Function.update w.convs n _ m).inUse = true ↔ _
  by_cases hm : m = n
  · subst hm
    rw [Function.update_self]
  · rw [Function.update_of_ne hm]

theorem poolPort_balanced : poolPort.Holds Balanced where
  keeps := fun _ =>
    { euiToAddr := fun _ _ h => h.turn
      sendReliable := fun _ _ _ h => h.turn
      msgqGet := fun _ _ _ h => h.turn }
  convAlloc := by
    intro own w h
    unfold poolPort
    dsimp only
    split
    · rename_i heq
      exact h.turn.alloc heq
    · exact h.turn
  connect := fun _ conv eui _ h => h.connect conv eui
  convFree := fun _ _ _ h => h.free

/-! ## Calls without clients -/

structure ClientsAway (clients : List Slot) (w : Pool) : Prop where
  held : w.clients = clients
  away : ∀ t ∈ w.turns, t.clients = []

theorem ClientsAway.turn {clients : List Slot} {w : Pool} (h : ClientsAway clients w) :
    ClientsAway clients w.turn.2 := by
  unfold Pool.turn
  split
  · exact h
  · rename_i t later heq
    have hnone : t.clients = [] := h.away t (by simp [heq])
    dsimp only
    rw [hnone]
    refine ⟨h.held, fun t ht => h.away t ?_⟩
    rw [heq]
    exact List.mem_cons_of_mem _ ht

theorem poolPort_clientsAway (clients : List Slot) : poolPort.Holds fun _ => ClientsAway clients where
  keeps := fun _ =>
    { euiToAddr := fun _ _ h => h.turn
      sendReliable := fun _ _ _ h => h.turn
      msgqGet := fun _ _ _ h => h.turn }
  convAlloc := by
    intro own w h
    unfold poolPort
    dsimp only
    split
    · exact ⟨h.turn.held, h.turn.away⟩
    · exact h.turn
  connect := fun _ _ _ _ h => ⟨h.held, h.away⟩
  convFree := fun _ _ _ h => ⟨h.held, h.away⟩

/-! ## Runs -/

inductive NetCall where
  | drain (eui : Addr) (cap : Nat)
  | probe (eui : Addr)
  | pushOpen (eui : Addr)
  | pushWrite (buf : List UInt8) (offset : Nat)
  | pushClose
  | pushCtl (eui : Addr) (file : List UInt8) (expectReset : Bool)
  deriving DecidableEq

/-- The calls that hold a slot only until they return. -/
def NetCall.Passing : NetCall → Prop
  | .drain .. | .probe .. | .pushCtl .. => True
  | .pushOpen .. | .pushWrite .. | .pushClose => False

inductive PoolEvent where
  | client (op : ClientOp)
  | call (c : NetCall) (turns : List Turn)
  deriving DecidableEq

structure Service where
  push : Push
  pool : Pool

def Service.init : Service := ⟨.idle, .init⟩

section

variable (maxMsg fuel : Nat)

/-- `none` is a push call that does not return. -/
def poolCall (s : Service) : NetCall → Option Service
  | .drain eui cap => some { s with pool := (drainPeer poolPort maxMsg eui cap s.pool).2 }
  | .probe eui => some { s with pool := (probePeer poolPort maxMsg eui s.pool).2 }
  | .pushOpen eui => let (_, push, pool) := pushOpen poolPort maxMsg eui s.push s.pool
      some ⟨push, pool⟩
  | .pushWrite buf offset =>
      (pushWrite poolPort maxMsg fuel buf offset s.push s.pool).map fun (_, push, pool) => ⟨push, pool⟩
  | .pushClose => (pushClose poolPort maxMsg fuel s.push s.pool).map fun (_, push, pool) => ⟨push, pool⟩
  | .pushCtl eui file expectReset =>
      some { s with pool := (pushCtl poolPort maxMsg eui file expectReset s.pool).2 }

def poolStep (s : Service) : PoolEvent → Option Service
  | .client op => some { s with pool := s.pool.client op }
  | .call c turns => poolCall maxMsg fuel { s with pool := { s.pool with turns := turns } } c

end

def Service.inUse (s : Service) (n : Slot) : Bool := (s.pool.convs n).inUse

def Service.used (s : Service) : Nat := (List.finRange maxConns).countP s.inUse

def Service.OwnSlot (s : Service) (n : Slot) : Prop := s.inUse n = true ∧ n ∉ s.pool.clients

structure Service.InBalance (s : Service) : Prop where
  used : s.used = s.pool.clients.length + if s.push.active then 1 else 0
  active : s.push.active = true ↔ ∃ n, s.push.conv = some n ∧ s.inUse n = true

/-- Whatever the clients do until it returns, the call takes no slot with it; with
no client about, the slots in use are those that were. -/
structure LeavesSlots (maxMsg fuel : Nat) (s : Service) (c : NetCall) (turns : List Turn) : Prop where
  own : ∀ s', poolStep maxMsg fuel s (.call c turns) = some s' → ∀ n, s'.OwnSlot n ↔ s.OwnSlot n
  all : (∀ t ∈ turns, t.clients = []) → ∀ s', poolStep maxMsg fuel s (.call c turns) = some s' →
    ∀ n, s'.inUse n = s.inUse n

structure Service.Held (s : Service) : Prop where
  paired : s.push.Paired
  balanced : Balanced s.push.conv.toList s.pool

theorem held_init : Service.init.Held where
  paired := rfl
  balanced := ⟨List.nodup_nil, fun n => by simp [Service.init, Pool.init, Push.idle, Conv.unused]⟩

section

variable {maxMsg fuel : Nat}

theorem Service.Held.call {s s' : Service} (h : s.Held) {c : NetCall} (hcall : poolCall maxMsg fuel s c = some s') :
    s'.Held := by
  cases c with
  | drain eui cap =>
    cases hcall
    exact ⟨h.paired, drainPeer_holds maxMsg _ poolPort_balanced eui cap h.balanced⟩
  | probe eui =>
    cases hcall
    exact ⟨h.paired, probePeer_holds maxMsg _ poolPort_balanced eui h.balanced⟩
  | pushOpen eui =>
    cases hcall
    have hopen := pushOpen_holds maxMsg poolPort_balanced eui h.paired h.balanced
    exact ⟨hopen.1, hopen.2⟩
  | pushWrite buf offset =>
    obtain ⟨⟨result, push, pool⟩, hwrite, rfl⟩ := Option.map_eq_some_iff.mp hcall
    have hkept := pushWrite_holds maxMsg poolPort_balanced h.paired h.balanced hwrite
    exact ⟨hkept.1, hkept.2⟩
  | pushClose =>
    obtain ⟨⟨result, push, pool⟩, hclose, rfl⟩ := Option.map_eq_some_iff.mp hcall
    have hkept := pushClose_holds maxMsg poolPort_balanced h.paired h.balanced hclose
    exact ⟨hkept.1, hkept.2⟩
  | pushCtl eui file expectReset =>
    cases hcall
    exact ⟨h.paired, pushCtl_holds maxMsg _ poolPort_balanced eui file expectReset h.balanced⟩

theorem Service.Held.step {s s' : Service} (h : s.Held) {event : PoolEvent}
    (hstep : poolStep maxMsg fuel s event = some s') : s'.Held := by
  cases event with
  | client op =>
    cases hstep
    exact ⟨h.paired, h.balanced.client op⟩
  | call c turns =>
    have hcoming : Service.Held { s with pool := { s.pool with turns := turns } } :=
      ⟨h.paired, h.balanced.nodup, h.balanced.used⟩
    exact hcoming.call hstep

theorem Service.Held.ownSlot {s : Service} (h : s.Held) (n : Slot) : s.OwnSlot n ↔ n ∈ s.push.conv.toList := by
  have hused : s.inUse n = true ↔ _ := h.balanced.used n
  rw [Service.OwnSlot, hused, List.mem_append]
  constructor
  · rintro ⟨hclient | hown, hnot⟩
    · exact absurd hclient hnot
    · exact hown
  · intro hown
    exact ⟨.inr hown, fun hclient => List.disjoint_of_nodup_append h.balanced.nodup hclient hown⟩

theorem Service.Held.inBalance {s : Service} (h : s.Held) : s.InBalance where
  used := by
    have hperm : ((List.finRange maxConns).filter s.inUse).Perm (s.pool.clients ++ s.push.conv.toList) := by
      apply (List.perm_ext_iff_of_nodup ((List.nodup_finRange _).filter _) h.balanced.nodup).mpr
      intro n
      rw [List.mem_filter]
      exact (and_iff_right (List.mem_finRange n)).trans (h.balanced.used n)
    rw [Service.used, List.countP_eq_length_filter, hperm.length_eq, List.length_append, h.paired]
    cases s.push.conv <;> rfl
  active := by
    rw [h.paired, Option.isSome_iff_exists]
    constructor
    · rintro ⟨n, hconv⟩
      refine ⟨n, hconv, ?_⟩
      apply (h.balanced.used n).mpr
      simp [hconv]
    · rintro ⟨n, hconv, -⟩
      exact ⟨n, hconv⟩

theorem passing_push {s s' : Service} {c : NetCall} (hpass : c.Passing) (hcall : poolCall maxMsg fuel s c = some s') :
    s'.push = s.push := by
  cases c with
  | drain eui cap =>
    cases hcall
    rfl
  | probe eui =>
    cases hcall
    rfl
  | pushCtl eui file expectReset =>
    cases hcall
    rfl
  | pushOpen eui => exact hpass.elim
  | pushWrite buf offset => exact hpass.elim
  | pushClose => exact hpass.elim

theorem passing_clientsAway {clients : List Slot} {s s' : Service} {c : NetCall} (hpass : c.Passing)
    (haway : ClientsAway clients s.pool) (hcall : poolCall maxMsg fuel s c = some s') :
    ClientsAway clients s'.pool := by
  have k := poolPort_clientsAway clients
  cases c with
  | drain eui cap =>
    cases hcall
    exact drainPeer_holds maxMsg [] k eui cap haway
  | probe eui =>
    cases hcall
    exact probePeer_holds maxMsg [] k eui haway
  | pushCtl eui file expectReset =>
    cases hcall
    exact pushCtl_holds maxMsg [] k eui file expectReset haway
  | pushOpen eui => exact hpass.elim
  | pushWrite buf offset => exact hpass.elim
  | pushClose => exact hpass.elim

theorem Service.Held.leavesSlots {s : Service} (h : s.Held) {c : NetCall} (hpass : c.Passing) (turns : List Turn) :
    LeavesSlots maxMsg fuel s c turns where
  own := by
    intro s' hstep n
    have hcall : poolCall maxMsg fuel { s with pool := { s.pool with turns := turns } } c = some s' := hstep
    have hpush : s'.push = s.push := (passing_push hpass hcall).trans rfl
    rw [(h.step hstep).ownSlot, h.ownSlot, hpush]
  all := by
    intro hnone s' hstep n
    have hcall : poolCall maxMsg fuel { s with pool := { s.pool with turns := turns } } c = some s' := hstep
    have hpush : s'.push = s.push := (passing_push hpass hcall).trans rfl
    have hbegin : ClientsAway s.pool.clients { s.pool with turns := turns } := ⟨rfl, hnone⟩
    have haway : ClientsAway s.pool.clients s'.pool := passing_clientsAway hpass hbegin hcall
    have hbefore : s.inUse n = true ↔ _ := h.balanced.used n
    have hafter : s'.inUse n = true ↔ _ := (h.step hstep).balanced.used n
    rw [Bool.eq_iff_iff, hafter, hbefore, hpush, haway.held]

end

/-- In every run the clients' conversations and the push session account for the
slots in use, and every drain, probe and control write leaves them. -/
theorem slots_accounted (maxMsg fuel : Nat) {events : List PoolEvent} {s : Service}
    (hrun : run (poolStep maxMsg fuel) .init events = some s) :
    s.InBalance ∧ ∀ c turns, c.Passing → LeavesSlots maxMsg fuel s c turns := by
  have hheld : s.Held :=
    run_invariant _ (fun _ _ _ h (_ : True) hstep => Service.Held.step h hstep) held_init (along_true _ _) hrun
  exact ⟨hheld.inBalance, fun c turns hpass => hheld.leavesSlots hpass turns⟩

def Turn.answered (reply : List UInt8) : List Turn :=
  [⟨[], .none, 0, .none⟩, ⟨[], .none, 0, .none⟩,
    ⟨[], .none, 0, some ⟨.zero, reply.take 64, Nat.lt_of_le_of_lt (List.length_take_le _ _) (by decide), 0⟩⟩]

def opening : PoolEvent :=
  .call (.pushOpen .zero) (⟨[.clone], none, 0, none⟩ :: ((openReplies 512).map Turn.answered).flatten)

theorem slots_accounted_opening :
    let s := (run (poolStep 512 4) .init [.client .clone, opening, .call (.probe .zero) []]).get (by decide +kernel)
    s.used = 3 ∧ s.InBalance ∧ ∀ c turns, c.Passing → LeavesSlots 512 4 s c turns :=
  ⟨by decide +kernel, slots_accounted 512 4 (Option.some_get _).symm⟩

end DectMesh.Aether
