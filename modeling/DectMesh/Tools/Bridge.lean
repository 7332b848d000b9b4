import DectMesh.Aether.MeshClient
import DectMesh.Lib.Framing

/-! `aether_conv --bridge`: a byte stream of 9P on a socket, relayed as one
datagram a message through a conversation to the peer's server, and the replies
back. -/
namespace DectMesh.Tools

open DectMesh.Lib DectMesh.Aether

/-- What the bridge calls. `doWrite` and `doRead` go to the data fid: whether the
write succeeded, and the bytes of a datagram, none of them for a result of 0 or
less. `answer` is the write to the client. -/
structure Carrier (σ : Type) where
  doWrite : List UInt8 → σ → Bool × σ
  doRead : σ → List UInt8 × σ
  answer : List UInt8 → σ → Bool × σ

def answers (msg dgram : List UInt8) : Bool := 7 ≤ dgram.length && tagOf dgram = tagOf msg

section

variable {σ : Type} (carrier : Carrier σ)

/-- The reads of one attempt. A reply with another tag is discarded. -/
def bridgeReads (msg : List UInt8) : Nat → σ → Option (List UInt8) × σ
  | 0, w => (none, w)
  | reads + 1, w =>
      match carrier.doRead w with
      | (dgram, w) =>
          if dgram = [] then (none, w)
          else if answers msg dgram then (some dgram, w)
          else bridgeReads msg reads w

def bridgeAttempts (msg : List UInt8) : Nat → σ → Option (List UInt8) × σ
  | 0, w => (none, w)
  | attempts + 1, w =>
      match carrier.doWrite msg w with
      | (false, w) => bridgeAttempts msg attempts w
      | (true, w) =>
          match bridgeReads carrier msg 6 w with
          | (some dgram, w) => (some dgram, w)
          | (none, w) => bridgeAttempts msg attempts w

/-- The messages of one client, until its stream ends or is none, a request has
no reply, or the client is gone. `fuel` bounds the messages. -/
def bridgeClient : Nat → List UInt8 → σ → σ
  | 0, _, w => w
  | fuel + 1, stream, w =>
      match nextFrame 7 600 stream with
      | none => w
      | some (msg, rest) =>
          match bridgeAttempts carrier msg 4 w with
          | (none, w) => w
          | (some dgram, w) =>
              match carrier.answer dgram w with
              | (false, w) => w
              | (true, w) => bridgeClient fuel rest w

/-- `do_bridge`: one client after the other over one conversation. A message has
at least 7 bytes. -/
def doBridge : List (List UInt8) → σ → σ
  | [], w => w
  | stream :: later, w => doBridge later (bridgeClient carrier (stream.length + 1) stream w)

end

/-! ## What the bridge says to both sides -/

/-- A write to the data fid with its outcome, a read of it, and a write to the
client with its outcome. -/
inductive BridgeIo where
  | wrote (msg : List UInt8) (ok : Bool)
  | read (dgram : List UInt8)
  | answered (dgram : List UInt8) (ok : Bool)
  deriving DecidableEq

def Carrier.logged {σ : Type} (carrier : Carrier σ) : Carrier (σ × List BridgeIo) where
  doWrite msg := fun (w, log) =>
    ((carrier.doWrite msg w).1, (carrier.doWrite msg w).2, log ++ [.wrote msg (carrier.doWrite msg w).1])
  doRead := fun (w, log) => ((carrier.doRead w).1, (carrier.doRead w).2, log ++ [.read (carrier.doRead w).1])
  answer dgram := fun (w, log) =>
    ((carrier.answer dgram w).1, (carrier.answer dgram w).2, log ++ [.answered dgram (carrier.answer dgram w).1])

/-- The datagrams read behind one write, so many at most: the reply is the first
that bears the tag, and nothing is read behind it. Without one they end with an
empty read or with their number. -/
structure Reads (msg : List UInt8) (most : Nat) (dgrams : List (List UInt8)) (reply : Option (List UInt8)) :
    Prop where
  few : dgrams.length ≤ most
  passed : ∀ dgram ∈ dgrams.dropLast, dgram ≠ [] ∧ answers msg dgram = false
  first : dgrams.find? (answers msg) = reply
  spent : reply = none → dgrams.length = most ∨ dgrams.getLast? = some []

inductive Attempt (msg : List UInt8) : List BridgeIo → Option (List UInt8) → Prop where
  | failed : Attempt msg [.wrote msg false] none
  | wrote {dgrams : List (List UInt8)} {reply : Option (List UInt8)} (reads : Reads msg 6 dgrams reply) :
      Attempt msg (.wrote msg true :: dgrams.map .read) reply

/-- A request and what came back for it: so many attempts without a reply, or
fewer and one with it. -/
inductive Round (msg : List UInt8) : Nat → List BridgeIo → Option (List UInt8) → Prop where
  | spent : Round msg 0 [] none
  | answered {attempts : Nat} {log : List BridgeIo} {dgram : List UInt8} (attempt : Attempt msg log (some dgram)) :
      Round msg (attempts + 1) log (some dgram)
  | again {attempts : Nat} {log later : List BridgeIo} {reply : Option (List UInt8)} (attempt : Attempt msg log none)
      (round : Round msg attempts later reply) : Round msg (attempts + 1) (log ++ later) reply

/-- What the bridge does for the messages of a client: a round each, and its reply
written to the client before the next one starts. It ends where a round has no
reply or the write to the client fails, and goes on everywhere else. -/
inductive Relays : List (List UInt8) → List BridgeIo → Prop where
  | nil : Relays [] []
  | lost {msg : List UInt8} {later : List (List UInt8)} {log : List BridgeIo} (round : Round msg 4 log none) :
      Relays (msg :: later) log
  | gone {msg dgram : List UInt8} {later : List (List UInt8)} {log : List BridgeIo}
      (round : Round msg 4 log (some dgram)) : Relays (msg :: later) (log ++ [.answered dgram false])
  | answered {msg dgram : List UInt8} {later : List (List UInt8)} {log rest : List BridgeIo}
      (round : Round msg 4 log (some dgram)) (relays : Relays later rest) :
      Relays (msg :: later) (log ++ .answered dgram true :: rest)

variable {σ : Type} {carrier : Carrier σ} {msg : List UInt8}

theorem Carrier.logged_doWrite (carrier : Carrier σ) (msg : List UInt8) (w : σ) (log : List BridgeIo) :
    carrier.logged.doWrite msg (w, log) =
      ((carrier.doWrite msg w).1, (carrier.doWrite msg w).2, log ++ [.wrote msg (carrier.doWrite msg w).1]) := rfl

theorem Carrier.logged_doRead (carrier : Carrier σ) (w : σ) (log : List BridgeIo) :
    carrier.logged.doRead (w, log) =
      ((carrier.doRead w).1, (carrier.doRead w).2, log ++ [.read (carrier.doRead w).1]) := rfl

theorem Carrier.logged_answer (carrier : Carrier σ) (dgram : List UInt8) (w : σ) (log : List BridgeIo) :
    carrier.logged.answer dgram (w, log) =
      ((carrier.answer dgram w).1, (carrier.answer dgram w).2, log ++ [.answered dgram (carrier.answer dgram w).1]) :=
  rfl

theorem Reads.cons {most : Nat} {dgram : List UInt8} {dgrams : List (List UInt8)} {reply : Option (List UInt8)}
    (hsome : dgram ≠ []) (hother : answers msg dgram = false) (h : Reads msg most dgrams reply) :
    Reads msg (most + 1) (dgram :: dgrams) reply where
  few := Nat.succ_le_succ h.few
  passed := by
    intro other hmem
    cases hrest : dgrams with
    | nil => simp [hrest] at hmem
    | cons next rest =>
      rw [hrest, List.dropLast_cons_of_ne_nil (by simp), List.mem_cons] at hmem
      rcases hmem with rfl | hmem
      · exact ⟨hsome, hother⟩
      · exact h.passed other (hrest ▸ hmem)
  first := by
    rw [List.find?_cons_of_neg (by simp [hother]), h.first]
  spent := by
    intro hnone
    rcases h.spent hnone with hfull | hempty
    · exact .inl (congrArg (· + 1) hfull)
    · refine .inr ?_
      rw [List.getLast?_cons, hempty]
      rfl

theorem bridgeReads_log {most : Nat} {w w' : σ} {log log' : List BridgeIo} {reply : Option (List UInt8)}
    (h : bridgeReads carrier.logged msg most (w, log) = (reply, w', log')) :
    ∃ dgrams, log' = log ++ dgrams.map BridgeIo.read ∧ Reads msg most dgrams reply := by
  induction most generalizing w log with
  | zero =>
    cases h
    exact ⟨[], (List.append_nil _).symm, Nat.le_refl 0, by simp, rfl, fun _ => .inl rfl⟩
  | succ most ih =>
    rw [bridgeReads, Carrier.logged_doRead] at h
    dsimp only at h
    generalize (carrier.doRead w).1 = dgram at h
    split at h
    · rename_i hempty
      cases h
      subst hempty
      exact ⟨[[]], rfl, by simp, by simp, by simp [answers], fun _ => .inr rfl⟩
    · rename_i hsome
      split at h
      · rename_i hanswers
        cases h
        exact ⟨[dgram], rfl, by simp, by simp, by simp [hanswers], nofun⟩
      · rename_i hother
        obtain ⟨dgrams, rfl, hreads⟩ := ih h
        exact ⟨dgram :: dgrams, by simp, hreads.cons hsome (Bool.not_eq_true _ ▸ hother)⟩

theorem bridgeAttempts_log {attempts : Nat} {w w' : σ} {log log' : List BridgeIo} {reply : Option (List UInt8)}
    (h : bridgeAttempts carrier.logged msg attempts (w, log) = (reply, w', log')) :
    ∃ new, log' = log ++ new ∧ Round msg attempts new reply := by
  induction attempts generalizing w log with
  | zero =>
    cases h
    exact ⟨[], (List.append_nil _).symm, .spent⟩
  | succ attempts ih =>
    rw [bridgeAttempts, Carrier.logged_doWrite] at h
    generalize carrier.doWrite msg w = written at h
    obtain ⟨ok, w₁⟩ := written
    cases ok with
    | false =>
      obtain ⟨new, rfl, hnew⟩ := ih h
      exact ⟨[.wrote msg false] ++ new, by simp, .again .failed hnew⟩
    | true =>
      dsimp only at h
      split at h
      · rename_i dgram w₂ hread
        cases h
        obtain ⟨dgrams, rfl, hreads⟩ := bridgeReads_log hread
        exact ⟨.wrote msg true :: dgrams.map .read, by simp, .answered (.wrote hreads)⟩
      · rename_i w₂ hread
        obtain ⟨w₂, log₂⟩ := w₂
        obtain ⟨dgrams, rfl, hreads⟩ := bridgeReads_log hread
        obtain ⟨new, rfl, hnew⟩ := ih h
        exact ⟨(.wrote msg true :: dgrams.map .read) ++ new, by simp, .again (.wrote hreads) hnew⟩

theorem bridgeClient_log {fuel : Nat} {msgs : List (List UInt8)} {tail : List UInt8} {w w' : σ}
    {log log' : List BridgeIo} (hmsgs : ∀ msg ∈ msgs, Framed 7 600 msg) (htail : nextFrame 7 600 tail = none)
    (hfuel : msgs.length < fuel) (h : bridgeClient carrier.logged fuel (msgs.flatten ++ tail) (w, log) = (w', log')) :
    ∃ new, log' = log ++ new ∧ Relays msgs new := by
  induction msgs generalizing fuel w log with
  | nil =>
    obtain ⟨fuel, rfl⟩ := Nat.exists_eq_add_one_of_ne_zero (Nat.ne_of_gt hfuel)
    rw [List.flatten_nil, List.nil_append, bridgeClient, htail] at h
    cases h
    exact ⟨[], (List.append_nil _).symm, .nil⟩
  | cons msg later ih =>
    obtain ⟨hmsg, hlater⟩ := List.forall_mem_cons.mp hmsgs
    obtain ⟨fuel, rfl⟩ := Nat.exists_eq_add_one_of_ne_zero (Nat.ne_of_gt (Nat.zero_lt_of_lt hfuel))
    rw [List.flatten_cons, List.append_assoc, bridgeClient, nextFrame_framed (by decide) hmsg] at h
    dsimp only at h
    split at h
    · rename_i w₁ hround
      obtain ⟨new, rfl, hnew⟩ := bridgeAttempts_log (hround.trans (by rw [h]))
      exact ⟨new, rfl, .lost hnew⟩
    · rename_i dgram w₁ hround
      obtain ⟨w₁, log₁⟩ := w₁
      obtain ⟨round, rfl, hanswered⟩ := bridgeAttempts_log hround
      rw [Carrier.logged_answer] at h
      generalize carrier.answer dgram w₁ = answered at h
      obtain ⟨ok, w₂⟩ := answered
      cases ok with
      | false =>
        cases h
        exact ⟨round ++ [.answered dgram false], by simp, .gone hanswered⟩
      | true =>
        obtain ⟨new, rfl, hnew⟩ := ih hlater (Nat.lt_of_succ_lt_succ hfuel) h
        exact ⟨round ++ .answered dgram true :: new, by simp, .answered hanswered hnew⟩

def MadeOf (stream : List UInt8) (msgs : List (List UInt8)) : Prop :=
  ∃ tail, stream = msgs.flatten ++ tail ∧ (∀ msg ∈ msgs, Framed 7 600 msg) ∧ nextFrame 7 600 tail = none

theorem length_le_of_madeOf {stream : List UInt8} {msgs : List (List UInt8)} (h : MadeOf stream msgs) :
    msgs.length ≤ stream.length := by
  obtain ⟨tail, rfl, hmsgs, -⟩ := h
  have hflat : msgs.length ≤ msgs.flatten.length := by
    induction msgs with
    | nil => exact Nat.le_refl 0
    | cons msg later ih =>
      obtain ⟨hmsg, hlater⟩ := List.forall_mem_cons.mp hmsgs
      have hlong := hmsg.long
      have hrest := ih hlater
      rw [List.length_cons, List.flatten_cons, List.length_append]
      omega
  rw [List.length_append]
  exact Nat.le_add_right_of_le hflat

/-- Whatever the clients send and the conversation does: each client's stream is
cut into its messages, and what the bridge says to both sides is, client after
client, a round for each message with its answer behind it. -/
theorem bridge_relays (streams : List (List UInt8)) (w : σ) :
    ∃ sessions logs, List.Forall₂ MadeOf streams sessions ∧ List.Forall₂ Relays sessions logs ∧
      (doBridge carrier.logged streams (w, [])).2 = logs.flatten := by
  have hrun : ∀ log, ∃ sessions logs, List.Forall₂ MadeOf streams sessions ∧ List.Forall₂ Relays sessions logs ∧
      (doBridge carrier.logged streams (w, log)).2 = log ++ logs.flatten := by
    induction streams generalizing w with
    | nil => exact fun log => ⟨[], [], .nil, .nil, (List.append_nil log).symm⟩
    | cons stream later ih =>
      intro log
      obtain ⟨msgs, tail, hstream, hmsgs, htail⟩ := @exists_frames 7 600 (by decide) stream
      have hmade : MadeOf stream msgs := ⟨tail, hstream, hmsgs, htail⟩
      have hfuel : msgs.length < stream.length + 1 := Nat.lt_succ_of_le (length_le_of_madeOf hmade)
      generalize hclient : bridgeClient carrier.logged (stream.length + 1) stream (w, log) = after
      obtain ⟨w₁, log₁⟩ := after
      rw [hstream] at hclient
      obtain ⟨new, rfl, hnew⟩ := bridgeClient_log hmsgs htail (hstream ▸ hfuel) hclient
      obtain ⟨sessions, logs, hsessions, hlogs, hlater⟩ := ih w₁ (log ++ new)
      refine ⟨msgs :: sessions, new :: logs, .cons hmade hsessions, .cons hnew hlogs, ?_⟩
      rw [doBridge, hstream, hclient, hlater, List.flatten_cons, List.append_assoc]
  exact hrun []

end DectMesh.Tools
