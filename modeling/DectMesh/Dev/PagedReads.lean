import DectMesh.Dev.ChatLog
import DectMesh.Dev.Renderers
import DectMesh.Lib.Paging

/-! The state files and the scrollback read in pages by several clients. A file's
static buffer is one for all readers and is rendered by anybody's read at offset
0; the scrollback shifts when it rolls over. -/
namespace DectMesh.Dev

open DectMesh.Lib DectMesh.Aether

inductive DevFile where
  | tree
  | neighbors
  | routes
  | chat
  deriving DecidableEq

structure MeshState where
  ctx : Option MeshCtx
  uptime : Nat → UInt32

/-- `tb`, `nb` and `rb` are the static buffers of the renderers. -/
structure DevState where
  mesh : MeshState
  chat : Scrollback
  tb : Sheet 256
  nb : Sheet 512
  rb : Sheet 512

/-- A client with a file: `text` is what it has read since offset 0, all of it
once a read has returned 0. -/
inductive Listing where
  | idle
  | reading (text : List UInt8)
  | done (text : List UInt8)
  deriving DecidableEq

def Listing.text : Listing → List UInt8
  | .reading text => text
  | .idle | .done _ => []

/-- `moments` is history: the mesh and the scrollback as they have been. -/
structure DevFiles (κ : Type) where
  dev : DevState
  client : κ × DevFile → Listing
  moments : List (MeshState × Scrollback)

inductive DevEvent (κ : Type) where
  | mesh (m : MeshState)
  | chat (a : Arrival)
  | read (k : κ) (f : DevFile) (count : Nat)
  | clunk (k : κ) (f : DevFile)

def blank (cap : Nat) : Sheet cap := ⟨List.replicate cap 0, List.length_replicate, 0, []⟩

def DevFiles.init (κ : Type) (m : MeshState) : DevFiles κ where
  dev := ⟨m, .empty, blank 256, blank 512, blank 512⟩
  client _ := .idle
  moments := [(m, .empty)]

/-- What reads get from: the string in the static buffer, or the log. -/
def DevState.served (d : DevState) : DevFile → List UInt8
  | .tree => d.tb.bytes.takeWhile (· ≠ 0)
  | .neighbors => d.nb.bytes.takeWhile (· ≠ 0)
  | .routes => d.rb.bytes.takeWhile (· ≠ 0)
  | .chat => d.chat.log

section

variable (honr : Honr) (nodeId : UInt32)

def readFile (d : DevState) (sz off : Nat) : DevFile → List UInt8 × DevState
  | .tree =>
      match genTree honr nodeId d.mesh.ctx d.tb sz off with
      | (page, tb) => (page, { d with tb := tb })
  | .neighbors =>
      match genNeighbors d.mesh.uptime d.mesh.ctx d.nb sz off with
      | (page, nb) => (page, { d with nb := nb })
  | .routes =>
      match genRoutes d.mesh.ctx d.rb sz off with
      | (page, rb) => (page, { d with rb := rb })
  | .chat => (genChat d.chat sz off, d)

def rendering (moment : MeshState × Scrollback) : DevFile → List UInt8
  | .tree => treeText honr nodeId moment.1.ctx
  | .neighbors => Sheet.eachText (neighborEntry moment.1.uptime) (neighborTable moment.1.ctx)
  | .routes => Sheet.eachText routeEntry (routeTable moment.1.ctx)
  | .chat => moment.2.log

def FitsBuffer (m : MeshState) : DevFile → Prop
  | .tree => nodeWidth honr nodeId m.ctx + (m.ctx.map (treeWidth honr)).getD 0 < 256
  | .neighbors => neighborsWidth m.uptime m.ctx < 512
  | .routes => routesWidth m.ctx < 512
  | .chat => True

variable {κ : Type} [DecidableEq κ]

/-- A client that is not in the middle of a file begins it at offset 0. -/
def DevFiles.step (s : DevFiles κ) : DevEvent κ → Option (DevFiles κ)
  | .mesh m => some { s with dev := { s.dev with mesh := m }, moments := s.moments ++ [(m, s.dev.chat)] }
  | .chat a =>
      (chatRecvCb s.dev.chat a).map fun chat =>
        { s with dev := { s.dev with chat := chat }, moments := s.moments ++ [(s.dev.mesh, chat)] }
  | .read k f count =>
      if count = 0 then none
      else
        let text := (s.client (k, f)).text
        match readFile honr nodeId s.dev count text.length f with
        | (page, dev) =>
            some { s with
              dev := dev
              client := Function.update s.client (k, f) (if page = [] then .done text else .reading (text ++ page)) }
  | .clunk k f => some { s with client := Function.update s.client (k, f) .idle }

/-- Every listing that has come to its end is the content at one moment. -/
def DevFiles.Snapshots (s : DevFiles κ) : Prop :=
  ∀ k f text, s.client (k, f) = .done text → ∃ moment ∈ s.moments, text = rendering honr nodeId moment f

/-- A rolled-over log still begins with all that its readers have read, and so
does what a read at offset 0 renders; that fits the buffer. -/
def Undisturbed (s : DevFiles κ) : DevEvent κ → Prop
  | .mesh _ | .clunk _ _ => True
  | .chat a =>
      a.broadcast = true → chatLogSize ≤ s.dev.chat.log.length + (chatText a.src a.data).length →
        ∀ j, (s.client (j, .chat)).text <+: newestHalf a.belowLog s.dev.chat.log
  | .read k f _ =>
      (s.client (k, f)).text = [] → f ≠ .chat → FitsBuffer honr nodeId s.dev.mesh f ∧
        ∀ j, (s.client (j, f)).text <+: rendering honr nodeId (s.dev.mesh, s.dev.chat) f

end

/-! ## One read -/

section

variable {honr : Honr} {nodeId : UInt32} {d : DevState} {sz off : Nat} {f g : DevFile}

theorem page_later {cap : Nat} (render : Sheet cap → Sheet cap) (buf : Sheet cap) (sz : Nat) (hoff : off ≠ 0) :
    (page render buf sz off).2.bytes = buf.bytes := by
  rw [page, if_neg hoff]
  rfl

theorem readFile_page :
    (readFile honr nodeId d sz off f).1 = (((readFile honr nodeId d sz off f).2.served f).drop off).take sz := by
  cases f <;> rfl

theorem readFile_mesh : (readFile honr nodeId d sz off f).2.mesh = d.mesh := by
  cases f <;> rfl

theorem readFile_chat : (readFile honr nodeId d sz off f).2.chat = d.chat := by
  cases f <;> rfl

theorem readFile_other (h : g ≠ f) : (readFile honr nodeId d sz off f).2.served g = d.served g := by
  cases f <;> cases g <;> first | rfl | exact absurd rfl h

theorem readFile_later (h : off ≠ 0) : (readFile honr nodeId d sz off f).2.served f = d.served f := by
  cases f with
  | tree => exact congrArg (List.takeWhile _) (page_later _ d.tb sz h)
  | neighbors => exact congrArg (List.takeWhile _) (page_later _ d.nb sz h)
  | routes => exact congrArg (List.takeWhile _) (page_later _ d.rb sz h)
  | chat => rfl

theorem readFile_first (hfits : FitsBuffer honr nodeId d.mesh f) :
    (readFile honr nodeId d sz 0 f).2.served f = rendering honr nodeId (d.mesh, d.chat) f := by
  cases f with
  | tree => exact string_holds (renderTree_holds hfits d.tb) (treeText_plain honr nodeId d.mesh.ctx)
  | neighbors => exact string_holds (renderNeighbors_holds hfits d.nb) (eachText_plain _ (neighborEntry_plain _))
  | routes => exact string_holds (renderRoutes_holds hfits d.rb) (eachText_plain _ routeEntry_plain)
  | chat => rfl

end

/-! ## Pages and lines -/

theorem served_mesh (d : DevState) (m : MeshState) (f : DevFile) :
    DevState.served { d with mesh := m } f = d.served f := by
  cases f <;> rfl

theorem line_keeps {s chat : Scrollback} {a : Arrival} {text : List UInt8} (hstep : chatRecvCb s a = some chat)
    (hbegins : text <+: s.log)
    (hrolled : a.broadcast = true → chatLogSize ≤ s.log.length + (chatText a.src a.data).length →
      text <+: newestHalf a.belowLog s.log) : text <+: chat.log := by
  cases Option.some.inj hstep
  split
  · rename_i hbroadcast
    simp only [aether9pChatLog]
    split
    · exact hbegins
    · split
      · rename_i hfull
        exact (hrolled hbroadcast hfull).trans (List.prefix_append _ _)
      · exact hbegins.trans (List.prefix_append _ _)
  · exact hbegins

/-! ## Every run -/

/-- What a client in the middle of a file has read begins what the file serves,
and that is the content at some moment. -/
structure DevInv {κ : Type} (honr : Honr) (nodeId : UInt32) (s : DevFiles κ) : Prop where
  now : (s.dev.mesh, s.dev.chat) ∈ s.moments
  begins : ∀ k f, (s.client (k, f)).text <+: s.dev.served f
  shown : ∀ k f, (s.client (k, f)).text ≠ [] →
    ∃ moment ∈ s.moments, s.dev.served f = rendering honr nodeId moment f
  snapshots : s.Snapshots honr nodeId

section

variable {honr : Honr} {nodeId : UInt32} {κ : Type} [DecidableEq κ] {s s' : DevFiles κ}

omit [DecidableEq κ] in
theorem devInv_init (m : MeshState) : DevInv honr nodeId (.init κ m) where
  now := List.mem_singleton_self _
  begins _ _ := List.nil_prefix
  shown _ _ hne := absurd rfl hne
  snapshots _ _ _ := nofun

omit [DecidableEq κ] in
theorem snapshots_later {client : κ × DevFile → Listing} {dev dev' : DevState}
    {past later : List (MeshState × Scrollback)}
    (h : DevFiles.Snapshots honr nodeId ⟨dev, client, past⟩) :
    DevFiles.Snapshots honr nodeId ⟨dev', client, past ++ later⟩ := fun k f text hk =>
  let ⟨moment, hmoment, htext⟩ := h k f text hk
  ⟨moment, List.mem_append_left _ hmoment, htext⟩

omit [DecidableEq κ] in
theorem devInv_mesh (h : DevInv honr nodeId s) (m : MeshState) :
    DevInv honr nodeId { s with dev := { s.dev with mesh := m }, moments := s.moments ++ [(m, s.dev.chat)] } where
  now := List.mem_append_right _ (List.mem_singleton_self _)
  begins k f := by
    rw [served_mesh]
    exact h.begins k f
  shown k f hne := by
    obtain ⟨moment, hmoment, hserved⟩ := h.shown k f hne
    rw [served_mesh]
    exact ⟨moment, List.mem_append_left _ hmoment, hserved⟩
  snapshots := snapshots_later h.snapshots

omit [DecidableEq κ] in
theorem devInv_chat (h : DevInv honr nodeId s) {a : Arrival} {chat : Scrollback}
    (hgood : Undisturbed honr nodeId s (.chat a)) (hchat : chatRecvCb s.dev.chat a = some chat) :
    DevInv honr nodeId
      { s with dev := { s.dev with chat := chat }, moments := s.moments ++ [(s.dev.mesh, chat)] } where
  now := List.mem_append_right _ (List.mem_singleton_self _)
  begins k f := by
    cases f with
    | chat => exact line_keeps hchat (h.begins k .chat) fun hbroadcast hfull => hgood hbroadcast hfull k
    | tree | neighbors | routes => exact h.begins k _
  shown k f hne := by
    cases f with
    | chat => exact ⟨(s.dev.mesh, chat), List.mem_append_right _ (List.mem_singleton_self _), rfl⟩
    | tree | neighbors | routes =>
      obtain ⟨moment, hmoment, hserved⟩ := h.shown k _ hne
      exact ⟨moment, List.mem_append_left _ hmoment, hserved⟩
  snapshots := snapshots_later h.snapshots

omit [DecidableEq κ] in
/-- After a read the file still begins with what each client has of it and serves
the content of a moment. -/
theorem served_after {k : κ} {f : DevFile} {count : Nat} (h : DevInv honr nodeId s)
    (hgood : Undisturbed honr nodeId s (.read k f count)) :
    (∀ j, (s.client (j, f)).text <+:
      (readFile honr nodeId s.dev count (s.client (k, f)).text.length f).2.served f) ∧
    ∃ moment ∈ s.moments, (readFile honr nodeId s.dev count (s.client (k, f)).text.length f).2.served f =
      rendering honr nodeId moment f := by
  by_cases hstart : (s.client (k, f)).text = []
  · rw [hstart, List.length_nil]
    by_cases hchat : f = .chat
    · subst hchat
      exact ⟨fun j => h.begins j .chat, _, h.now, rfl⟩
    · obtain ⟨hfits, hothers⟩ := hgood hstart hchat
      rw [readFile_first hfits]
      exact ⟨hothers, _, h.now, rfl⟩
  · rw [readFile_later (fun hzero => hstart (List.length_eq_zero_iff.mp hzero))]
    exact ⟨fun j => h.begins j f, h.shown k f hstart⟩

theorem devInv_listing {k : κ} {f : DevFile} {listing : Listing} {dev : DevState} (h : DevInv honr nodeId s)
    (hmesh : dev.mesh = s.dev.mesh) (hchat : dev.chat = s.dev.chat)
    (hother : ∀ g, g ≠ f → dev.served g = s.dev.served g)
    (hbegins : ∀ j, (s.client (j, f)).text <+: dev.served f)
    (hshown : ∃ moment ∈ s.moments, dev.served f = rendering honr nodeId moment f)
    (hlisting : listing.text <+: dev.served f) (hdone : ∀ text, listing = .done text → text = dev.served f) :
    DevInv honr nodeId { s with dev := dev, client := Function.update s.client (k, f) listing } where
  now := by
    simp only [hmesh, hchat]
    exact h.now
  begins j g := by
    by_cases hjk : (j, g) = (k, f)
    · cases hjk
      simpa only [Function.update_self] using hlisting
    · simp only [Function.update_of_ne hjk]
      by_cases hg : g = f
      · exact hg ▸ hbegins j
      · exact hother g hg ▸ h.begins j g
  shown j g hne := by
    by_cases hg : g = f
    · exact hg ▸ hshown
    · simp only [hother g hg]
      have hjk : (j, g) ≠ (k, f) := fun hjk => hg (Prod.mk.inj hjk).2
      simp only [Function.update_of_ne hjk] at hne
      exact h.shown j g hne
  snapshots j g text hj := by
    by_cases hjk : (j, g) = (k, f)
    · cases hjk
      simp only [Function.update_self] at hj
      obtain ⟨moment, hmoment, hserved⟩ := hshown
      exact ⟨moment, hmoment, (hdone text hj).trans hserved⟩
    · simp only [Function.update_of_ne hjk] at hj
      exact h.snapshots j g text hj

theorem devInv_read {k : κ} {f : DevFile} {count : Nat} (h : DevInv honr nodeId s)
    (hgood : Undisturbed honr nodeId s (.read k f count)) (hstep : s.step honr nodeId (.read k f count) = some s') :
    DevInv honr nodeId s' := by
  simp only [DevFiles.step] at hstep
  split at hstep
  · cases hstep
  rename_i hcount
  cases Option.some.inj hstep
  obtain ⟨hbegins, hshown⟩ := served_after h hgood
  have hown := hbegins k
  refine devInv_listing h readFile_mesh readFile_chat (fun g hg => readFile_other hg) hbegins hshown ?_ ?_
  · split
    · exact List.nil_prefix
    · rw [readFile_page]
      exact page_begins hown count
  · intro text htext
    split at htext
    · rename_i hend
      cases htext
      rw [readFile_page] at hend
      exact page_ends hown hcount hend
    · cases htext

theorem devInv_clunk (h : DevInv honr nodeId s) (k : κ) (f : DevFile) :
    DevInv honr nodeId { s with client := Function.update s.client (k, f) .idle } where
  now := h.now
  begins j g := by
    by_cases hjk : (j, g) = (k, f)
    · simp only [hjk, Function.update_self]
      exact List.nil_prefix
    · simpa only [Function.update_of_ne hjk] using h.begins j g
  shown j g hne := by
    by_cases hjk : (j, g) = (k, f)
    · simp only [hjk, Function.update_self, Listing.text, ne_eq, not_true_eq_false] at hne
    · exact h.shown j g (by simpa only [Function.update_of_ne hjk] using hne)
  snapshots j g text hj := by
    by_cases hjk : (j, g) = (k, f)
    · simp only [hjk, Function.update_self, reduceCtorEq] at hj
    · simp only [Function.update_of_ne hjk] at hj
      exact h.snapshots j g text hj

theorem devInv_step (s : DevFiles κ) (e : DevEvent κ) (s' : DevFiles κ) (h : DevInv honr nodeId s)
    (hgood : Undisturbed honr nodeId s e) (hstep : s.step honr nodeId e = some s') : DevInv honr nodeId s' := by
  cases e with
  | mesh m =>
    cases Option.some.inj hstep
    exact devInv_mesh h m
  | chat a =>
    rw [DevFiles.step, Option.map_eq_some_iff] at hstep
    obtain ⟨chat, hchat, rfl⟩ := hstep
    exact devInv_chat h hgood hchat
  | read k f count => exact devInv_read h hgood hstep
  | clunk k f =>
    cases Option.some.inj hstep
    exact devInv_clunk h k f

/-- While no step takes from a file what a client in the middle of it has read,
and what is rendered fits its buffer, every listing is one snapshot. -/
theorem paged_reads_snapshot (honr : Honr) (nodeId : UInt32) (m : MeshState) (events : List (DevEvent κ))
    (s : DevFiles κ) (hgood : Along (DevFiles.step honr nodeId) (Undisturbed honr nodeId) (.init κ m) events)
    (hrun : run (DevFiles.step honr nodeId) (.init κ m) events = some s) : s.Snapshots honr nodeId :=
  (run_invariant (DevInv honr nodeId) devInv_step (devInv_init m) hgood hrun).snapshots

end

instance FitsBuffer.decidable (honr : Honr) (nodeId : UInt32) (m : MeshState) :
    ∀ f, Decidable (FitsBuffer honr nodeId m f)
  | .tree => inferInstanceAs (Decidable (_ < _))
  | .neighbors => inferInstanceAs (Decidable (_ < _))
  | .routes => inferInstanceAs (Decidable (_ < _))
  | .chat => .isTrue trivial

instance Undisturbed.decidable (honr : Honr) (nodeId : UInt32) (s : DevFiles Bool) :
    ∀ e, Decidable (Undisturbed honr nodeId s e)
  | .mesh _ => .isTrue trivial
  | .clunk _ _ => .isTrue trivial
  | .chat _ => inferInstanceAs (Decidable (_ → _ → ∀ _, _))
  | .read _ _ _ => inferInstanceAs (Decidable (_ → _ → _ ∧ ∀ _, _))

def rootHonr : Honr := ⟨fun _ => 0, fun _ => true, fun _ => 0, fun _ _ _ => 0, 1, 1⟩

def oneRoute (low : UInt8) : MeshState where
  ctx := some ⟨0, true, 0, [], [⟨true, ⟨[0, 0, 0, 0, 0, low], rfl⟩, ⟨[0, 0, 0, 0, 0, low], rfl⟩, 1⟩]⟩
  uptime _ := 0

def inTurn : List (DevEvent Bool) :=
  [.read false .routes 10, .read true .routes 64, .mesh (oneRoute 2), .read false .routes 64,
    .read true .routes 64, .read false .routes 64]

theorem paged_reads_in_turn : ∃ s, run (DevFiles.step rootHonr 7) (.init Bool (oneRoute 1)) inTurn = some s ∧
    s.Snapshots rootHonr 7 := by
  obtain ⟨s, hrun⟩ : ∃ s, run (DevFiles.step rootHonr 7) (.init Bool (oneRoute 1)) inTurn = some s :=
    Option.isSome_iff_exists.mp (by decide +kernel)
  exact ⟨s, hrun, paged_reads_snapshot rootHonr 7 (oneRoute 1) inTurn s (by decide +kernel) hrun⟩

def refreshed : List (DevEvent Bool) :=
  [.read false .routes 10, .mesh (oneRoute 2), .read true .routes 64, .read false .routes 64, .read false .routes 64]

/-- A listing with the beginning of the old route and the end of the new one. -/
theorem page_of_another_rendering : ∃ s,
    run (DevFiles.step rootHonr 7) (.init Bool (oneRoute 1)) refreshed = some s ∧ ¬ s.Snapshots rootHonr 7 := by
  obtain ⟨s, hrun, hmixed⟩ :
      ∃ s, run (DevFiles.step rootHonr 7) (.init Bool (oneRoute 1)) refreshed = some s ∧
        (match s.client (false, .routes) with
        | .done text => s.moments.all fun moment => text ≠ rendering rootHonr 7 moment .routes
        | _ => false) = true := (Option.any_eq_true _ _).mp (by decide +kernel)
  refine ⟨s, hrun, fun hsnapshots => ?_⟩
  split at hmixed
  · rename_i text hdone
    obtain ⟨moment, hmoment, htext⟩ := hsnapshots false .routes text hdone
    exact of_decide_eq_true (List.all_eq_true.mp hmixed moment hmoment) htext
  · cases hmixed

end DectMesh.Dev
