import DectMesh.Aether.DrainLoss
import DectMesh.Aether.NeighborhoodPort
import DectMesh.Aether.PortInvariant
import DectMesh.Telemetry.RoundTrip

/-! The chunks of a mesh neighbour: what its 9P server takes off the packetizer for
the Treads that it executes, and what of that a drain brings home. -/
namespace DectMesh.Telemetry

open DectMesh.Lib DectMesh.Mesh9p DectMesh.Aether

/-- How a neighbour serves its `dev/mflt`: a Tread is refused, or it gets what
`gen_mflt` writes into a buffer of at most the bytes that a drain asks for. No
other request touches the packetizer. -/
structure ServesMflt {S : Type} (maxMsg : Nat) (eui : Addr) (pending : S → List Chunk) (handle : Handler S) :
    Prop where
  read : ∀ msg s, looksLike9pT maxMsg msg = true → typeOf msg = 116 →
    (typeOf (handle msg s).1 = 107 ∧ pending (handle msg s).2 = pending s) ∨
      ∃ size offset, (Device.mesh eui).HasRoom size ∧ size ≤ maxMsg - 16 ∧
        (handle msg s).1 = frame 117 (tagOf msg)
          (leBytes 4 (genMflt (some eui) size offset (pending s)).text.length ++
            (genMflt (some eui) size offset (pending s)).text) ∧
        pending (handle msg s).2 = (genMflt (some eui) size offset (pending s)).pending
  other : ∀ msg s, looksLike9pT maxMsg msg = true → typeOf msg ≠ 116 → pending (handle msg s).2 = pending s

def postOf (eui : Addr) (chunk : Chunk) : Post := ⟨dectSerial eui, chunk.bytes⟩

structure Composed (eui : Addr) (text : List UInt8) (chunks : List Chunk) (segments : List Segment) : Prop where
  rooms : ∀ segment ∈ segments, segment.HasRoom
  text : segments.flatMap Segment.text = text
  posts : segments.flatMap Segment.posts = chunks.map (postOf eui)

theorem composed_nil (eui : Addr) : Composed eui [] [] [] := ⟨fun _ h => absurd h List.not_mem_nil, rfl, rfl⟩

theorem Composed.append {eui : Addr} {text more : List UInt8} {chunks later : List Chunk}
    {segments others : List Segment} (h : Composed eui text chunks segments)
    (hmore : Composed eui more later others) :
    Composed eui (text ++ more) (chunks ++ later) (segments ++ others) where
  rooms := by
    intro segment hmem
    exact (List.mem_append.mp hmem).elim (h.rooms segment) (hmore.rooms segment)
  text := by rw [List.flatMap_append, h.text, hmore.text]
  posts := by rw [List.flatMap_append, h.posts, hmore.posts, List.map_append]

def Carries (eui : Addr) (e : Exchange) (chunks : List Chunk) : Prop :=
  ∃ segments, Composed eui e.batch chunks segments

/-- The chunks that the executed requests took, in order, stood before the ones
that are still pending. -/
def Streamed {S : Type} (eui : Addr) (pending : S → List Chunk) (before : List Chunk) (a : Air S) : Prop :=
  ∃ taken : List (List Chunk), List.Forall₂ (Carries eui) a.served taken ∧
    taken.flatten ++ pending a.server = before

/-! ## At the neighbour -/

section

variable {S : Type} {maxMsg : Nat} {eui : Addr} {pending : S → List Chunk} {handle : Handler S}
  {plan : Nat → List Nat} {before : List Chunk}

theorem read_carries {size : Nat} (h : (Device.mesh eui).HasRoom size) (offset : Nat) (chunks : List Chunk) :
    ∃ taken, Composed eui (genMflt (some eui) size offset chunks).text taken
        [.stream (.mesh eui) size offset chunks] ∧
      taken ++ (genMflt (some eui) size offset chunks).pending = chunks ∧
      (genMflt (some eui) size offset chunks).text.length ≤ size := by
  have hwhole : (Segment.stream (.mesh eui) size offset chunks).Whole := whole h
  refine ⟨(genMflt (some eui) size offset chunks).taken chunks, ⟨?_, ?_, ?_⟩, hwhole.taken, ?_⟩
  · intro segment hmem
    rw [List.mem_singleton.mp hmem]
    exact h
  · rw [List.flatMap_singleton]
    rfl
  · rw [List.flatMap_singleton]
    rfl
  · exact hwhole.total ▸ hwhole.fits

theorem ServesMflt.handsOut (h : ServesMflt maxMsg eui pending handle) : HandsOut maxMsg handle := by
  intro msg s hshape htype
  rcases h.read msg s hshape htype with ⟨hrefused, -⟩ | ⟨size, offset, hroom, hsize, hreply, -⟩
  · exact .inl hrefused
  · obtain ⟨-, -, -, hlength⟩ := read_carries hroom offset (pending s)
    exact .inr ⟨_, hlength.trans hsize, hreply⟩

theorem ServesMflt.carries (h : ServesMflt maxMsg eui pending handle) {msg : List UInt8} (s : S)
    (hshape : looksLike9pT maxMsg msg = true) :
    ∃ taken, Carries eui ⟨msg, (handle msg s).1⟩ taken ∧ taken ++ pending (handle msg s).2 = pending s := by
  have hnothing (hbatch : (Exchange.mk msg (handle msg s).1).batch = [])
      (hkept : pending (handle msg s).2 = pending s) :
      ∃ taken, Carries eui ⟨msg, (handle msg s).1⟩ taken ∧ taken ++ pending (handle msg s).2 = pending s :=
    ⟨[], ⟨[], hbatch ▸ composed_nil eui⟩, hkept⟩
  by_cases htype : typeOf msg = 116
  · rcases h.read msg s hshape htype with ⟨hrefused, hkept⟩ | ⟨size, offset, hroom, -, hreply, hpending⟩
    · refine hnothing ?_ hkept
      rw [Exchange.batch]
      exact if_neg fun hboth => absurd (hrefused.symm.trans hboth.2) (by decide)
    · obtain ⟨taken, hcomposed, hall, -⟩ := read_carries hroom offset (pending s)
      have hbatch : (Exchange.mk msg (handle msg s).1).batch = (genMflt (some eui) size offset (pending s)).text := by
        rw [Exchange.batch, hreply, typeOf_frame, if_pos ⟨htype, rfl⟩]
        simp [frame, leBytes]
      exact ⟨taken, ⟨_, hbatch ▸ hcomposed⟩, hpending ▸ hall⟩
  · refine hnothing ?_ (h.other msg s hshape htype)
    rw [Exchange.batch]
    exact if_neg fun hboth => htype hboth.1

theorem streamed_execute (h : ServesMflt maxMsg eui pending handle) {a : Air S} (hold : Streamed eui pending before a)
    (dst : Addr) (msg : List UInt8) : Streamed eui pending before (a.execute maxMsg handle dst msg) := by
  obtain ⟨taken, hserved, hall⟩ := hold
  unfold Air.execute
  split
  · rename_i hshape
    obtain ⟨more, hcarries, hpending⟩ := h.carries a.server hshape
    refine ⟨taken ++ [more], List.rel_append hserved (.cons hcarries .nil), ?_⟩
    rw [List.flatten_append, List.flatten_singleton, List.append_assoc, hpending]
    exact hall
  · exact ⟨taken, hserved, hall⟩

theorem land_server (a : Air S) (i : Nat) :
    (a.land maxMsg i).served = a.served ∧ (a.land maxMsg i).server = a.server := by
  unfold Air.land
  split <;> exact ⟨rfl, rfl⟩

theorem wait_server (a : Air S) :
    (a.wait maxMsg plan).served = a.served ∧ (a.wait maxMsg plan).server = a.server := by
  have hfold : ∀ (picks : List Nat) (b : Air S), (picks.foldl (Air.land maxMsg) b).served = b.served ∧
      (picks.foldl (Air.land maxMsg) b).server = b.server := by
    intro picks
    induction picks with
    | nil => exact fun b => ⟨rfl, rfl⟩
    | cons i rest ih =>
      intro b
      have hland := @land_server S maxMsg b i
      have hrest := ih (b.land maxMsg i)
      exact ⟨hrest.1.trans hland.1, hrest.2.trans hland.2⟩
  exact hfold (plan a.waits) { a with waits := a.waits + 1 }

theorem take_server (a : Air S) : a.take.2.served = a.served ∧ a.take.2.server = a.server := by
  unfold Air.take
  split <;> exact ⟨rfl, rfl⟩

/-- Only the requests that are executed take chunks. -/
theorem airPort_streamed (h : ServesMflt maxMsg eui pending handle) (plan : Nat → List Nat) (before : List Chunk) :
    (airPort maxMsg handle plan).Keeps (Streamed eui pending before) where
  euiToAddr _ _ hold := hold
  sendReliable dst msg a hold := streamed_execute h hold dst msg
  msgqGet conv wait a hold := by
    have hwait := @wait_server S maxMsg plan a
    have htake := take_server (a.wait maxMsg plan)
    show Streamed eui pending before (a.wait maxMsg plan).take.2
    rw [Streamed, htake.1, htake.2, hwait.1, hwait.2]
    exact hold

end

/-! ## What a drain brings home -/

theorem carries_sublist {eui : Addr} {kept served : List Exchange} {taken : List (List Chunk)}
    (hkept : kept.Sublist served) (h : List.Forall₂ (Carries eui) served taken) :
    ∃ parts : List (List Chunk), parts.Sublist taken ∧ List.Forall₂ (Carries eui) kept parts := by
  induction hkept generalizing taken with
  | slnil =>
    cases h
    exact ⟨[], List.Sublist.refl _, .nil⟩
  | cons e _ ih =>
    cases h with
    | cons _ hrest =>
      obtain ⟨parts, hparts, hall⟩ := ih hrest
      exact ⟨parts, hparts.cons _, hall⟩
  | cons_cons e _ ih =>
    cases h with
    | cons hfirst hrest =>
      obtain ⟨parts, hparts, hall⟩ := ih hrest
      exact ⟨_ :: parts, hparts.cons_cons _, .cons hfirst hall⟩

theorem carries_text {eui : Addr} {kept : List Exchange} {parts : List (List Chunk)}
    (h : List.Forall₂ (Carries eui) kept parts) :
    ∃ segments, Composed eui (handedOut kept) parts.flatten segments := by
  induction h with
  | nil => exact ⟨[], composed_nil eui⟩
  | cons hfirst _ ih =>
    obtain ⟨segments, hsegments⟩ := hfirst
    obtain ⟨others, hothers⟩ := ih
    exact ⟨segments ++ others, hsegments.append hothers⟩

theorem Composed.posted {eui : Addr} {text : List UInt8} {chunks : List Chunk} {segments : List Segment}
    (h : Composed eui text chunks segments) (curl : Nat → Bool) (clock : Nat → Int) (devs : List Dev)
    {earlier later : List Segment} (hearlier : ∀ segment ∈ earlier, segment.HasRoom)
    (hlater : ∀ segment ∈ later, segment.HasRoom) (after : List UInt8) :
    (forwardStream curl clock
        (earlier.flatMap Segment.text ++ text ++ later.flatMap Segment.text ++ 0 :: after) devs).posts =
      earlier.flatMap Segment.posts ++ chunks.map (postOf eui) ++ later.flatMap Segment.posts := by
  have hrooms : ∀ segment ∈ earlier ++ segments ++ later, segment.HasRoom := by
    intro segment hmem
    rcases List.mem_append.mp hmem with hmem | hmem
    · exact (List.mem_append.mp hmem).elim (hearlier segment) (h.rooms segment)
    · exact hlater segment hmem
  have hposts := forwardStream_segments curl clock devs (earlier ++ segments ++ later) after hrooms
  rw [List.flatMap_append, List.flatMap_append, h.text, List.flatMap_append, List.flatMap_append, h.posts] at hposts
  exact hposts

section

variable {S : Type} {maxMsg cap : Nat} {eui : Addr} {pending : S → List Chunk} {handle : Handler S}
  {plan : Nat → List Nat}

/-- With room for all that the neighbour handed out, a session brings home some of
the chunks that it took, in order, and all of them if every reply was in time. -/
theorem drainSession_composed (hmax : maxMsg < 65536) (hserver : Replies maxMsg handle)
    (hserves : ServesMflt maxMsg eui pending handle) (hcap : cap < 4294967296) (conv : Slot) {w w' : Air S}
    {d : Drained} (hquiet : w.Quiet)
    (hsession : drainSession (airPort maxMsg handle plan) maxMsg conv cap w = (d, w')) :
    ∃ taken, taken ++ pending w'.server = pending w.server ∧
      ((handedOut w'.served).length < cap → ∃ kept segments, Composed eui (d.output cap) kept segments ∧
        kept.Sublist taken ∧ (Timely w' → kept = taken)) := by
  have hstart : Streamed eui pending (pending w.server) w := by
    refine ⟨[], ?_, rfl⟩
    rw [hquiet.served]
    exact .nil
  have hstreamed := drainSession_keeps maxMsg (airPort_streamed hserves plan (pending w.server)) conv cap hstart
  obtain ⟨out, haccount⟩ := drainSession_accounted hserver hmax hserves.handsOut hcap plan conv hquiet
  rw [hsession] at hstreamed haccount
  obtain ⟨taken, hserved, hall⟩ := hstreamed
  refine ⟨taken.flatten, hall, fun hfits => ?_⟩
  have hroom : (handedOut w'.served).length ≤ cap - 1 := Nat.le_sub_one_of_lt hfits
  rw [show d.output cap = out from haccount.filled.output]
  by_cases htimely : Timely w'
  · obtain ⟨segments, hsegments⟩ := carries_text hserved
    rw [← haccount.exact.mpr ⟨htimely, hroom⟩] at hsegments
    exact ⟨taken.flatten, segments, hsegments, List.Sublist.refl _, fun _ => rfl⟩
  · obtain ⟨kept, hkept, rfl⟩ := haccount.gathered.resolve_right (Nat.not_lt.mpr hroom)
    obtain ⟨parts, hparts, hcarried⟩ := carries_sublist hkept hserved
    obtain ⟨segments, hsegments⟩ := carries_text hcarried
    exact ⟨parts.flatten, segments, hsegments, hparts.flatten, fun h => absurd h htimely⟩

end

section

variable {S : Type} {maxMsg cap : Nat} {pending : S → List Chunk} {handle : Addr → Handler S}
  {plan : Addr → Nat → List Nat}

/-- A drain of one neighbour among many, whatever the mesh delays and however often
a request is sent again: with room for all that the neighbour handed out, the
forwarder posts some of the chunks that the drain took off its packetizer, in
order and as they were, and all of them if every reply was in time. -/
theorem drained_chunks_posted (curl : Nat → Bool) (clock : Nat → Int) (devs : List Dev) (hmax : maxMsg < 65536)
    {eui : Addr} (hserver : Replies maxMsg (handle eui)) (hserves : ServesMflt maxMsg eui pending (handle eui))
    (hcap : cap < 4294967296) {w w' : Neighborhood S} {d : Drained} (hquiet : (w.airs eui).Quiet)
    (hdrain : drainPeer (neighborhoodPort maxMsg handle plan) maxMsg eui cap w = (d, w')) :
    (∀ other ≠ eui, w'.airs other = w.airs other) ∧
      ∃ taken, taken ++ pending (w'.airs eui).server = pending (w.airs eui).server ∧
        ((handedOut (w'.airs eui).served).length < cap →
          ∃ kept : List Chunk, kept.Sublist taken ∧ (Timely (w'.airs eui) → kept = taken) ∧
            ∀ earlier later : List Segment, (∀ segment ∈ earlier, segment.HasRoom) →
              (∀ segment ∈ later, segment.HasRoom) → ∀ after,
                (forwardStream curl clock (earlier.flatMap Segment.text ++ d.output cap ++
                  later.flatMap Segment.text ++ 0 :: after) devs).posts =
                earlier.flatMap Segment.posts ++ kept.map (postOf eui) ++ later.flatMap Segment.posts) := by
  cases hslot : w.slot with
  | none =>
    rw [neighborhoodPort_drain_none eui cap hslot] at hdrain
    cases hdrain
    refine ⟨fun _ _ => rfl, [], rfl, fun _ => ⟨[], List.Sublist.refl _, fun _ => rfl, ?_⟩⟩
    exact fun _ _ hearlier hlater after => (composed_nil eui).posted curl clock devs hearlier hlater after
  | some conv =>
    obtain ⟨d', a, hsession, halone⟩ := @neighborhoodPort_drain_some S maxMsg handle plan eui cap w conv hslot
    rw [halone] at hdrain
    cases hdrain
    have hconnected : Air.Quiet { w.airs eui with bound := eui } :=
      ⟨hquiet.flight, hquiet.inbox, hquiet.served, hquiet.answered⟩
    obtain ⟨taken, hall, hbrought⟩ := drainSession_composed hmax hserver hserves hcap conv hconnected hsession
    rw [Neighborhood.put_same]
    refine ⟨fun other hother => w.put_other eui a hother, taken, hall, fun hfits => ?_⟩
    obtain ⟨kept, segments, hsegments, hkept, htimely⟩ := hbrought hfits
    refine ⟨kept, hkept, htimely, fun earlier later hearlier hlater after => ?_⟩
    exact hsegments.posted curl clock devs hearlier hlater after

end

def packetizerPeer (nodeEui : Addr) : Handler (List Chunk) := fun msg pending =>
  if typeOf msg = 116 then
    let r := genMflt (some nodeEui) 496 0 pending
    (frame 117 (tagOf msg) (leBytes 4 r.text.length ++ r.text), r.pending)
  else ((samplePeer 0 msg []).1, pending)

theorem packetizerPeer_room (nodeEui : Addr) : (Device.mesh nodeEui).HasRoom 496 := by
  show (devLine (dectSerial nodeEui)).length < 496
  simp [devLine, devKey, dectSerial, hexText, nodeEui.six]

theorem packetizerPeer_replies (nodeEui : Addr) : Replies 512 (packetizerPeer nodeEui) where
  tag msg pending hshape := by
    unfold packetizerPeer
    split
    · simp only [tagOf_frame, Nat.mod_eq_of_lt (tagOf_lt msg)]
    · exact (samplePeer_replies 0).tag msg [] hshape
  type msg pending hshape := by
    unfold packetizerPeer
    split
    · rename_i htype
      rw [htype, typeOf_frame]
      exact .inl rfl
    · exact (samplePeer_replies 0).type msg [] hshape
  size msg pending hshape := by
    unfold packetizerPeer
    split
    · obtain ⟨-, -, -, hlength⟩ := read_carries (packetizerPeer_room nodeEui) 0 pending
      simp
      omega
    · exact (samplePeer_replies 0).size msg [] hshape

theorem packetizerPeer_serves (nodeEui : Addr) : ServesMflt 512 nodeEui id (packetizerPeer nodeEui) where
  read msg pending _ htype := by
    refine .inr ⟨496, 0, packetizerPeer_room nodeEui, Nat.le_refl _, ?_, ?_⟩
    · rw [packetizerPeer, if_pos htype]
      rfl
    · rw [packetizerPeer, if_pos htype]
      rfl
  other msg pending _ htype := by rw [packetizerPeer, if_neg htype]

def twoChunks : List Chunk := [⟨[0x30, 0xff], by decide, by decide⟩, ⟨[0x31], by decide, by decide⟩]

theorem drained_chunks_posted_two :
    let eui : Addr := ⟨[2, 0, 0, 0, 0, 7], rfl⟩
    let drained := drainPeer (neighborhoodPort 512 packetizerPeer fun _ => prompt) 512 eui 600
      ⟨some .first, .zero, fun _ => .fresh twoChunks⟩
    (forwardStream (fun _ => true) (fun _ => 0) (drained.1.output 600 ++ [0]) []).posts =
      twoChunks.map (postOf eui) := by
  intro eui drained
  have hdrain : drainPeer (neighborhoodPort 512 packetizerPeer fun _ => prompt) 512 eui 600
      ⟨some .first, .zero, fun _ => .fresh twoChunks⟩ = (drained.1, drained.2) := (Prod.mk.eta (p := drained)).symm
  obtain ⟨-, taken, hall, hbrought⟩ := drained_chunks_posted (fun _ => true) (fun _ => 0) [] (by decide)
    (packetizerPeer_replies eui) (packetizerPeer_serves eui) (by decide) (Air.fresh_quiet twoChunks) hdrain
  obtain ⟨kept, -, htimely, hposts⟩ := hbrought (by decide +kernel)
  have hnone : (drained.2.airs eui).server = [] := by decide +kernel
  have hwhole : kept = twoChunks := by
    rw [htimely (by decide +kernel), ← List.append_nil taken, ← hnone]
    exact hall
  rw [← hwhole]
  simpa using hposts [] [] nofun nofun []

end DectMesh.Telemetry
