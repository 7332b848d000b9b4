import DectMesh.Aether.CtlGrammar
import DectMesh.Lib.Paging
import DectMesh.Relay.Tunnel

/-! From `dev/mesh_peer` on the relay to a conversation on the 9151: what is
written there becomes the connect command of the tunnel, which the ctl file
reads back. -/
namespace DectMesh.Relay

open DectMesh.Lib DectMesh.Aether

variable {ρ : Type}

/-- `"connect %s"` in `cmd[40]` of `aether_conv_transport_connect`. -/
def connectText (peer : Peer) : List UInt8 := (connectKey ++ peer.text).take 39

def unsetText : List UInt8 := [0x75, 0x6e, 0x73, 0x65, 0x74]

def meshPeerRead (peer : Peer) (off bufSize : Nat) : List UInt8 :=
  let tmp := (if peer.text = [] then unsetText else peer.text) ++ [0x0a]
  if tmp.length ≤ off then [] else (tmp.drop off).take (min bufSize (tmp.length - off))

/-! ## The two forms -/

inductive Names : List UInt8 → Addr → Prop where
  | short {text : List UInt8} {h l : UInt8} (nonempty : text ≠ []) (few : text.length ≤ 5)
      (groups : scanGroups 2 text = [h.toNat, l.toNat]) : Names text ⟨[0, 0, 0, 0, h, l], rfl⟩
  | long {text : List UInt8} {addr : Addr} (many : 5 < text.length) (parses : parseAddr text = some addr) :
      Names text addr

def colonEnded (bytes : List UInt8) : List UInt8 := bytes.flatMap fun b => hexByte b ++ [0x3a]

theorem scanGroups_colonEnded (bytes text : List UInt8) (n : Nat) :
    scanGroups (bytes.length + n) (colonEnded bytes ++ text) = bytes.map UInt8.toNat ++ scanGroups n text := by
  induction bytes with
  | nil => simp [colonEnded]
  | cons b bytes ih =>
    have hitem : scanHexItem (hexByte b ++ 0x3a :: (colonEnded bytes ++ text)) =
        some (b.toNat, 0x3a :: (colonEnded bytes ++ text)) :=
      scanHexItem_hexByte b fun c hc => by cases hc; decide
    have hsplit : colonEnded (b :: bytes) ++ text = hexByte b ++ 0x3a :: (colonEnded bytes ++ text) := by
      simp only [colonEnded, List.flatMap_cons, List.append_assoc, List.cons_append,
        List.nil_append]
    rw [hsplit, List.length_cons, Nat.add_right_comm, scanGroups, dropWhile_hexByte, hitem]
    simp only [scanColon, if_true, Option.elim_some, ih, List.map_cons, List.cons_append]

theorem scanGroups_longForm (text : List UInt8) :
    scanGroups 6 (longForm ++ text) = [0, 0, 0, 0] ++ scanGroups 2 text :=
  scanGroups_colonEnded [0, 0, 0, 0] text 2

theorem parseAddr_longForm {text : List UInt8} {addr : Addr} :
    parseAddr (longForm ++ text) = some addr ↔
      ∃ h l : UInt8, scanGroups 2 text = [h.toNat, l.toNat] ∧ addr = ⟨[0, 0, 0, 0, h, l], rfl⟩ := by
  have hgroups := scanGroups_longForm text
  constructor
  · intro h
    unfold parseAddr at h
    split at h
    · rename_i hfits
      obtain ⟨hsix, hbytes⟩ := hfits
      rw [hgroups] at hsix hbytes
      have htwo : (scanGroups 2 text).length = 2 := by simpa using hsix
      obtain ⟨m, n, hmn⟩ := List.length_eq_two.mp htwo
      rw [hmn] at hbytes
      have hm : m < 256 := Nat.lt_succ_of_le (hbytes m (by simp))
      have hn : n < 256 := Nat.lt_succ_of_le (hbytes n (by simp))
      refine ⟨UInt8.ofNat m, UInt8.ofNat n, ?_, ?_⟩
      · rw [hmn, UInt8.toNat_ofNat_of_lt' hm, UInt8.toNat_ofNat_of_lt' hn]
      · rw [← Option.some.inj h, Addr.mk.injEq, hgroups, hmn]
        rfl
    · cases h
  · rintro ⟨h, l, hscan, rfl⟩
    have hall : scanGroups 6 (longForm ++ text) = [0, 0, 0, 0, h.toNat, l.toNat] := by rw [hgroups, hscan]; rfl
    unfold parseAddr
    rw [dif_pos]
    · simp [hall]
    · rw [hall]
      refine ⟨rfl, fun b hb => ?_⟩
      simp only [List.mem_cons, List.not_mem_nil, or_false] at hb
      rcases hb with rfl | rfl | rfl | rfl | rfl | rfl
      all_goals first | exact Nat.zero_le _ | exact Nat.le_of_lt_succ (UInt8.toNat_lt _)

/-! ## The text of a write -/

section

variable {buf : List UInt8} (hnul : ∀ c ∈ buf, c ≠ 0)

theorem trimmed_eq (buf : List UInt8) : trimmed buf = stripped (buf.take 23) := rfl

theorem stripped_trimmed (buf : List UInt8) : stripped (trimmed buf) = trimmed buf :=
  List.rdropWhile_idempotent ..

theorem length_trimmed (buf : List UInt8) : (trimmed buf).length ≤ 23 := by
  have hcut := List.rdropWhile_prefix isTrailing (buf.take 23)
  exact hcut.length_le.trans (List.length_take_le 23 buf)

include hnul

theorem trimmed_no_nul : ∀ c ∈ trimmed buf, c ≠ 0 := by
  have hcut := List.rdropWhile_prefix isTrailing (buf.take 23)
  exact fun c hc => hnul c (List.mem_of_mem_take (hcut.subset hc))

theorem meshPeer_short (hsome : trimmed buf ≠ []) (hfew : (trimmed buf).length ≤ 5) :
    (meshPeer buf).text = longForm ++ trimmed buf := by
  have hpos : 0 < (trimmed buf).length := List.length_pos_iff.mpr hsome
  have hlength : (longForm ++ trimmed buf).length ≤ 23 := by
    rw [List.length_append]
    exact Nat.le_trans (Nat.add_le_add_left hfew _) (by decide)
  simp only [meshPeer, if_pos (And.intro hpos hfew), cString_of_no_nul (trimmed_no_nul hnul)]
  exact List.take_of_length_le hlength

theorem meshPeer_long (hmany : trimmed buf = [] ∨ 5 < (trimmed buf).length) :
    (meshPeer buf).text = trimmed buf := by
  have hnot : ¬ (0 < (trimmed buf).length ∧ (trimmed buf).length ≤ 5) := by
    rcases hmany with hnil | hmany
    · simp [hnil]
    · omega
  simp only [meshPeer, if_neg hnot, cString_of_no_nul (trimmed_no_nul hnul)]
  exact List.take_of_length_le (length_trimmed buf)

end

/-! ## The text of the command -/

theorem stripped_behind {front text : List UInt8} (hsome : text ≠ []) (h : stripped text = text) :
    stripped (front ++ text) = front ++ text := by
  obtain ⟨first, last, rfl⟩ : ∃ first last, text = first ++ [last] :=
    ⟨_, _, (List.dropLast_append_getLast hsome).symm⟩
  have hkept : ¬ isBlank last = true := by
    intro hdropped
    rw [stripped, List.rdropWhile_concat_pos _ _ _ hdropped] at h
    have hshort := (List.rdropWhile_prefix isBlank first).length_le
    rw [h, List.length_append] at hshort
    exact Nat.not_succ_le_self _ hshort
  rw [← List.append_assoc, stripped, List.rdropWhile_concat_neg _ _ _ hkept]

theorem ctlText_connectText {peer : Peer} (hsome : peer.text ≠ []) (hnul : ∀ c ∈ peer.text, c ≠ 0)
    (hblank : stripped peer.text = peer.text) : ctlText (connectText peer) = connectKey ++ peer.text := by
  have hlength : (connectKey ++ peer.text).length ≤ 31 := by
    have hfits := peer.fits
    rw [List.length_append]
    exact Nat.add_le_add_left hfits 8
  have hstripped := @stripped_behind connectKey _ hsome hblank
  have hcommand : ∀ c ∈ connectKey ++ peer.text, c ≠ 0 := by
    intro c hc
    rcases List.mem_append.mp hc with hc | hc
    · exact (by simp [connectKey] : ∀ c ∈ connectKey, c ≠ 0) c hc
    · exact hnul c hc
  rw [connectText, List.take_of_length_le (by omega), ctlText_of_short (by rw [hstripped]; omega), hstripped,
    cString_of_no_nul hcommand]

theorem ofText_connect (text : List UInt8) :
    CtlCmd.ofText (connectKey ++ text) = (parseAddr text).elim .unknown .connect := by
  have hstarts : connectKey.isPrefixOf (connectKey ++ text) = true := by simp
  rw [CtlCmd.ofText, if_pos hstarts, drop_connectKey]

theorem ofText_unset {peer : Peer} (h : peer.text = []) : CtlCmd.ofText (ctlText (connectText peer)) = .unknown := by
  rw [connectText, h]
  decide

section

variable {buf : List UInt8} {addr : Addr} (hnul : ∀ c ∈ buf, c ≠ 0)

include hnul

theorem names_iff : Names (trimmed buf) addr ↔ trimmed buf ≠ [] ∧ parseAddr (meshPeer buf).text = some addr := by
  by_cases hsome : trimmed buf = []
  · refine iff_of_false (fun h => ?_) fun h => h.1 hsome
    cases h with
    | short nonempty => exact nonempty hsome
    | long many =>
      rw [hsome] at many
      cases many
  · by_cases hfew : (trimmed buf).length ≤ 5
    · rw [meshPeer_short hnul hsome hfew, parseAddr_longForm]
      constructor
      · intro h
        cases h with
        | short _ _ groups => exact ⟨hsome, _, _, groups, rfl⟩
        | long many => exact absurd hfew (Nat.not_le_of_lt many)
      · rintro ⟨-, h, l, hscan, rfl⟩
        exact .short hsome hfew hscan
    · have hmany : 5 < (trimmed buf).length := Nat.lt_of_not_le hfew
      rw [meshPeer_long hnul (.inr hmany)]
      constructor
      · intro h
        cases h with
        | short _ few => exact absurd few hfew
        | long _ parses => exact ⟨hsome, parses⟩
      · exact fun h => .long hmany h.2

theorem meshPeer_plain (hsome : trimmed buf ≠ []) :
    5 < (meshPeer buf).text.length ∧ (∀ c ∈ (meshPeer buf).text, c ≠ 0) ∧
      stripped (meshPeer buf).text = (meshPeer buf).text := by
  have hplain := trimmed_no_nul hnul
  by_cases hfew : (trimmed buf).length ≤ 5
  · rw [meshPeer_short hnul hsome hfew]
    refine ⟨?_, fun c hc => ?_, ?_⟩
    · rw [List.length_append]
      exact Nat.lt_of_lt_of_le (by decide) (Nat.le_add_right longForm.length _)
    · rcases List.mem_append.mp hc with hc | hc
      · exact (by simp [longForm] : ∀ c ∈ longForm, c ≠ 0) c hc
      · exact hplain c hc
    · exact stripped_behind hsome (stripped_trimmed buf)
  · have hmany : 5 < (trimmed buf).length := Nat.lt_of_not_le hfew
    rw [meshPeer_long hnul (.inr hmany)]
    exact ⟨hmany, hplain, stripped_trimmed buf⟩

theorem ofText_meshPeer (cmd : CtlCmd) (hknown : cmd ≠ .unknown) :
    CtlCmd.ofText (ctlText (connectText (meshPeer buf))) = cmd ↔
      ∃ addr, Names (trimmed buf) addr ∧ cmd = .connect addr := by
  simp only [names_iff hnul]
  by_cases hsome : trimmed buf = []
  · rw [ofText_unset (by rw [meshPeer_long hnul (.inl hsome), hsome])]
    exact iff_of_false hknown.symm fun ⟨_, h, _⟩ => h.1 hsome
  · obtain ⟨hmany, hplain, hblank⟩ := meshPeer_plain hnul hsome
    rw [ctlText_connectText (List.ne_nil_of_length_pos (by omega)) hplain hblank, ofText_connect]
    cases haddr : parseAddr (meshPeer buf).text with
    | none =>
      refine iff_of_false hknown.symm ?_
      rintro ⟨_, ⟨-, h⟩, -⟩
      cases h
    | some a =>
      constructor
      · rintro rfl
        exact ⟨a, ⟨hsome, rfl⟩, rfl⟩
      · rintro ⟨_, ⟨-, ⟨⟩⟩, rfl⟩
        rfl

end

theorem meshPeerRead_eq {peer : Peer} (h : peer.text ≠ []) (off bufSize : Nat) :
    meshPeerRead peer off bufSize = ((peer.text ++ [0x0a]).drop off).take bufSize := by
  rw [meshPeerRead, if_neg h]
  split
  · rename_i hend
    rw [List.drop_of_length_le hend, List.take_nil]
  · rw [← List.length_drop, List.take_eq_take_iff, min_assoc, min_self]

/-- What is read from `dev/mesh_peer` selects the same peer again. -/
theorem meshPeer_read_back {peer : Peer} (hmany : 5 < peer.text.length) (hnul : ∀ c ∈ peer.text, c ≠ 0)
    (hblank : stripped peer.text = peer.text) : meshPeer (peer.text ++ [0x0a]) = peer := by
  have htrimmed : trimmed (peer.text ++ [0x0a]) = peer.text := by
    rw [trimmed_eq, stripped_take, stripped_append (by simp [isBlank]), hblank]
    rw [stripped_append (by simp [isBlank]), hblank]
    exact peer.fits
  have hboth : ∀ c ∈ peer.text ++ [0x0a], c ≠ 0 := by
    intro c hc
    rcases List.mem_append.mp hc with hc | hc
    · exact hnul c hc
    · rw [List.mem_singleton.mp hc]
      decide
  have htext : (meshPeer (peer.text ++ [0x0a])).text = peer.text := by
    rw [meshPeer_long hboth (.inr (htrimmed.symm ▸ hmany)), htrimmed]
  cases peer
  simpa only [meshPeer, Peer.mk.injEq] using htext

/-- A write of plain text to `dev/mesh_peer` makes the tunnel's connect bind an
unconnected conversation exactly if the text is an address in either form, and
then binds it to that address; `dev/mesh_peer` reads as the address in pages of
any sizes, and what is read selects the same peer again. -/
theorem mesh_peer_binds {c : Conv ρ} {buf : List UInt8} (hstate : c.state = .unconnected) (hnul : ∀ b ∈ buf, b ≠ 0) :
    ((∃ count, (anetWriteCtl c (connectText (meshPeer buf))).1 = .ok count) ↔ ∃ addr, Names (trimmed buf) addr) ∧
      ∀ addr, Names (trimmed buf) addr →
        (anetWriteCtl c (connectText (meshPeer buf))).2 = (CtlCmd.connect addr).effect c ∧
          ∀ text, Reads (meshPeerRead (meshPeer buf)) 0 text →
            text = (meshPeer buf).text ++ [0x0a] ∧ meshPeer text = meshPeer buf := by
  have hfits : ∀ addr, (CtlCmd.connect addr).Fits c.state := fun _ => .inr hstate
  have hbinds : ∀ addr, Names (trimmed buf) addr →
      anetWriteCtl c (connectText (meshPeer buf)) =
        (.ok (connectText (meshPeer buf)).length, (CtlCmd.connect addr).effect c) := by
    intro addr hnames
    have hknown : CtlCmd.connect addr ≠ .unknown := CtlCmd.noConfusion
    have hcmd := (ofText_meshPeer hnul (.connect addr) hknown).mpr ⟨addr, hnames, rfl⟩
    rw [anetWriteCtl, hcmd, ctlExec_of_fits hknown (hfits addr)]
  refine ⟨Iff.intro ?_ ?_, ?_⟩
  · rintro ⟨count, hok⟩
    by_cases hknown : CtlCmd.ofText (ctlText (connectText (meshPeer buf))) = .unknown
    · rw [anetWriteCtl, hknown] at hok
      cases hok
    · obtain ⟨addr, hnames, -⟩ := (ofText_meshPeer hnul _ hknown).mp rfl
      exact ⟨addr, hnames⟩
  · rintro ⟨addr, hnames⟩
    exact ⟨_, congrArg Prod.fst (hbinds addr hnames)⟩
  · intro addr hnames
    have hsome := ((names_iff hnul).mp hnames).1
    obtain ⟨hmany, hplain, hblank⟩ := meshPeer_plain hnul hsome
    refine ⟨congrArg Prod.snd (hbinds addr hnames), fun text htext => ?_⟩
    have hwhole := htext.whole (meshPeerRead_eq (List.ne_nil_of_length_pos (by omega)))
    rw [List.drop_zero] at hwhole
    rw [hwhole]
    exact ⟨rfl, meshPeer_read_back hmany hplain hblank⟩

/-- `"1:0A \n"` -/
def shortHand : List UInt8 := [0x31, 0x3a, 0x30, 0x41, 0x20, 0x0a]

theorem mesh_peer_binds_short_hand :
    (anetWriteCtl (.fresh : Conv Unit) (connectText (meshPeer shortHand))).2 =
      (CtlCmd.connect ⟨[0, 0, 0, 0, 1, 10], rfl⟩).effect .fresh := by
  have hnames : Names (trimmed shortHand) ⟨[0, 0, 0, 0, 1, 10], rfl⟩ :=
    .short (by decide) (by decide) (by decide)
  exact ((mesh_peer_binds rfl (by simp [shortHand])).2 _ hnames).1

end DectMesh.Relay
