import DectMesh.Aether.Conversation

/-! The node identity of one boot: the seed out of the settings, or a fresh one
into them, and the address that is bound to its public key. -/
namespace DectMesh.Identity

open DectMesh.Aether

/-- `cga_seed`: a P-256 private scalar. -/
structure Seed where
  bytes : List UInt8
  long : bytes.length = 32
  deriving DecidableEq

def Seed.zero : Seed := ⟨List.replicate 32 0, rfl⟩

/-- The primitives. `publicKey` is `none` for a seed that is no valid scalar. -/
structure Crypto where
  publicKey : Seed → Option (List UInt8)
  sha256 : List UInt8 → List UInt8
  hashed : ∀ pub, (sha256 pub).length = 32

/-- The first six bytes of the hash, as a locally administered unicast address. -/
def Crypto.address (c : Crypto) (pub : List UInt8) : Addr where
  bytes := ((c.sha256 pub).take 6).modifyHead fun first => (first ||| 0x02) &&& 0xfe
  six := by rw [List.length_modifyHead, List.length_take, c.hashed]; rfl

structure Cga where
  seed : Seed
  haveSeed : Bool

def Cga.boot : Cga := ⟨.zero, false⟩

/-- What `read_cb` comes to: a negative result, or so many bytes of the value. -/
inductive ReadResult where
  | failed (code : Int) (negative : code < 0)
  | got (n : Nat)
  deriving DecidableEq

def Seed.overwrite (seed stored : Seed) (n : Nat) : Seed where
  bytes := stored.bytes.take n ++ seed.bytes.drop n
  long := by
    rw [List.length_append, List.length_take, List.length_drop, stored.long, seed.long]
    omega

/-- The handler of the `cga` subtree, called with one entry of it. `name` is its
path below `cga`, so that `seed` alone is the seed; -2 is `-ENOENT` and -22
`-EINVAL`. -/
def cgaSeedSet (name : List String) (value : List UInt8) (read : ReadResult) (cga : Cga) : Int × Cga :=
  if name ≠ ["seed"] then (-2, cga)
  else if h : value.length = 32 then
    match read with
    | .failed code _ => (code, cga)
    | .got n => (0, ⟨cga.seed.overwrite ⟨value, h⟩ n, if n = 32 then true else cga.haveSeed⟩)
  else (-22, cga)

/-- Up to eight draws of the generator, until one is a valid scalar. -/
def cgaNewSeed (c : Crypto) : Nat → List (Option Seed) → Option (Seed × List UInt8)
  | 0, _ => none
  | tries + 1, some seed :: later =>
      match c.publicKey seed with
      | some pub => some (seed, pub)
      | none => cgaNewSeed c tries later
  | _ + 1, _ => none

/-- What may fail in a boot. `load` is the call of the handler with the stored
seed, if the load comes to it; `draws` are what the generator gives. -/
structure Boot where
  psaInit : Bool
  settingsInit : Bool
  load : Option ReadResult
  draws : List (Option Seed)
  save : Bool
  deriving DecidableEq

/-- `settings_load_subtree("cga")`, its result unused; `cga/seed` is the only
entry. -/
def Boot.loaded (b : Boot) (flash : Option (List UInt8)) : Cga :=
  match flash, b.load with
  | some value, some read => (cgaSeedSet ["seed"] value read .boot).2
  | _, _ => .boot

def Cga.persisted (cga : Cga) (c : Crypto) : Option (List UInt8) :=
  if cga.haveSeed then c.publicKey cga.seed else none

/-- `cga_identity_pubkey`: the public key, or `none` for a negative result, and
the stored seed. -/
def cgaIdentityPubkey (c : Crypto) (b : Boot) (flash : Option (List UInt8)) :
    Option (List UInt8) × Option (List UInt8) :=
  if b.settingsInit then
    match (b.loaded flash).persisted c with
    | some pub => (some pub, flash)
    | none =>
        match cgaNewSeed c 8 b.draws with
        | none => (none, flash)
        | some (seed, pub) => if b.save then (some pub, some seed.bytes) else (none, flash)
  else (none, flash)

/-- The address, or `none` for `-EIO`. -/
def aetherNodeIdentityOverride (c : Crypto) (b : Boot) (flash : Option (List UInt8)) :
    Option Addr × Option (List UInt8) :=
  if b.psaInit then
    match cgaIdentityPubkey c b flash with
    | (pub, flash) => (pub.map c.address, flash)
  else (none, flash)

theorem cgaNewSeed_valid {c : Crypto} {tries : Nat} {draws : List (Option Seed)} {seed : Seed} {pub : List UInt8}
    (h : cgaNewSeed c tries draws = some (seed, pub)) : c.publicKey seed = some pub := by
  induction tries generalizing draws with
  | zero => cases h
  | succ tries ih =>
    unfold cgaNewSeed at h
    split at h
    · rename_i hzero
      cases hzero
    · rename_i drawn later htries
      cases htries
      split at h
      · rename_i hvalid
        cases h
        exact hvalid
      · exact ih h
    · cases h

theorem loaded_seed (b : Boot) (stored : Seed) :
    (b.loaded (some stored.bytes)).haveSeed = decide (b.load = some (.got 32)) ∧
      (b.load = some (.got 32) → (b.loaded (some stored.bytes)).seed = stored) := by
  unfold Boot.loaded
  cases hload : b.load with
  | none => exact ⟨rfl, nofun⟩
  | some read =>
    dsimp only
    unfold cgaSeedSet
    rw [if_neg (by simp), dif_pos stored.long]
    cases read with
    | failed => exact ⟨rfl, nofun⟩
    | got n =>
      dsimp only
      by_cases hall : n = 32
      · subst hall
        refine ⟨rfl, fun _ => ?_⟩
        obtain ⟨bytes, long⟩ := stored
        simp only [Seed.overwrite, Seed.mk.injEq]
        rw [List.take_of_length_le (Nat.le_of_eq long), List.drop_of_length_le (Nat.le_of_eq Cga.boot.seed.long),
          List.append_nil]
      · refine ⟨?_, fun hfull => absurd (by simpa using hfull) hall⟩
        rw [if_neg hall]
        simp [hall, Cga.boot]

theorem persisted_stored {c : Crypto} {seed : Seed} {pub : List UInt8} (hvalid : c.publicKey seed = some pub)
    (b : Boot) : (b.loaded (some seed.bytes)).persisted c = if b.load = some (.got 32) then some pub else none := by
  obtain ⟨hhave, hseed⟩ := loaded_seed b seed
  unfold Cga.persisted
  rw [hhave]
  by_cases hload : b.load = some (.got 32)
  · rw [hseed hload, hvalid, decide_eq_true hload, if_pos rfl, if_pos hload]
  · rw [decide_eq_false hload, if_neg hload]
    rfl

theorem persisted_some {c : Crypto} {b : Boot} {flash : Option (List UInt8)} {pub : List UInt8}
    (h : (b.loaded flash).persisted c = some pub) :
    ∃ seed : Seed, flash = some seed.bytes ∧ c.publicKey seed = some pub := by
  cases flash with
  | none => cases h
  | some value =>
    by_cases hlong : value.length = 32
    · refine ⟨⟨value, hlong⟩, rfl, ?_⟩
      obtain ⟨hhave, hseed⟩ := loaded_seed b ⟨value, hlong⟩
      unfold Cga.persisted at h
      rw [hhave] at h
      by_cases hload : b.load = some (.got 32)
      · rw [hseed hload, decide_eq_true hload] at h
        exact h
      · rw [decide_eq_false hload] at h
        cases h
    · have hboot : b.loaded (some value) = .boot := by
        unfold Boot.loaded
        cases b.load with
        | none => rfl
        | some read =>
          dsimp only
          unfold cgaSeedSet
          rw [if_neg (by simp), dif_neg hlong]
      rw [hboot] at h
      cases h

/-- A boot fails and leaves the stored seed, or it ends with the address of the
stored seed: the one it loaded, or one it drew and saved. -/
theorem override_cases (c : Crypto) (b : Boot) (flash : Option (List UInt8)) :
    aetherNodeIdentityOverride c b flash = (none, flash) ∨
      ∃ seed pub, c.publicKey seed = some pub ∧
        aetherNodeIdentityOverride c b flash = (some (c.address pub), some seed.bytes) ∧
          (flash = some seed.bytes ∨
            b.psaInit = true ∧ b.settingsInit = true ∧ b.save = true ∧
              (b.loaded flash).persisted c = none ∧ cgaNewSeed c 8 b.draws = some (seed, pub)) := by
  unfold aetherNodeIdentityOverride cgaIdentityPubkey
  cases b.psaInit with
  | false => exact .inl rfl
  | true =>
    cases b.settingsInit with
    | false => exact .inl rfl
    | true =>
      cases hload : (b.loaded flash).persisted c with
      | some pub =>
        obtain ⟨seed, rfl, hvalid⟩ := persisted_some hload
        exact .inr ⟨seed, pub, hvalid, rfl, .inl rfl⟩
      | none =>
        cases hdraw : cgaNewSeed c 8 b.draws with
        | none => exact .inl rfl
        | some drawn =>
          cases b.save with
          | false => exact .inl rfl
          | true =>
            exact .inr ⟨drawn.1, drawn.2, cgaNewSeed_valid hdraw, rfl, .inr ⟨rfl, rfl, rfl, rfl, rfl⟩⟩

theorem override_draws {c : Crypto} {b : Boot} {flash : Option (List UInt8)} {seed : Seed} {pub : List UInt8}
    (hpsa : b.psaInit = true) (hsettings : b.settingsInit = true) (hsave : b.save = true)
    (hload : (b.loaded flash).persisted c = none) (hdraw : cgaNewSeed c 8 b.draws = some (seed, pub)) :
    aetherNodeIdentityOverride c b flash = (some (c.address pub), some seed.bytes) := by
  unfold aetherNodeIdentityOverride cgaIdentityPubkey
  rw [hpsa, hsettings, hload, hdraw, hsave]
  rfl

end DectMesh.Identity
