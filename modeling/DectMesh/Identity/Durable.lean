import DectMesh.Identity.Cga
import DectMesh.Lib.History

/-! The node identity over many boots, each with its own faults. -/
namespace DectMesh.Identity

open DectMesh.Lib DectMesh.Aether

def bootStep (c : Crypto) (flash : Option (List UInt8)) (b : Boot) : Option (Option (List UInt8)) :=
  some (aetherNodeIdentityOverride c b flash).2

def noteAddress (c : Crypto) (flash : Option (List UInt8)) (b : Boot) (addrs : List Addr) : List Addr :=
  addrs ++ (aetherNodeIdentityOverride c b flash).1.toList

/-- No two boots have succeeded with different addresses. -/
def Durable (t : Option (List UInt8) × List Addr) : Prop := ∀ a ∈ t.2, ∀ b ∈ t.2, a = b

instance (t : Option (List UInt8) × List Addr) : Decidable (Durable t) :=
  inferInstanceAs (Decidable (∀ _ ∈ _, ∀ _ ∈ _, _))

/-- A boot behind one that succeeded fails before it loads, loads all of the
stored seed, draws no valid seed, cannot save it, or draws one with the same
address. -/
def SeedKept (c : Crypto) (t : Option (List UInt8) × List Addr) (b : Boot) : Prop :=
  t.2 = [] ∨ b.psaInit = false ∨ b.settingsInit = false ∨ b.load = some (.got 32) ∨ b.save = false ∨
    ∀ seed pub, cgaNewSeed c 8 b.draws = some (seed, pub) → c.address pub ∈ t.2

def Stored (c : Crypto) (t : Option (List UInt8) × List Addr) : Prop :=
  t.2 = [] ∨ ∃ seed pub, t.1 = some seed.bytes ∧ c.publicKey seed = some pub ∧ ∀ a ∈ t.2, a = c.address pub

theorem Stored.durable {c : Crypto} {t : Option (List UInt8) × List Addr} (h : Stored c t) : Durable t := by
  intro a ha b hb
  rcases h with hnone | ⟨seed, pub, -, -, hall⟩
  · rw [hnone] at ha
    exact absurd ha List.not_mem_nil
  · exact (hall a ha).trans (hall b hb).symm

theorem stored_kept {c : Crypto} (t : Option (List UInt8) × List Addr) (b : Boot)
    (t' : Option (List UInt8) × List Addr) (h : Stored c t) (hkept : SeedKept c t b)
    (hstep : recording (bootStep c) (noteAddress c) t b = some t') : Stored c t' := by
  obtain ⟨flash, addrs⟩ := t
  obtain ⟨flash', addrs'⟩ := t'
  obtain ⟨hflash, rfl⟩ := recording_eq_some.mp hstep
  replace hflash := Option.some.inj hflash
  unfold noteAddress
  rcases override_cases c b flash with hfail | ⟨seed, pub, hvalid, hdone, hfrom⟩
  · rw [hfail] at hflash ⊢
    rw [← hflash, Option.toList_none, List.append_nil]
    exact h
  · rw [hdone] at hflash ⊢
    refine .inr ⟨seed, pub, hflash.symm, hvalid, fun a ha => ?_⟩
    rcases List.mem_append.mp ha with hold | hnew
    · obtain ⟨old, oldPub, holdFlash, holdValid, hall⟩ :=
        h.resolve_left (List.ne_nil_of_mem hold)
      rcases hfrom with hsame | ⟨hpsa, hsettings, hsave, hunloaded, hdraw⟩
      · -- the stored seed was loaded
        have hseed : old.bytes = seed.bytes := Option.some.inj (holdFlash.symm.trans hsame)
        have hpub : oldPub = pub := by
          obtain ⟨bytes, long⟩ := old
          cases hseed
          exact Option.some.inj (holdValid.symm.trans hvalid)
        rw [← hpub]
        exact hall a hold
      · change flash = some old.bytes at holdFlash
        rw [holdFlash, persisted_stored holdValid] at hunloaded
        have hload : b.load ≠ some (.got 32) := by
          intro hload
          rw [if_pos hload] at hunloaded
          cases hunloaded
        rcases hkept with hkept | hkept | hkept | hkept | hkept | hkept
        · exact absurd hkept (List.ne_nil_of_mem hold)
        · exact absurd (hpsa.symm.trans hkept) (by decide)
        · exact absurd (hsettings.symm.trans hkept) (by decide)
        · exact absurd hkept hload
        · exact absurd (hsave.symm.trans hkept) (by decide)
        · -- the drawn seed has the address of the others
          exact (hall a hold).trans (hall _ (hkept seed pub hdraw)).symm
    · simpa using hnew

theorem durable_broken {c : Crypto} (t : Option (List UInt8) × List Addr) (b : Boot)
    (t' : Option (List UInt8) × List Addr) (h : Stored c t) (hlost : ¬ SeedKept c t b)
    (hstep : recording (bootStep c) (noteAddress c) t b = some t') : ¬ Durable t' := by
  obtain ⟨flash, addrs⟩ := t
  obtain ⟨flash', addrs'⟩ := t'
  obtain ⟨-, rfl⟩ := recording_eq_some.mp hstep
  unfold SeedKept at hlost
  push Not at hlost
  obtain ⟨hsome, hpsa, hsettings, hload, hsave, seed, pub, hdraw, hnew⟩ := hlost
  obtain ⟨old, oldPub, holdFlash, holdValid, -⟩ := h.resolve_left hsome
  change flash = some old.bytes at holdFlash
  have hunloaded : (b.loaded flash).persisted c = none := by
    rw [holdFlash, persisted_stored holdValid, if_neg hload]
  have hdone := override_draws (by simpa using hpsa) (by simpa using hsettings) (by simpa using hsave) hunloaded hdraw
  intro hdurable
  obtain ⟨a, ha⟩ := List.exists_mem_of_ne_nil addrs hsome
  unfold noteAddress at hdurable
  rw [hdone] at hdurable
  apply hnew
  rw [← hdurable a (List.mem_append_left _ ha) (c.address pub) (by simp)]
  exact ha

/-- Every sequence of boots, from any settings: no two boots succeed with
different addresses exactly if no boot behind a successful one goes past a load
that has not delivered the seed and saves another one, with another address. -/
theorem identity_durable_iff (c : Crypto) (flash : Option (List UInt8)) {boots : List Boot}
    {last : Option (List UInt8) × List Addr}
    (hrun : run (recording (bootStep c) (noteAddress c)) (flash, []) boots = some last) :
    (∀ t, Visits (recording (bootStep c) (noteAddress c)) (flash, []) boots t → Durable t) ↔
      Along (recording (bootStep c) (noteAddress c)) (SeedKept c) (flash, []) boots :=
  visits_iff_along (fun _ h => h.durable) stored_kept durable_broken (.inl rfl) hrun

def sampleCrypto : Crypto where
  publicKey := fun seed => some (seed.bytes ++ seed.bytes)
  sha256 := fun pub => (pub ++ List.replicate 32 0).take 32
  hashed := fun pub => by
    rw [List.length_take, List.length_append, List.length_replicate]
    omega

def sampleSeed (first : UInt8) : Seed := ⟨first :: List.replicate 31 0, rfl⟩

def firstBoot : Boot := ⟨true, true, none, [some (sampleSeed 0x10)], true⟩

theorem identity_durable_reloaded :
    let boots := [firstBoot, ⟨true, true, some (.got 32), [], true⟩]
    (∀ t, Visits (recording (bootStep sampleCrypto) (noteAddress sampleCrypto)) (none, []) boots t → Durable t) ↔
      Along (recording (bootStep sampleCrypto) (noteAddress sampleCrypto)) (SeedKept sampleCrypto) (none, []) boots := by
  intro boots
  obtain ⟨last, hrun⟩ : ∃ last,
      run (recording (bootStep sampleCrypto) (noteAddress sampleCrypto)) (none, []) boots = some last := ⟨_, rfl⟩
  exact identity_durable_iff sampleCrypto none hrun

/-- The second boot cannot read the seed, draws another one and saves it. -/
theorem identity_lost :
    let boots := [firstBoot, ⟨true, true, some (.failed (-5) (by decide)), [some (sampleSeed 0x20)], true⟩]
    ∃ t, Visits (recording (bootStep sampleCrypto) (noteAddress sampleCrypto)) (none, []) boots t ∧
      ¬ Durable t := by
  intro boots
  exact ⟨_, ⟨boots, List.prefix_rfl, rfl⟩, by decide +kernel⟩

end DectMesh.Identity
