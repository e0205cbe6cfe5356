import CcSwitchServer.Sharing.SettingsPatch

/-! # Lifecycle of managed grants

An entitlement is carried by one active grant, and only managed operations change those grants.
-/

namespace CcSwitchServer.Sharing
open Foundations Text OrderedMap Option List Share ShareRecord ShareStore

/-! ## Sound maps of grants -/

/-- Grants stand under their own addresses, and an entitlement is carried by one active grant. -/
structure SoundGrants (owner : Option String) (grants : UserGrants) : Prop where
  keyed : ∀ {k g}, grants.get? k = some g → g.email = k ∧ asciiLower k = k
  managed : ∀ {k g}, grants.get? k = some g → g.manager = .routerShareMarket → g.role ≠ "owner" ∧ owner ≠ some k
  carried : ∀ {k g}, grants.get? k = some g → g.active = true → g.entitlementId ≠ none → g.manager = .routerShareMarket
  exclusive : ∀ {k k' g g' e}, grants.get? k = some g → grants.get? k' = some g' → g.active = true →
    g'.active = true → g.entitlementId = some e → g'.entitlementId = some e → k = k'

/-- The active grants of the Share Market are the same. -/
def KeepsManaged (grants grants' : UserGrants) : Prop :=
  ∀ k g, g.active = true → g.manager = .routerShareMarket → (grants'.get? k = some g ↔ grants.get? k = some g)

theorem KeepsManaged.trans {a b c : UserGrants} (h : KeepsManaged a b) (h' : KeepsManaged b c) : KeepsManaged a c :=
  fun k g hactive hmanager => (h' k g hactive hmanager).trans (h k g hactive hmanager)

theorem KeepsManaged.refl (a : UserGrants) : KeepsManaged a a := fun _ _ _ _ => Iff.rfl

variable {owner : Option String} {grants : UserGrants}

section
variable (hs : SoundGrants owner grants)
include hs

theorem SoundGrants.of_entries {grants' : UserGrants}
    (h : ∀ {k g}, grants'.get? k = some g → grants.get? k = some g ∨
      (g.email = k ∧ asciiLower k = k) ∧ g.manager ≠ .routerShareMarket ∧
        (g.active = true → g.entitlementId = none)) : SoundGrants owner grants' := by
  constructor
  · intro k g hg
    rcases h hg with hold | ⟨hk, _, _⟩
    · exact hs.keyed hold
    · exact hk
  · intro k g hg hmanager
    rcases h hg with hold | ⟨_, hnot, _⟩
    · exact hs.managed hold hmanager
    · exact absurd hmanager hnot
  · intro k g hg hactive he
    rcases h hg with hold | ⟨_, _, hnone⟩
    · exact hs.carried hold hactive he
    · exact absurd (hnone hactive) he
  · intro k k' g g' e hg hg' ha ha' he he'
    rcases h hg with hold | ⟨_, _, hnone⟩
    · rcases h hg' with hold' | ⟨_, _, hnone'⟩
      · exact hs.exclusive hold hold' ha ha' he he'
      · rw [hnone' ha'] at he'
        cases he'
    · rw [hnone ha] at he
      cases he

/-- An entry that names its address and takes no entitlement from another active grant may be put in. -/
theorem SoundGrants.insert {k : String} {g : ShareUserGrant}
    (hemail : g.email = k) (hk : asciiLower k = k)
    (hmanaged : g.manager = .routerShareMarket → g.role ≠ "owner" ∧ owner ≠ some k)
    (hcarried : g.active = true → g.entitlementId ≠ none → g.manager = .routerShareMarket)
    (hfree : ∀ {k' g' e}, grants.get? k' = some g' → g.active = true → g'.active = true →
      g.entitlementId = some e → g'.entitlementId = some e → k' = k) : SoundGrants owner (grants.insert k g) := by
  have hcases : ∀ {k' g'}, (grants.insert k g).get? k' = some g' → k = k' ∧ g' = g ∨ grants.get? k' = some g' := by
    intro k' g' h
    rw [get?_insert] at h
    split at h
    · exact .inl ⟨by assumption, (some.inj h).symm⟩
    · exact .inr h
  constructor
  · intro k' g' h
    rcases hcases h with ⟨rfl, rfl⟩ | h
    · exact ⟨hemail, hk⟩
    · exact hs.keyed h
  · intro k' g' h
    rcases hcases h with ⟨rfl, rfl⟩ | h
    · exact hmanaged
    · exact hs.managed h
  · intro k' g' h
    rcases hcases h with ⟨rfl, rfl⟩ | h
    · exact hcarried
    · exact hs.carried h
  · intro k₁ k₂ g₁ g₂ e h₁ h₂ ha₁ ha₂ he₁ he₂
    rcases hcases h₁ with ⟨hk₁, rfl⟩ | hold₁ <;> rcases hcases h₂ with ⟨hk₂, rfl⟩ | hold₂
    · exact hk₁.symm.trans hk₂
    · exact hk₁.symm.trans (hfree hold₂ ha₁ ha₂ he₁ he₂).symm
    · exact (hfree hold₁ ha₂ ha₁ he₂ he₁).trans hk₂
    · exact hs.exclusive hold₁ hold₂ ha₁ ha₂ he₁ he₂

theorem SoundGrants.mapValues {f : ShareUserGrant → ShareUserGrant}
    (hf : ∀ g, (f g).email = g.email ∧ (f g).role = g.role ∧ (f g).active = g.active ∧
      (f g).manager = g.manager ∧ (f g).entitlementId = g.entitlementId) :
    SoundGrants owner (grants.mapValues f) := by
  have hcases : ∀ {k g'}, (grants.mapValues f).get? k = some g' → ∃ g, grants.get? k = some g ∧ g' = f g := by
    intro k g' h
    rw [get?_mapValues] at h
    obtain ⟨g, hg, rfl⟩ := map_eq_some_iff.mp h
    exact ⟨g, hg, rfl⟩
  constructor
  · intro k g' h
    obtain ⟨g, hg, rfl⟩ := hcases h
    rw [(hf g).1]
    exact hs.keyed hg
  · intro k g' h
    obtain ⟨g, hg, rfl⟩ := hcases h
    rw [(hf g).2.1, (hf g).2.2.2.1]
    exact hs.managed hg
  · intro k g' h
    obtain ⟨g, hg, rfl⟩ := hcases h
    rw [(hf g).2.2.1, (hf g).2.2.2.1, (hf g).2.2.2.2]
    exact hs.carried hg
  · intro k₁ k₂ g₁ g₂ e h₁ h₂
    obtain ⟨g, hg, rfl⟩ := hcases h₁
    obtain ⟨g', hg', rfl⟩ := hcases h₂
    rw [(hf g).2.2.1, (hf g).2.2.2.2, (hf g').2.2.1, (hf g').2.2.2.2]
    exact hs.exclusive hg hg'

end

/-! ## Rebuilding the map -/

/-- What stands at an address of the rebuilt map. -/
inductive Normalized (now : ℕ) (owner : Option String) (existing : UserGrants) (k : String) :
    ShareUserGrant → Prop
  | stored {g : ShareUserGrant} (h : existing.get? k = some g) : Normalized now owner existing k
      (revokeOrdinary now g)
  | kept {g : ShareUserGrant} (h : existing.get? k = some g) (hactive : g.active = true)
      (hmanager : g.manager = .routerShareMarket) : Normalized now owner existing k g
  | incoming (g : ShareUserGrant) (hk : asciiLower k = k)
      (h : ∀ p, existing.get? k = some p → ¬(p.active = true ∧ p.manager = .routerShareMarket)) :
      Normalized now owner existing k (incomingGrant now owner k (existing.get? k) g)

theorem checkManaged_ok {previous kept : Option ShareUserGrant} {incoming : ShareUserGrant} {email : String}
    (h : checkManaged previous incoming email = .ok kept) :
    (∃ p, kept = some p ∧ previous = some p ∧ p.active = true ∧ p.manager = .routerShareMarket) ∨
      (kept = none ∧ ∀ p, previous = some p → ¬(p.active = true ∧ p.manager = .routerShareMarket)) := by
  unfold checkManaged at h
  split at h
  · exact .inr ⟨(pure_eq_ok.mp h).symm, fun p hp => by cases hp⟩
  · rename_i p
    split at h
    · rename_i hp
      obtain ⟨_, -, h⟩ := bind_eq_ok.mp h
      exact .inl ⟨p, (pure_eq_ok.mp h).symm, rfl, hp⟩
    · rename_i hp
      obtain ⟨_, -, h⟩ := bind_eq_ok.mp h
      refine .inr ⟨(pure_eq_ok.mp h).symm, ?_⟩
      intro q hq
      cases hq
      exact hp

section
variable {now : ℕ} {owner : Option String} {existing normalized normalized' : UserGrants}

theorem normalizeUserGrant_ok {entry : String × ShareUserGrant}
    (h : normalizeUserGrant now existing owner normalized entry = .ok normalized') :
    ∃ email g, Normalized now owner existing email g ∧ normalized' = normalized.insert email g ∧
      ∀ p, existing.get? email = some p → p.active = true → p.manager = .routerShareMarket → g = p := by
  unfold normalizeUserGrant at h
  obtain ⟨email, hemail, h⟩ := bind_eq_ok.mp h
  obtain ⟨_, -, h⟩ := bind_eq_ok.mp h
  obtain ⟨_, -, h⟩ := bind_eq_ok.mp h
  obtain ⟨_, -, h⟩ := bind_eq_ok.mp h
  obtain ⟨kept, hkept, h⟩ := bind_eq_ok.mp h
  rcases checkManaged_ok hkept with ⟨p, rfl, hp, hactive, hmanager⟩ | ⟨rfl, hnot⟩
  · refine ⟨email, p, .kept hp hactive hmanager, (pure_eq_ok.mp h).symm, ?_⟩
    intro q hq _ _
    rw [hp] at hq
    exact some.inj hq
  · refine ⟨email, _, .incoming entry.2 (asciiLower_of_verified hemail) hnot, (pure_eq_ok.mp h).symm, ?_⟩
    intro q hq hactive hmanager
    exact absurd ⟨hactive, hmanager⟩ (hnot q hq)

/-- The rebuilt map before and after any number of incoming grants. -/
structure Rebuilt (now : ℕ) (owner : Option String) (existing normalized : UserGrants) : Prop where
  entry : ∀ {k g}, normalized.get? k = some g → Normalized now owner existing k g
  keeps : ∀ {k g}, existing.get? k = some g → g.active = true → g.manager = .routerShareMarket →
    normalized.get? k = some g

theorem Rebuilt.start (now : ℕ) (owner : Option String) (existing : UserGrants) :
    Rebuilt now owner existing (existing.mapValues (revokeOrdinary now)) where
  entry := by
    intro k g hg
    rw [get?_mapValues] at hg
    obtain ⟨p, hp, rfl⟩ := map_eq_some_iff.mp hg
    exact .stored hp
  keeps := by
    intro k g hg _ hmanager
    rw [get?_mapValues, hg, map_some, revokeOrdinary, if_neg fun h => h.2.1 hmanager]

theorem Rebuilt.step {entry : String × ShareUserGrant} (hr : Rebuilt now owner existing normalized)
    (h : normalizeUserGrant now existing owner normalized entry = .ok normalized') :
    Rebuilt now owner existing normalized' := by
  obtain ⟨email, g, hg, rfl, hsame⟩ := normalizeUserGrant_ok h
  constructor
  · intro k g' hg'
    rw [get?_insert] at hg'
    split at hg'
    · rename_i hk
      cases hg'
      exact hk ▸ hg
    · exact hr.entry hg'
  · intro k p hp hactive hmanager
    rw [get?_insert]
    split
    · rename_i hk
      rw [hsame p (hk ▸ hp) hactive hmanager]
    · exact hr.keeps hp hactive hmanager

theorem Rebuilt.foldlM {entries : List (String × ShareUserGrant)} (hr : Rebuilt now owner existing normalized)
    (h : entries.foldlM (normalizeUserGrant now existing owner) normalized = .ok normalized') :
    Rebuilt now owner existing normalized' := by
  induction entries generalizing normalized with
  | nil =>
    cases h
    exact hr
  | cons entry entries ih =>
    rw [foldlM_cons] at h
    obtain ⟨_, hstep, h⟩ := bind_eq_ok.mp h
    exact ih (hr.step hstep) h

theorem incomingGrant_eq (k : String) (p : Option ShareUserGrant) (g : ShareUserGrant) :
    ∃ revision updatedAtMs, incomingGrant now owner k p g =
      { ownedGrant now owner k p g with revision := revision, updatedAtMs := updatedAtMs } := by
  unfold incomingGrant
  dsimp only
  split
  · exact ⟨_, _, rfl⟩
  · split
    · exact ⟨_, _, rfl⟩
    · exact ⟨_, _, rfl⟩

theorem incomingGrant_email (k : String) (p : Option ShareUserGrant) (g : ShareUserGrant) :
    (incomingGrant now owner k p g).email = k := by
  obtain ⟨_, _, h⟩ := incomingGrant_eq k p g
  rw [h, ownedGrant]

theorem incomingGrant_manager (k : String) (p : Option ShareUserGrant) (g : ShareUserGrant) :
    (incomingGrant now owner k p g).manager ≠ .routerShareMarket := by
  obtain ⟨_, _, h⟩ := incomingGrant_eq k p g
  rw [h, ownedGrant]
  split <;> simp

theorem incomingGrant_entitlementId (k : String) (p : Option ShareUserGrant) (g : ShareUserGrant) :
    (incomingGrant now owner k p g).entitlementId = none := by
  obtain ⟨_, _, h⟩ := incomingGrant_eq k p g
  rw [h, ownedGrant]

theorem revokeOrdinary_cases (now : ℕ) (g : ShareUserGrant) :
    revokeOrdinary now g = g ∨ revokeOrdinary now g = g.revoke now ∧ g.manager ≠ .routerShareMarket := by
  unfold revokeOrdinary
  split
  · rename_i h
    exact .inr ⟨rfl, h.2.1⟩
  · exact .inl rfl

theorem Normalized.stored_of_managed {k : String} {g : ShareUserGrant}
    (h : Normalized now owner existing k g) (hmanager : g.manager = .routerShareMarket) :
    existing.get? k = some g := by
  cases h with
  | stored hp =>
    rename_i p
    rcases revokeOrdinary_cases now p with heq | ⟨heq, hp'⟩
    · rwa [heq]
    · rw [heq] at hmanager
      exact absurd hmanager hp'
  | kept hp _ _ => exact hp
  | incoming _ _ _ => exact absurd hmanager (incomingGrant_manager _ _ _)

theorem Rebuilt.keepsManaged (hr : Rebuilt now owner existing normalized) : KeepsManaged existing normalized := by
  intro k g hactive hmanager
  constructor
  · intro hg
    exact (hr.entry hg).stored_of_managed hmanager
  · intro hg
    exact hr.keeps hg hactive hmanager

theorem Rebuilt.sound {who : Option String} (hr : Rebuilt now owner existing normalized)
    (hs : SoundGrants who existing) : SoundGrants who normalized := by
  refine hs.of_entries ?_
  intro k g hg
  cases hr.entry hg with
  | stored hp =>
    rename_i p
    rcases revokeOrdinary_cases now p with heq | ⟨heq, hnot⟩
    · rw [heq]
      exact .inl hp
    · rw [heq]
      exact .inr ⟨⟨(hs.keyed hp).1, (hs.keyed hp).2⟩, hnot, fun h => by cases h⟩
  | kept hp _ _ => exact .inl hp
  | incoming _ hk _ =>
    exact .inr ⟨⟨incomingGrant_email _ _ _, hk⟩, incomingGrant_manager _ _ _, fun _ =>
      incomingGrant_entitlementId _ _ _⟩

theorem normalizeUserGrants_ok {incoming : UserGrants} {ownerEmail : Option String}
    (h : normalizeUserGrants now incoming existing ownerEmail = .ok normalized) :
    ∃ owner, Rebuilt now owner existing normalized :=
  ⟨_, (Rebuilt.start now _ existing).foldlM h⟩

end

theorem patchedGrants_ok {now : ℕ} {share : Share} {patch : ShareSettingsPatch} {grants : UserGrants}
    {who : Option String} (h : patchedGrants now share patch = .ok grants) (hs : SoundGrants who share.userGrants) :
    SoundGrants who grants ∧ KeepsManaged share.userGrants grants := by
  have hof : (∃ owner, Rebuilt now owner share.userGrants grants) →
      SoundGrants who grants ∧ KeepsManaged share.userGrants grants := by
    rintro ⟨owner, hr⟩
    exact ⟨hr.sound hs, hr.keepsManaged⟩
  unfold patchedGrants at h
  obtain ⟨_, -, h⟩ := bind_eq_ok.mp h
  split at h
  · obtain ⟨_, -, h⟩ := bind_eq_ok.mp h
    exact hof (normalizeUserGrants_ok h)
  · exact hof (normalizeUserGrants_ok h)
  · cases h
    exact ⟨hs, .refl _⟩

/-! ## The grant of the owner -/

section
variable {now : ℕ} {owner : String} {policy : SharePolicy} {grants : UserGrants}

theorem ownerGrant_identity (now : ℕ) (owner : String) (g : ShareUserGrant) :
    (ownerGrant now owner g).email = owner ∧ (ownerGrant now owner g).manager = .owner ∧
      (ownerGrant now owner g).entitlementId = none := by
  unfold ownerGrant
  dsimp only
  split
  · exact ⟨rfl, rfl, rfl⟩
  · exact ⟨rfl, rfl, rfl⟩

theorem demoteOwner_cases (now : ℕ) (g : ShareUserGrant) :
    demoteOwner now g = g ∧ g.role ≠ "owner" ∨
      g.role = "owner" ∧ (demoteOwner now g).email = g.email ∧ (demoteOwner now g).manager = .manual ∧
        (demoteOwner now g).entitlementId = none := by
  unfold demoteOwner
  split
  · exact .inr ⟨by assumption, rfl, rfl, rfl⟩
  · exact .inl ⟨rfl, by assumption⟩

theorem reconcileOwner_managed (hs : SoundGrants (some owner) grants) (k : String) (g : ShareUserGrant)
    (hmanager : g.manager = .routerShareMarket) :
    (reconcileOwner now policy owner grants).get? k = some g ↔ grants.get? k = some g := by
  unfold reconcileOwner
  rw [get?_insert, get?_mapValues]
  by_cases hk : owner = k
  · rw [if_pos hk]
    constructor
    · intro h
      have hman := (ownerGrant_identity now owner _).2.1.symm.trans (congrArg ShareUserGrant.manager (some.inj h))
      rw [hmanager] at hman
      cases hman
    · intro h
      exact absurd (congrArg some hk) (hs.managed h hmanager).2
  · rw [if_neg hk]
    constructor
    · intro h
      obtain ⟨p, hp, rfl⟩ := map_eq_some_iff.mp h
      rcases demoteOwner_cases now p with ⟨heq, _⟩ | ⟨_, _, hman, _⟩
      · rwa [heq]
      · rw [hman] at hmanager
        cases hmanager
    · intro h
      rcases demoteOwner_cases now g with ⟨heq, _⟩ | ⟨hrole, _⟩
      · rw [h, map_some, heq]
      · exact absurd hrole (hs.managed h hmanager).1

theorem reconcileOwner_sound (now : ℕ) (policy : SharePolicy) (hs : SoundGrants (some owner) grants)
    (howner : asciiLower owner = owner) :
    SoundGrants (some owner) (reconcileOwner now policy owner grants) := by
  refine hs.of_entries ?_
  intro k g hg
  unfold reconcileOwner at hg
  rw [get?_insert, get?_mapValues] at hg
  split at hg
  · rename_i hk
    obtain ⟨hemail, hman, hent⟩ := ownerGrant_identity now owner ((grants.get? owner).getD _)
    cases hg
    refine .inr ⟨⟨hemail.trans hk, hk ▸ howner⟩, ?_, fun _ => hent⟩
    rw [hman]
    simp
  · obtain ⟨p, hp, rfl⟩ := map_eq_some_iff.mp hg
    rcases demoteOwner_cases now p with ⟨heq, _⟩ | ⟨_, hemail, hman, hent⟩
    · rw [heq]
      exact .inl hp
    · refine .inr ⟨⟨hemail.trans (hs.keyed hp).1, (hs.keyed hp).2⟩, ?_, fun _ => hent⟩
      rw [hman]
      simp

end

/-! ## Managed operations -/

section
variable {now : ℕ} {share share' : Share} {operation : ShareManagedGrantOperation} {email : String}

variable (share) in
theorem projectGrant_eq (wall : ℤ) (g : ShareUserGrant) :
    ∃ usage rebase quota, share.projectGrant wall g =
      { g with usage := usage, usageRebase := rebase, usageQuota := quota } := by
  unfold projectGrant
  split
  · exact ⟨_, _, _, rfl⟩
  · split
    · exact ⟨_, _, _, rfl⟩
    · exact ⟨_, _, _, rfl⟩

theorem enterPhase_userGrants : (share.enterPhase now operation email).userGrants = share.userGrants := by
  unfold enterPhase
  split <;> rfl

theorem holder_of_assigned {entitlementId k : String} {g : ShareUserGrant}
    (hassigned : share.checkAssignment entitlementId email = .ok ())
    (hs : SoundGrants share.ownerEmail share.userGrants) (hemail : Text.asciiLower email = email)
    (hg : share.userGrants.get? k = some g) (hactive : g.active = true)
    (hcarries : g.entitlementId = some entitlementId) : k = email := by
  unfold Share.checkAssignment at hassigned
  obtain ⟨_, hfree, -⟩ := bind_eq_ok.mp hassigned
  rw [ensure_eq_ok, List.all_eq_true] at hfree
  have hsame := hfree g (OrderedMap.mem_values_iff.mpr ⟨k, hg⟩)
  rw [decide_eq_true_eq] at hsame
  have hcase := hsame hactive hcarries
  obtain ⟨hkey, hlow⟩ := hs.keyed hg
  rw [hkey] at hcase
  exact (eqIgnoreAsciiCase_iff hlow hemail).mp hcase

theorem insertManaged_sound {policy : ShareUserPolicy}
    (hassigned : share.checkAssignment operation.entitlementId email = .ok ())
    (hs : SoundGrants share.ownerEmail share.userGrants) (hemail : asciiLower email = email)
    (howner : share.ownerEmail ≠ some email) :
    SoundGrants share.ownerEmail (share.userGrants.insert email
      (managedGrant now (share.userGrants.get? email) email operation.entitlementId policy)) := by
  refine hs.insert rfl hemail (fun _ => ⟨by simp [managedGrant], howner⟩) (fun _ _ => rfl) ?_
  intro k' g' e hg' _ hactive he he'
  have hent : operation.entitlementId = e := some.inj he
  exact holder_of_assigned hassigned hs hemail hg' hactive (hent ▸ he')

theorem upsertManagedGrant_sound (h : share.upsertManagedGrant now operation email = .ok share')
    (hs : SoundGrants share.ownerEmail share.userGrants) (hemail : asciiLower email = email)
    (howner : share.ownerEmail ≠ some email) : SoundGrants share.ownerEmail share'.userGrants := by
  unfold upsertManagedGrant at h
  obtain ⟨policy, -, h⟩ := bind_eq_ok.mp h
  obtain ⟨_, -, h⟩ := bind_eq_ok.mp h
  obtain ⟨policy', -, h⟩ := bind_eq_ok.mp h
  obtain ⟨_, hassigned, h⟩ := bind_eq_ok.mp h
  cases h
  refine SoundGrants.mapValues ?_ ?_
  · dsimp only
    rw [enterPhase_userGrants]
    exact insertManaged_sound hassigned hs hemail howner
  · intro g
    obtain ⟨_, _, _, heq⟩ := projectGrant_eq ({ share.enterPhase now operation email with
      userGrants := (share.enterPhase now operation email).userGrants.insert email
        (managedGrant now (share.userGrants.get? email) email operation.entitlementId policy') } : Share) (now : ℤ) g
    rw [heq]
    exact ⟨rfl, rfl, rfl, rfl, rfl⟩

theorem endEntitlement_userGrants (id : String) :
    ((share.pendAck operation).endEntitlement id).userGrants = share.userGrants := by
  have hack : (share.pendAck operation).userGrants = share.userGrants := by
    unfold pendAck
    split <;> rfl
  unfold endEntitlement
  split
  · exact hack
  · exact hack

theorem carrier_endEntitlement (id : String) :
    ((share.pendAck operation).endEntitlement id).carrier id = share.carrier id := by
  rw [carrier, endEntitlement_userGrants, carrier]

theorem revokeManagedGrant_sound (h : share.revokeManagedGrant now operation email = .ok share')
    (hs : SoundGrants share.ownerEmail share.userGrants) : SoundGrants share.ownerEmail share'.userGrants := by
  unfold revokeManagedGrant at h
  dsimp only at h
  rw [carrier_endEntitlement] at h
  split at h
  · cases h
    rw [endEntitlement_userGrants]
    exact hs
  · rename_i k g hcarrier
    obtain ⟨_, -, h⟩ := bind_eq_ok.mp h
    cases h
    obtain ⟨hg, -, -⟩ := find?_entries_eq_some.mp hcarrier
    rw [endEntitlement_userGrants]
    have hmanaged := hs.managed hg
    refine hs.insert (hs.keyed hg).1 (hs.keyed hg).2 hmanaged (fun hactive => ?_) ?_
    · cases hactive
    · intro _ _ _ _ hactive
      cases hactive

variable (h : share.applyManagedGrantOperation now operation = .ok share')
include h

theorem applyManagedGrantOperation_ok
    (howner : ∀ o ∈ share.ownerEmail, asciiLower o = o) :
    ∃ email, normalizeVerifiedEmail operation.email = .ok email ∧ share.ownerEmail ≠ some email ∧
      (operation.action = .upsert ∧ share.upsertManagedGrant now operation email = .ok share' ∨
        operation.action = .revoke ∧ share.revokeManagedGrant now operation email = .ok share') := by
  unfold applyManagedGrantOperation at h
  obtain ⟨email, hemail, h⟩ := bind_eq_ok.mp h
  obtain ⟨_, hnot, h⟩ := bind_eq_ok.mp h
  rw [ensure_eq_ok] at hnot
  refine ⟨email, hemail, ?_, ?_⟩
  · intro ho
    apply hnot
    rw [ho, any_some]
    exact (eqIgnoreAsciiCase_iff (howner email ho) (asciiLower_of_verified hemail)).mpr rfl
  · cases haction : operation.action with
    | upsert =>
      rw [haction] at h
      exact .inl ⟨rfl, h⟩
    | revoke =>
      rw [haction] at h
      exact .inr ⟨rfl, h⟩

theorem applyManagedGrantOperation_ownerEmail :
    share'.ownerEmail = share.ownerEmail ∧ share'.id = share.id := by
  unfold applyManagedGrantOperation at h
  obtain ⟨email, -, h⟩ := bind_eq_ok.mp h
  obtain ⟨_, -, h⟩ := bind_eq_ok.mp h
  split at h
  · unfold upsertManagedGrant at h
    obtain ⟨_, -, h⟩ := bind_eq_ok.mp h
    obtain ⟨_, -, h⟩ := bind_eq_ok.mp h
    obtain ⟨_, -, h⟩ := bind_eq_ok.mp h
    obtain ⟨_, -, h⟩ := bind_eq_ok.mp h
    cases h
    unfold project enterPhase
    split <;> exact ⟨rfl, rfl⟩
  · have hend : ∀ s : Share, (s.endEntitlement operation.entitlementId).ownerEmail = s.ownerEmail ∧
        (s.endEntitlement operation.entitlementId).id = s.id := by
      intro s
      unfold endEntitlement
      split <;> exact ⟨rfl, rfl⟩
    have hack : (share.pendAck operation).ownerEmail = share.ownerEmail ∧ (share.pendAck operation).id = share.id := by
      unfold pendAck
      split <;> exact ⟨rfl, rfl⟩
    have hboth := hend (share.pendAck operation)
    rw [hack.1, hack.2] at hboth
    unfold revokeManagedGrant at h
    dsimp only at h
    split at h
    · cases h
      exact hboth
    · obtain ⟨_, -, h⟩ := bind_eq_ok.mp h
      cases h
      exact hboth

theorem applyManagedGrantOperation_sound
    (howner : ∀ o ∈ share.ownerEmail, asciiLower o = o)
    (hs : SoundGrants share.ownerEmail share.userGrants) : SoundGrants share.ownerEmail share'.userGrants := by
  obtain ⟨email, hemail, hne, hup | hrev⟩ := applyManagedGrantOperation_ok h howner
  · exact upsertManagedGrant_sound hup.2 hs (asciiLower_of_verified hemail) hne
  · exact revokeManagedGrant_sound hrev.2 hs

end

/-! ## Revoking an entitlement -/

/-- No grant of the Share Market at an earlier address, active or revoked, carries the entitlement. -/
def Share.Revocable (share : Share) (entitlementId email : String) : Prop :=
  ∀ k g, share.userGrants.get? k = some g → g.manager = .routerShareMarket →
    g.entitlementId = some entitlementId → email ≤ k

section
variable {now : ℕ} {share : Share} {operation : ShareManagedGrantOperation} {email : String} {grant : ShareUserGrant}

theorem carrier_of_revocable (hs : SoundGrants share.ownerEmail share.userGrants)
    (hg : share.userGrants.get? email = some grant) (hactive : grant.active = true)
    (he : grant.entitlementId = some operation.entitlementId) (hr : share.Revocable operation.entitlementId email) :
    share.carrier operation.entitlementId = some (email, grant) := by
  refine find?_entries_eq_some.mpr ⟨hg, ?_, ?_⟩
  · have hmanager := hs.carried hg hactive (by simp [he])
    simp [hmanager, he]
  · intro k g hk hp
    rw [decide_eq_true_eq] at hp
    exact hr k g hk hp.1 hp.2

/-- A revoke at the address of the active carrier goes through exactly when the search finds that carrier. -/
theorem revokeManagedGrant_iff (now : ℕ) (hs : SoundGrants share.ownerEmail share.userGrants)
    (hg : share.userGrants.get? email = some grant) (hactive : grant.active = true)
    (he : grant.entitlementId = some operation.entitlementId) :
    (∃ share', share.revokeManagedGrant now operation email = .ok share' ∧
      ∀ k g, share'.userGrants.get? k = some g → g.active = true → g.entitlementId ≠ some operation.entitlementId) ↔
      share.Revocable operation.entitlementId email := by
  constructor
  · rintro ⟨share', h, hnone⟩ k g hk hmanager hent
    unfold revokeManagedGrant at h
    dsimp only at h
    rw [carrier_endEntitlement] at h
    split at h
    · rename_i hcarrier
      have := find?_eq_none.mp hcarrier _ (mem_entries_iff.mpr hk)
      simp [hmanager, hent] at this
    · rename_i k' g' hcarrier
      obtain ⟨hk', _, hfirst⟩ := find?_entries_eq_some.mp hcarrier
      obtain ⟨_, hcase, -⟩ := bind_eq_ok.mp h
      rw [ensure_eq_ok, (hs.keyed hk').1] at hcase
      rw [← (eqIgnoreAsciiCase_iff (hs.keyed hk').2 (hs.keyed hg).2).mp hcase]
      exact hfirst k g hk (by simp [hmanager, hent])
  · intro hr
    have hcarrier := carrier_of_revocable hs hg hactive he hr
    have hkeyed := hs.keyed hg
    have hcase : eqIgnoreAsciiCase grant.email email = true := by
      rw [hkeyed.1]
      exact (eqIgnoreAsciiCase_iff hkeyed.2 hkeyed.2).mpr rfl
    unfold revokeManagedGrant
    dsimp only
    rw [carrier_endEntitlement, hcarrier]
    dsimp only
    rw [ensure_of hcase, ok_bind]
    refine ⟨_, rfl, ?_⟩
    intro k g hk ha hent
    rw [endEntitlement_userGrants, get?_insert] at hk
    split at hk
    · cases hk
      cases ha
    · rename_i hne
      exact hne (hs.exclusive hg hk hactive ha he hent)

end

/-! ## Stored shares -/

/-- A stored share: its owner's address as it was verified, valid fields and sound grants. -/
structure ShareRecord.Sound (share : ShareRecord) : Prop where
  owner : ∀ o ∈ share.ownerEmail, normalizeVerifiedEmail o = .ok o
  valid : validateShareImport share = .ok ()
  grants : SoundGrants share.ownerEmail share.userGrants

section
variable {ext : Externals} {now : ℕ} {share share' : ShareRecord} {patch : ShareSettingsPatch}

theorem canonicalOwner_of_verified {o : String} (h : normalizeVerifiedEmail o = .ok o) :
    canonicalOwner (some o) = some o := by
  have ho := normalizeVerifiedEmail_ok h
  have hne : trim o ≠ "" := by
    intro htrim
    rw [htrim] at ho
    exact ne_empty_of_verified h ho
  simp [canonicalOwner, Option.filter, hne, ← ho]

theorem reconcileUserGrants_eq {o : String} (h : canonicalOwner share.ownerEmail = some o) :
    reconcileUserGrants now share =
      { share with userGrants := reconcileOwner now share.policy o share.userGrants } := by
  rw [reconcileUserGrants, h]

theorem reconcileUserGrants_frame (now : ℕ) (share : ShareRecord) :
    ∃ grants, reconcileUserGrants now share = { share with userGrants := grants } := by
  unfold reconcileUserGrants
  split
  · exact ⟨share.userGrants, rfl⟩
  · exact ⟨_, rfl⟩

theorem reconcileUserGrants_sound (now : ℕ) (hs : share.Sound) :
    (reconcileUserGrants now share).Sound ∧ ∀ k g, g.manager = .routerShareMarket →
      ((reconcileUserGrants now share).userGrants.get? k = some g ↔ share.userGrants.get? k = some g) := by
  cases ho : share.ownerEmail with
  | none =>
    have hsame : reconcileUserGrants now share = share := by
      rw [reconcileUserGrants, ho]
      rfl
    rw [hsame]
    exact ⟨hs, fun _ _ _ => Iff.rfl⟩
  | some o =>
    have hverified := hs.owner o ho
    have hgrants := hs.grants
    rw [ho] at hgrants
    have hsound := reconcileOwner_sound now share.policy hgrants (asciiLower_of_verified hverified)
    rw [← ho] at hsound
    have hcanonical : canonicalOwner share.ownerEmail = some o := by
      rw [ho]
      exact canonicalOwner_of_verified hverified
    rw [reconcileUserGrants_eq hcanonical]
    exact ⟨⟨hs.owner, hs.valid, hsound⟩, fun k g hmanager => reconcileOwner_managed hgrants k g hmanager⟩

theorem patched_frame (h : share.patched ext now patch = .ok share') :
    share'.ownerEmail = share.ownerEmail ∧ share'.id = share.id ∧
      share'.configRevision = share.configRevision ∧
      patchedGrants now share.toShare patch = .ok share'.userGrants := by
  unfold patched at h
  obtain ⟨_, -, h⟩ := bind_eq_ok.mp h
  obtain ⟨_, -, h⟩ := bind_eq_ok.mp h
  obtain ⟨_, hgrants, h⟩ := bind_eq_ok.mp h
  obtain ⟨_, -, h⟩ := bind_eq_ok.mp h
  cases h
  exact ⟨rfl, rfl, rfl, hgrants⟩

theorem applyManaged_frame {managedGrant : Option ShareManagedGrantOperation}
    (h : share.applyManaged now managedGrant = .ok share') :
    share'.ownerEmail = share.ownerEmail ∧ share'.id = share.id := by
  unfold applyManaged at h
  split at h
  · cases h
    exact ⟨rfl, rfl⟩
  · obtain ⟨managed, hmanaged, h⟩ := bind_eq_ok.mp h
    cases h
    exact applyManagedGrantOperation_ownerEmail hmanaged

theorem applyManaged_sound {managedGrant : Option ShareManagedGrantOperation}
    (h : share.applyManaged now managedGrant = .ok share') (hs : share.Sound) :
    SoundGrants share.ownerEmail share'.userGrants := by
  unfold applyManaged at h
  split at h
  · cases h
    exact hs.grants
  · obtain ⟨managed, hmanaged, h⟩ := bind_eq_ok.mp h
    cases h
    exact applyManagedGrantOperation_sound hmanaged (fun o ho => asciiLower_of_verified (hs.owner o ho)) hs.grants

/-- The share after a patch is sound, and without a managed operation its active managed grants stay. -/
theorem revised_sound (h : share.revised ext now patch = .ok share') (hs : share.Sound) :
    share'.Sound ∧ share'.id = share.id ∧
      (patch.managedGrant = none → KeepsManaged share.userGrants share'.userGrants) := by
  unfold revised at h
  obtain ⟨patched, hpatched, h⟩ := bind_eq_ok.mp h
  obtain ⟨_, hvalid, h⟩ := bind_eq_ok.mp h
  obtain ⟨managed, hmanaged, h⟩ := bind_eq_ok.mp h
  obtain ⟨_, hvalid', h⟩ := bind_eq_ok.mp h
  cases h
  obtain ⟨howner, hid, -, hgrants⟩ := patched_frame hpatched
  obtain ⟨hsound, hkeeps⟩ := patchedGrants_ok hgrants hs.grants
  have hp : patched.Sound := by
    refine ⟨?_, hvalid, ?_⟩
    · rw [howner]
      exact hs.owner
    · rw [howner]
      exact hsound
  obtain ⟨hr, hrkeeps⟩ := reconcileUserGrants_sound now hp
  obtain ⟨grants, hframe⟩ := reconcileUserGrants_frame now patched
  have hmsound := applyManaged_sound hmanaged hr
  obtain ⟨hmowner, hmid⟩ := applyManaged_frame hmanaged
  have hrowner : (reconcileUserGrants now patched).ownerEmail = share.ownerEmail := by
    rw [hframe]
    exact howner
  have hrid : (reconcileUserGrants now patched).id = share.id := by
    rw [hframe]
    exact hid
  refine ⟨⟨?_, hvalid', ?_⟩, hmid.trans hrid, ?_⟩
  · intro o ho
    exact hs.owner o (by rwa [← hrowner, ← hmowner])
  · rw [← hmowner] at hmsound
    exact hmsound
  · intro hnone
    rw [hnone] at hmanaged
    cases hmanaged
    exact hkeeps.trans fun k g _ hmanager => hrkeeps k g hmanager

end

/-! ## Runs -/

/-- A patch for the share, and the clock when it comes. -/
structure SettingsCall where
  now : ℕ
  patch : ShareSettingsPatch

def settingsStep (ext : Externals) (shareId : String) (store : ShareStore) (call : SettingsCall) :
    Except SharePatchError ShareStore :=
  Prod.snd <$> store.applySettingsPatch ext call.now shareId call.patch

section
variable {ext : Externals} {now : ℕ} {shareId : String} {store store' : ShareStore}
  {share share' : ShareRecord} {patch : ShareSettingsPatch}

theorem get_replaceShare {shares : List ShareRecord}
    (h : shares.find? (fun item => item.id = shareId) = some share) (hid : share'.id = shareId) :
    (replaceShare shareId share' shares).find? (fun item => item.id = shareId) = some share' := by
  induction shares with
  | nil => cases h
  | cons item rest ih =>
    rw [replaceShare]
    by_cases hitem : item.id = shareId
    · rw [if_pos hitem, find?_cons_of_pos (by simpa using hid)]
    · rw [if_neg hitem, find?_cons_of_neg (by simpa using hitem)]
      rw [find?_cons_of_neg (by simpa using hitem)] at h
      exact ih h

theorem recordManaged_shares (managedGrant : Option ShareManagedGrantOperation) :
    (store.recordManaged ext now shareId share managedGrant).shares = store.shares := by
  unfold recordManaged
  split <;> rfl

theorem applySettingsPatch_ok (hget : store.get shareId = some share)
    (h : store.applySettingsPatch ext now shareId patch = .ok (share', store')) :
    (store.replayed ext shareId share patch.managedGrant = .ok true ∧ share' = share ∧ store' = store) ∨
      (store.replayed ext shareId share patch.managedGrant = .ok false ∧ share.revised ext now patch = .ok share' ∧
        store' = { store with shares := replaceShare shareId share' store.shares }.recordManaged ext now
          shareId share' patch.managedGrant) := by
  unfold applySettingsPatch at h
  rw [hget, context_eq_ok.mpr rfl, ok_bind] at h
  obtain ⟨again, hagain, h⟩ := bind_eq_ok.mp h
  cases again with
  | true =>
    cases h
    exact .inl ⟨hagain, rfl, rfl⟩
  | false =>
    obtain ⟨revised, hrevised, h⟩ := bind_eq_ok.mp h
    cases h
    exact .inr ⟨hagain, hrevised, rfl⟩

theorem get_of_ok (hget : store.get shareId = some share)
    (h : store.applySettingsPatch ext now shareId patch = .ok (share', store')) (hs : share.Sound) :
    store'.get shareId = some share' ∧ share'.Sound ∧
      (patch.managedGrant = none → KeepsManaged share.userGrants share'.userGrants) := by
  rcases applySettingsPatch_ok hget h with ⟨_, rfl, rfl⟩ | ⟨_, hrevised, rfl⟩
  · exact ⟨hget, hs, fun _ => .refl _⟩
  · obtain ⟨hsound, hid, hkeeps⟩ := revised_sound hrevised hs
    refine ⟨?_, hsound, hkeeps⟩
    have hmem := find?_some hget
    rw [decide_eq_true_eq] at hmem
    rw [ShareStore.get, recordManaged_shares]
    exact get_replaceShare hget (hid.trans hmem)

theorem settingsStep_sound (hs : ∃ share, store.get shareId = some share ∧ share.Sound) (call : SettingsCall) :
    ∃ share, (commit (settingsStep ext shareId) store call).get shareId = some share ∧ share.Sound := by
  rcases commit_cases (settingsStep ext shareId) store call with h | ⟨-, h⟩
  · obtain ⟨share, hget, hsound⟩ := hs
    unfold settingsStep at h
    cases hp : store.applySettingsPatch ext call.now shareId call.patch with
    | error e =>
      rw [hp] at h
      cases h
    | ok r =>
      obtain ⟨share', store'⟩ := r
      rw [hp] at h
      have hstore : store' = commit (settingsStep ext shareId) store call := Except.ok.inj h
      obtain ⟨hget', hsound', -⟩ := get_of_ok hget hp hsound
      exact ⟨share', hstore ▸ hget', hsound'⟩
  · rw [h]
    exact hs

/-- A revoke of the entitlement at `email` that the Router may send in this state. -/
structure ValidRevoke (store : ShareStore) (share : ShareRecord) (operation : ShareManagedGrantOperation)
    (email : String) : Prop where
  action : operation.action = .revoke
  shape : validateManagedGrantOperation operation = .ok ()
  address : normalizeVerifiedEmail operation.email = .ok email
  fresh : store.appliedRouterControlOperations.get? operation.operationId = none
  current : operation.expectedConfigRevision = share.configRevision

/-- The operation goes through, and no active grant carries its entitlement afterwards. -/
def Revokes (ext : Externals) (now : ℕ) (store : ShareStore) (shareId : String)
    (operation : ShareManagedGrantOperation) : Prop :=
  ∃ share store', store.applySettingsPatch ext now shareId { managedGrant := some operation } =
    .ok (share, store') ∧ ∀ k g, share.userGrants.get? k = some g → g.active = true →
      g.entitlementId ≠ some operation.entitlementId

theorem patched_managedOnly (operation : ShareManagedGrantOperation) :
    share.patched ext now { managedGrant := some operation } = .ok share := rfl

/-- A revoke finds its grant by a search in the order of the addresses that does not look at `active`. -/
theorem revokes_iff {operation : ShareManagedGrantOperation} {email : String} {grant : ShareUserGrant}
    (hget : store.get shareId = some share) (hs : share.Sound)
    (hv : ValidRevoke store share operation email) (hg : share.userGrants.get? email = some grant)
    (hactive : grant.active = true) (he : grant.entitlementId = some operation.entitlementId) :
    Revokes ext now store shareId operation ↔ share.toShare.Revocable operation.entitlementId email := by
  have hmanager := hs.grants.carried hg hactive (by simp [he])
  have hfalse : store.replayed ext shareId share (some operation) = .ok false := by
    simp only [replayed, hv.shape, ok_bind, hv.fresh, ensure_of hv.current]
    rfl
  obtain ⟨hr, hkeeps⟩ := reconcileUserGrants_sound now hs
  obtain ⟨grants, hframe⟩ := reconcileUserGrants_frame now share
  have howner : (reconcileUserGrants now share).ownerEmail = share.ownerEmail := by rw [hframe]
  have hg' := (hkeeps email grant hmanager).mpr hg
  have hrevocable : (reconcileUserGrants now share).toShare.Revocable operation.entitlementId email ↔
      share.toShare.Revocable operation.entitlementId email := by
    constructor
    · intro h k g hk hm hent
      exact h k g ((hkeeps k g hm).mpr hk) hm hent
    · intro h k g hk hm hent
      exact h k g ((hkeeps k g hm).mp hk) hm hent
  have happly : (reconcileUserGrants now share).toShare.applyManagedGrantOperation now operation =
      (reconcileUserGrants now share).toShare.revokeManagedGrant now operation email := by
    unfold applyManagedGrantOperation
    rw [hv.address, ok_bind, ensure_of, ok_bind, hv.action]
    rw [Option.any_eq_true]
    rintro ⟨o, ho, hcase⟩
    have ho' : share.ownerEmail = some o := by rw [← howner, ho]
    have heq := (eqIgnoreAsciiCase_iff (asciiLower_of_verified (hs.owner o ho'))
      (asciiLower_of_verified hv.address)).mp hcase
    exact (hs.grants.managed hg hmanager).2 (by rw [ho', heq])
  rw [← hrevocable, ← revokeManagedGrant_iff now hr.grants hg' hactive he]
  constructor
  · rintro ⟨share', store', h, hnone⟩
    rcases applySettingsPatch_ok hget h with ⟨htrue, -, -⟩ | ⟨-, hrevised, -⟩
    · rw [hfalse] at htrue
      cases htrue
    · unfold revised at hrevised
      rw [patched_managedOnly, ok_bind, hs.valid, ok_bind] at hrevised
      obtain ⟨managed, hmanaged, hrevised⟩ := bind_eq_ok.mp hrevised
      obtain ⟨_, -, hrevised⟩ := bind_eq_ok.mp hrevised
      cases hrevised
      obtain ⟨m, hm, hmanaged⟩ := bind_eq_ok.mp hmanaged
      cases hmanaged
      rw [happly] at hm
      exact ⟨m, hm, hnone⟩
  · rintro ⟨m, hm, hnone⟩
    rw [← happly] at hm
    let after : ShareRecord := markShareConfigPending { reconcileUserGrants now share with toShare := m }
    refine ⟨after, { store with shares := replaceShare shareId after store.shares }.recordManaged ext now
      shareId after (some operation), ?_, hnone⟩
    unfold applySettingsPatch
    rw [hget, context_eq_ok.mpr rfl, ok_bind]
    rw [hfalse, ok_bind]
    unfold revised
    rw [patched_managedOnly, ok_bind, hs.valid, ok_bind]
    have hmanaged : (reconcileUserGrants now share).applyManaged now (some operation) =
        .ok { reconcileUserGrants now share with toShare := m } := by
      rw [applyManaged, hm]
      rfl
    have hvalid : validateShareImport { reconcileUserGrants now share with toShare := m } = .ok () := by
      rw [hframe]
      exact hs.valid
    rw [hmanaged, ok_bind, hvalid]
    rfl

end

/-- The lifecycle of managed grants, for every run of patches on a stored share: an entitlement has at most one
active grant, a patch without a managed operation keeps the active grants of the Share Market, and a valid
revoke goes through exactly when no grant at an earlier address still carries the entitlement. -/
theorem grant_lifecycle (ext : Externals) (shareId : String) (store : ShareStore)
    (hs : ∃ share, store.get shareId = some share ∧ share.Sound) (calls : List SettingsCall) :
    ∃ share, (run (commit (settingsStep ext shareId)) store calls).get shareId = some share ∧
      (∀ k k' g g' e, share.userGrants.get? k = some g → share.userGrants.get? k' = some g' →
        g.active = true → g'.active = true → g.entitlementId = some e → g'.entitlementId = some e → k = k') ∧
      (∀ now patch share' store', patch.managedGrant = none →
        (run (commit (settingsStep ext shareId)) store calls).applySettingsPatch ext now shareId patch =
          .ok (share', store') → store'.get shareId = some share' ∧ KeepsManaged share.userGrants share'.userGrants) ∧
      ∀ now operation email grant,
        ValidRevoke (run (commit (settingsStep ext shareId)) store calls) share operation email →
        share.userGrants.get? email = some grant → grant.active = true →
        grant.entitlementId = some operation.entitlementId →
        (Revokes ext now (run (commit (settingsStep ext shareId)) store calls) shareId operation ↔
          share.toShare.Revocable operation.entitlementId email) := by
  obtain ⟨share, hget, hsound⟩ := @run_invariant _ _ (commit (settingsStep ext shareId))
    (fun store => ∃ share, store.get shareId = some share ∧ share.Sound) (fun _ _ => True)
    (fun store call h _ => settingsStep_sound h call) _ _ hs
    (EachStep.of_forall (fun _ _ => trivial) store calls)
  refine ⟨share, hget, ?_, ?_, ?_⟩
  · intro k k' g g' e hg hg' ha ha' he he'
    exact hsound.grants.exclusive hg hg' ha ha' he he'
  · intro now patch share' store' hnone h
    obtain ⟨hget', -, hkeeps⟩ := get_of_ok hget h hsound
    exact ⟨hget', hkeeps hnone⟩
  · intro now operation email grant hv hg hactive he
    exact revokes_iff hget hsound hv hg hactive he

/-- After any patches the share passes the check of an import, and its grants are sound. -/
theorem settings_stay_importable (ext : Externals) (shareId : String) (store : ShareStore)
    (hs : ∃ share, store.get shareId = some share ∧ share.Sound) (calls : List SettingsCall) :
    ∃ share, (run (commit (settingsStep ext shareId)) store calls).get shareId = some share ∧ share.Sound :=
  @run_invariant _ _ (commit (settingsStep ext shareId))
    (fun store => ∃ share, store.get shareId = some share ∧ share.Sound) (fun _ _ => True)
    (fun _ call h _ => settingsStep_sound h call) _ _ hs (EachStep.of_forall (fun _ _ => trivial) store calls)

/-! ## A second holder of an entitlement -/

def rentedShare : ShareRecord where
  id := "share"
  ownerEmail := some "owner@x.io"
  app := .codex
  providerId := "provider"
  providerType := .codex
  bindings := [⟨.codex, "provider", .codex⟩]
  configRevision := 1

def rentedStore : ShareStore where
  quotaCycleLedger := QuotaCycle.QuotaCycleLedger.default "stream"
  shares := [rentedShare]

/-- The receipts below only tell operations apart by their ids. -/
def plainExternals : Externals where
  parseRfc3339 := fun _ => none
  operationText := fun shareId operation => shareId ++ "/" ++ operation.operationId
  settingsFingerprint := fun shareId _ => shareId

def grantOperation (operationId email : String) (revision : ℕ) : ShareManagedGrantOperation where
  operationId := operationId
  entitlementId := "seat"
  shareSequence := 1
  expectedConfigRevision := revision
  action := .upsert
  email := email
  policy := some {}

def revokeOperation (operationId email : String) (revision : ℕ) : ShareManagedGrantOperation where
  operationId := operationId
  entitlementId := "seat"
  shareSequence := 1
  expectedConfigRevision := revision
  action := .revoke
  email := email

def managedCall (operation : ShareManagedGrantOperation) : SettingsCall where
  now := 1000
  patch := { managedGrant := some operation }

theorem rentedShare_sound : rentedShare.Sound where
  owner := by
    intro o ho
    cases ho
    rfl
  valid := by rfl
  grants := by
    constructor <;> intros <;> contradiction

theorem grant_lifecycle_rented :
    ∃ share, (run (commit (settingsStep plainExternals "share")) rentedStore
      [managedCall (grantOperation "1" "a@x.io" 1),
        managedCall (revokeOperation "2" "a@x.io" 2)]).get "share" = some share ∧
      ∀ k k' g g' e, share.userGrants.get? k = some g → share.userGrants.get? k' = some g' →
        g.active = true → g'.active = true → g.entitlementId = some e → g'.entitlementId = some e →
        k = k' := by
  obtain ⟨share, hget, hexclusive, -⟩ := grant_lifecycle plainExternals "share" rentedStore
    ⟨rentedShare, rfl, rentedShare_sound⟩
    [managedCall (grantOperation "1" "a@x.io" 1), managedCall (revokeOperation "2" "a@x.io" 2)]
  exact ⟨share, hget, hexclusive⟩

theorem settings_stay_importable_rented :
    ∃ share, (run (commit (settingsStep plainExternals "share")) rentedStore
      [managedCall (grantOperation "1" "a@x.io" 1)]).get "share" = some share ∧ share.Sound :=
  settings_stay_importable plainExternals "share" rentedStore ⟨rentedShare, rfl, rentedShare_sound⟩ _

def resoldStore : ShareStore :=
  run (commit (settingsStep plainExternals "share")) rentedStore
    [managedCall (grantOperation "1" "a@x.io" 1), managedCall (revokeOperation "2" "a@x.io" 2),
      managedCall (grantOperation "3" "b@x.io" 3)]

/-- The seat was granted to one user, revoked and granted to a second one: the second grant is active, and a
valid revoke of it fails on the revoked grant of the first user. -/
theorem second_holder_not_revoked :
    ∃ share grant, resoldStore.get "share" = some share ∧
      ValidRevoke resoldStore share (revokeOperation "4" "b@x.io" 4) "b@x.io" ∧
      share.userGrants.get? "b@x.io" = some grant ∧ grant.active = true ∧
      grant.entitlementId = some "seat" ∧
      ¬Revokes plainExternals 1000 resoldStore "share" (revokeOperation "4" "b@x.io" 4) := by
  have hstate : (resoldStore.get "share").any (fun share =>
      share.configRevision = 4 ∧ (share.userGrants.get? "b@x.io").any fun grant =>
        grant.active = true ∧ grant.entitlementId = some "seat") = true := by decide
  obtain ⟨share, hget, hshare⟩ := (any_eq_true _ _).mp hstate
  rw [decide_eq_true_eq] at hshare
  obtain ⟨hrevision, hany⟩ := hshare
  obtain ⟨grant, hgrant, hcarries⟩ := (any_eq_true _ _).mp hany
  rw [decide_eq_true_eq] at hcarries
  refine ⟨share, grant, hget, ⟨rfl, by rfl, by rfl, by decide, hrevision.symm⟩, hgrant, hcarries.1, hcarries.2, ?_⟩
  rintro ⟨share', store', h, -⟩
  have hfails : (resoldStore.applySettingsPatch plainExternals 1000 "share"
      { managedGrant := some (revokeOperation "4" "b@x.io" 4) }).toBool = false := by decide
  rw [h] at hfails
  cases hfails

end CcSwitchServer.Sharing
