import CcSwitchServer.Sharing.GrantLifecycle

/-! # Limits that the Router shows (`src/domain/sharing/router_contract.rs`)

The Router may send what the descriptor shows back in a patch.
-/

namespace CcSwitchServer.Sharing
open Foundations Option SharePolicy

/-! ## Expiry -/

/-- An expiry is in seconds below this number and in milliseconds from it on. -/
def secondsLimit : ℤ := 10000000000

/-- The product stays far below the largest `i64`. -/
def expiryMs (expiresAt : ℤ) : ℤ :=
  if 0 < expiresAt ∧ expiresAt < secondsLimit then expiresAt * 1000 else expiresAt

def shareExpired (expiresAt nowMs : ℤ) : Bool := expiryMs expiresAt < nowMs

def unlimitedShareExpiresAt : String := "2099-12-31T23:59:59Z"

def unlimitedMs : ℤ := 4102444799000

/-- The last millisecond of the year 9999. RFC 3339 has no later years. -/
def lastMs : ℤ := 253402300799999

/-- `write` is `timestamp_millis_opt` with `to_rfc3339`. Years after 9999 are written with a sign. -/
structure Rfc3339 (ext : Externals) where
  write : ℤ → Option String
  parse_write : ∀ ms s, 0 < ms → write ms = some s → ext.parseRfc3339 s = if ms ≤ lastMs then some ms else none
  plain : ∀ ms s, write ms = some s → Text.trim s = s ∧ s ≠ "" ∧ parseI64 s = none
  parse_unlimited : ext.parseRfc3339 unlimitedShareExpiresAt = some unlimitedMs
  write_unlimited : write unlimitedMs = some "2099-12-31T23:59:59+00:00"

section
variable {ext : Externals} (chrono : Rfc3339 ext)

/-- Small values are seconds. -/
def shareTimestampToRfc3339 (value : ℤ) : Option String :=
  if value ≤ 0 then none
  else chrono.write (if value < secondsLimit then value * 1000 else value)

def shareExpiresAtRfc3339 (expiresAt : Option ℤ) : String :=
  (expiresAt.bind (shareTimestampToRfc3339 chrono)).getD unlimitedShareExpiresAt

/-! ## Descriptors -/

/-- The limits in a descriptor. -/
@[ext] structure ShownLimits where
  tokenLimit : ℤ
  parallelLimit : ℤ
  expiresAt : String
deriving DecidableEq

/-- `as i64` of a `u64`. -/
def asI64 (n : ℕ) : ℤ := if n < 2 ^ 63 then n else n - 2 ^ 64

variable (policy : SharePolicy)

/-- The limits as signed numbers, `-1` for none. -/
def shownLimits : ShownLimits where
  tokenLimit := (policy.tokenLimit.map asI64).getD (-1)
  parallelLimit := (policy.parallelLimit.map fun limit : ℕ => (limit : ℤ)).getD (-1)
  expiresAt := shareExpiresAtRfc3339 chrono policy.expiresAt

def ShownLimits.patch (shown : ShownLimits) : ShareSettingsPatch where
  tokenLimit := some shown.tokenLimit
  parallelLimit := some shown.parallelLimit
  expiresAt := some shown.expiresAt

def SharePolicy.exhausted (tokensUsed : ℕ) : Bool := policy.tokenLimit.any fun limit => limit ≤ tokensUsed

def SharePolicy.occupied (inFlight : ℕ) : Bool := policy.parallelLimit.any fun limit => limit ≤ inFlight

def SharePolicy.expired (nowMs : ℤ) : Bool := policy.expiresAt.any fun expiresAt => shareExpired expiresAt nowMs

/-- A signed limit, reached. A negative one is none. -/
def Reached (limit : ℤ) (used : ℕ) : Prop := 0 ≤ limit ∧ limit ≤ used

/-- The share enforces what its descriptor says, and takes it back. -/
structure Shown (share : ShareRecord) : Prop where
  tokens : ∀ used ≤ u64Max,
    share.policy.exhausted used = true ↔ Reached (shownLimits chrono share.policy).tokenLimit used
  parallel : ∀ inFlight < 2 ^ 32,
    share.policy.occupied inFlight = true ↔ Reached (shownLimits chrono share.policy).parallelLimit inFlight
  expiry : share.policy.expiresAt = none ∧
      (shownLimits chrono share.policy).expiresAt = unlimitedShareExpiresAt ∨ ∃ instant,
    ext.parseRfc3339 (shownLimits chrono share.policy).expiresAt = some instant ∧
      ∀ nowMs, share.policy.expired nowMs = true ↔ instant < nowMs
  back : ∀ now (store : ShareStore), store.get share.id = some share → ∃ share' store',
    store.applySettingsPatch ext now share.id (shownLimits chrono share.policy).patch = .ok (share', store') ∧
      shownLimits chrono share'.policy = shownLimits chrono share.policy

/-- An expiry that means the same in seconds and in milliseconds, within the years of RFC 3339. -/
def Dated (expiresAt : ℤ) : Prop :=
  10000000 ≤ expiresAt ∧ expiryMs expiresAt ≤ lastMs ∧ (chrono.write (expiryMs expiresAt)).isSome

/-- The numbers of a stored share fit in 64 and 32 bits, and its fields are valid. -/
structure ShareRecord.Stored (share : ShareRecord) : Prop where
  tokens : ∀ limit ∈ share.policy.tokenLimit, limit ≤ u64Max
  parallel : ∀ limit ∈ share.policy.parallelLimit, limit < 2 ^ 32
  valid : validateShareImport share = .ok ()

end

/-! ## Patches -/

section
variable {ext : Externals} {now : ℕ} {share share' : ShareRecord} {patch : ShareSettingsPatch}

theorem applyManaged_policy {managedGrant : Option ShareManagedGrantOperation}
    (h : share.applyManaged now managedGrant = .ok share') : share'.policy = share.policy := by
  unfold ShareRecord.applyManaged at h
  split at h
  · cases h
    rfl
  · obtain ⟨_, -, h⟩ := bind_eq_ok.mp h
    cases h
    rfl

theorem revised_policy (h : share.revised ext now patch = .ok share') :
    patchedPolicy ext share.policy patch = .ok share'.policy ∧ validateShareImport share' = .ok () := by
  unfold ShareRecord.revised at h
  obtain ⟨patched, hpatched, h⟩ := bind_eq_ok.mp h
  obtain ⟨_, -, h⟩ := bind_eq_ok.mp h
  obtain ⟨managed, hmanaged, h⟩ := bind_eq_ok.mp h
  obtain ⟨_, hvalid, h⟩ := bind_eq_ok.mp h
  cases h
  obtain ⟨grants, hframe⟩ := reconcileUserGrants_frame now patched
  have hpolicy : managed.policy = patched.policy := by rw [applyManaged_policy hmanaged, hframe]
  unfold ShareRecord.patched at hpatched
  obtain ⟨_, -, hpatched⟩ := bind_eq_ok.mp hpatched
  obtain ⟨policy, hpatch, hpatched⟩ := bind_eq_ok.mp hpatched
  obtain ⟨_, -, hpatched⟩ := bind_eq_ok.mp hpatched
  obtain ⟨_, -, hpatched⟩ := bind_eq_ok.mp hpatched
  cases hpatched
  refine ⟨hpatch.trans (congrArg Except.ok hpolicy.symm), hvalid⟩

def SharePolicy.withLimits (policy : SharePolicy) (tokenLimit parallelLimit : ℤ) (expiresAt : Option ℤ) : SharePolicy :=
  { policy with
    tokenLimit := if 0 ≤ tokenLimit then some tokenLimit.toNat else none
    parallelLimit := if 0 ≤ parallelLimit then some (parallelLimit.toNat % 2 ^ 32) else none
    expiresAt := expiresAt }

theorem patchedPolicy_limits {policy policy' : SharePolicy} {t p : ℤ} {e : String}
    (ht : patch.tokenLimit = some t) (hp : patch.parallelLimit = some p) (he : patch.expiresAt = some e)
    (h : patchedPolicy ext policy patch = .ok policy') :
    ∃ expiresAt, parseShareExpiration ext e = .ok expiresAt ∧ policy' = policy'.withLimits t p expiresAt := by
  unfold patchedPolicy at h
  rw [ht, hp, he] at h
  obtain ⟨expiresAt, hparse, h⟩ := bind_eq_ok.mp h
  obtain ⟨_, -, h⟩ := bind_eq_ok.mp h
  refine ⟨expiresAt, hparse, ?_⟩
  cases h
  rfl

theorem patchedPolicy_back (policy : SharePolicy) (shown : ShownLimits) :
    patchedPolicy ext policy shown.patch = (parseShareExpiration ext shown.expiresAt).map
      (policy.withLimits shown.tokenLimit shown.parallelLimit) := by
  unfold patchedPolicy ShownLimits.patch
  dsimp only [Option.elim]
  cases parseShareExpiration ext shown.expiresAt <;> rfl

theorem revised_back {shown : ShownLimits} {expiresAt : Option ℤ} (hvalid : validateShareImport share = .ok ())
    (hparse : parseShareExpiration ext shown.expiresAt = .ok expiresAt) :
    ∃ share', share.revised ext now shown.patch = .ok share' ∧
      share'.policy = share.policy.withLimits shown.tokenLimit shown.parallelLimit expiresAt := by
  let patched := { share with policy := share.policy.withLimits shown.tokenLimit shown.parallelLimit expiresAt }
  have hpatched : share.patched ext now shown.patch = .ok patched := by
    unfold ShareRecord.patched
    rw [patchedPolicy_back, hparse]
    rfl
  obtain ⟨grants, hframe⟩ := reconcileUserGrants_frame now patched
  refine ⟨markShareConfigPending { patched with userGrants := grants }, ?_, rfl⟩
  unfold ShareRecord.revised
  rw [hpatched, ok_bind, hframe]
  have h : validateShareImport patched = .ok () := hvalid
  have h' : validateShareImport { patched with userGrants := grants } = .ok () := hvalid
  rw [h, ok_bind]
  show (do validateShareImport { patched with userGrants := grants }; _) = _
  rw [h', ok_bind]
  rfl

/-- A patch with the limits of a descriptor goes through exactly when its expiry is read. -/
theorem back_iff (chrono : Rfc3339 ext) (hvalid : validateShareImport share = .ok ()) (shown : ShownLimits)
    (store : ShareStore) (hget : store.get share.id = some share) :
    (∃ share' store', store.applySettingsPatch ext now share.id shown.patch = .ok (share', store') ∧
        shownLimits chrono share'.policy = shown) ↔
      ∃ expiresAt, parseShareExpiration ext shown.expiresAt = .ok expiresAt ∧
        shownLimits chrono (share.policy.withLimits shown.tokenLimit shown.parallelLimit expiresAt) = shown := by
  have hreplayed : store.replayed ext share.id share shown.patch.managedGrant = .ok false := rfl
  constructor
  · rintro ⟨share', store', h, hshown⟩
    rcases applySettingsPatch_ok hget h with ⟨htrue, -, -⟩ | ⟨-, hrevised, -⟩
    · cases htrue
    · have hpolicy := (revised_policy hrevised).1
      rw [patchedPolicy_back] at hpolicy
      cases hparse : parseShareExpiration ext shown.expiresAt with
      | error e =>
        rw [hparse] at hpolicy
        cases hpolicy
      | ok expiresAt =>
        rw [hparse] at hpolicy
        exact ⟨expiresAt, rfl, (congrArg (shownLimits chrono) (Except.ok.inj hpolicy)).trans hshown⟩
  · rintro ⟨expiresAt, hparse, hshown⟩
    obtain ⟨share', hrevised, hpolicy⟩ := @revised_back ext now share shown expiresAt hvalid hparse
    refine ⟨share', { store with shares := replaceShare share.id share' store.shares }, ?_, hpolicy ▸ hshown⟩
    unfold ShareStore.applySettingsPatch
    rw [hget, context_eq_ok.mpr rfl, ok_bind]
    rw [hreplayed, ok_bind, if_neg Bool.false_ne_true, hrevised, ok_bind]
    rfl

end

/-! ## Limits -/

section
variable {ext : Externals} (chrono : Rfc3339 ext) {policy : SharePolicy}

theorem asI64_of_lt {n : ℕ} (h : n < 2 ^ 63) : asI64 n = n := if_pos h

theorem shown_tokenLimit {t : ℤ} (h : t < 2 ^ 63) (parallelLimit : ℤ) (expiresAt : Option ℤ) :
    (shownLimits chrono (policy.withLimits t parallelLimit expiresAt)).tokenLimit = max t (-1) := by
  unfold shownLimits withLimits
  dsimp only
  split
  · rw [map_some, getD_some, asI64_of_lt (by omega)]
    omega
  · rw [map_none, getD_none]
    omega

theorem shown_parallelLimit (tokenLimit : ℤ) {p : ℤ} (expiresAt : Option ℤ) :
    (shownLimits chrono (policy.withLimits tokenLimit p expiresAt)).parallelLimit = max p (-1) ↔ p < 2 ^ 32 := by
  unfold shownLimits withLimits
  dsimp only
  split
  · rw [map_some, getD_some]
    omega
  · rw [map_none, getD_none]
    omega

theorem tokens_iff (h : ∀ limit ∈ policy.tokenLimit, limit ≤ u64Max) :
    (∀ used ≤ u64Max, policy.exhausted used = true ↔ Reached (shownLimits chrono policy).tokenLimit used) ↔
      ∀ limit ∈ policy.tokenLimit, limit < 2 ^ 63 := by
  unfold exhausted Reached shownLimits
  cases hlimit : policy.tokenLimit with
  | none => simp
  | some limit =>
    have hle := h limit hlimit
    have hmax : u64Max = 2 ^ 64 - 1 := rfl
    simp only [any_some, decide_eq_true_eq, map_some, getD_some, mem_def, some.injEq, forall_eq', asI64]
    constructor
    · intro htokens
      by_contra hlarge
      have := (htokens limit hle).mp le_rfl
      rw [if_neg hlarge] at this
      omega
    · intro hsmall used _
      rw [if_pos hsmall]
      omega

theorem parallel_shown (inFlight : ℕ) :
    policy.occupied inFlight = true ↔ Reached (shownLimits chrono policy).parallelLimit inFlight := by
  unfold occupied Reached shownLimits
  cases policy.parallelLimit <;> simp

theorem shown_tokenLimit_bounds (h : ∀ limit ∈ policy.tokenLimit, limit < 2 ^ 63) :
    -1 ≤ (shownLimits chrono policy).tokenLimit ∧ (shownLimits chrono policy).tokenLimit < 2 ^ 63 := by
  unfold shownLimits
  cases hlimit : policy.tokenLimit with
  | none => simp
  | some limit =>
    have := h limit hlimit
    simp only [map_some, getD_some, asI64_of_lt this]
    omega

theorem shown_parallelLimit_bounds (h : ∀ limit ∈ policy.parallelLimit, limit < 2 ^ 32) :
    -1 ≤ (shownLimits chrono policy).parallelLimit ∧ (shownLimits chrono policy).parallelLimit < 2 ^ 32 := by
  unfold shownLimits
  cases hlimit : policy.parallelLimit with
  | none => simp
  | some limit =>
    have := h limit hlimit
    simp only [map_some, getD_some]
    omega

/-! ## Times that come back -/

variable {at_ : ℤ}

theorem shareTimestampToRfc3339_of_pos (h : 0 < at_) :
    shareTimestampToRfc3339 chrono at_ = chrono.write (expiryMs at_) := by
  unfold shareTimestampToRfc3339 expiryMs
  simp [h, h.not_ge]

theorem expiryMs_pos (h : 0 < at_) : 0 < expiryMs at_ := by
  unfold expiryMs
  split <;> omega

theorem expiry_iff (hat : policy.expiresAt = some at_) :
    (∃ instant, ext.parseRfc3339 (shownLimits chrono policy).expiresAt = some instant ∧
        ∀ nowMs, policy.expired nowMs = true ↔ instant < nowMs) ↔
      0 < at_ ∧ expiryMs at_ ≤ lastMs ∧ (chrono.write (expiryMs at_)).isSome := by
  have hexpired : ∀ nowMs, policy.expired nowMs = true ↔ expiryMs at_ < nowMs := by
    intro nowMs
    simp [expired, shareExpired, hat]
  have hshown : (shownLimits chrono policy).expiresAt =
      (shareTimestampToRfc3339 chrono at_).getD unlimitedShareExpiresAt := by
    simp [shownLimits, shareExpiresAtRfc3339, hat]
  rw [hshown]
  simp only [hexpired]
  constructor
  · rintro ⟨instant, hparse, hsame⟩
    have hinstant : instant = expiryMs at_ := by
      have h := hsame instant
      have h' := hsame (expiryMs at_)
      omega
    subst hinstant
    rcases le_or_gt at_ 0 with hneg | hpos
    · rw [shareTimestampToRfc3339, if_pos hneg, getD_none, chrono.parse_unlimited] at hparse
      have hms := some.inj hparse
      rw [expiryMs, if_neg (by omega), unlimitedMs] at hms
      omega
    · rw [shareTimestampToRfc3339_of_pos chrono hpos] at hparse
      cases hwrite : chrono.write (expiryMs at_) with
      | none =>
        rw [hwrite, getD_none, chrono.parse_unlimited] at hparse
        rw [← some.inj hparse, chrono.write_unlimited] at hwrite
        cases hwrite
      | some s =>
        rw [hwrite, getD_some, chrono.parse_write _ s (expiryMs_pos hpos) hwrite] at hparse
        split at hparse
        · exact ⟨hpos, ‹_›, rfl⟩
        · cases hparse
  · rintro ⟨hpos, hlast, hwrite⟩
    obtain ⟨s, hs⟩ := isSome_iff_exists.mp hwrite
    refine ⟨expiryMs at_, ?_, fun _ => Iff.rfl⟩
    rw [shareTimestampToRfc3339_of_pos chrono hpos, hs, getD_some,
      chrono.parse_write _ s (expiryMs_pos hpos) hs, if_pos hlast]

theorem parseShareExpiration_of {s : String} {ms : ℤ} (hplain : Text.trim s = s ∧ s ≠ "" ∧ parseI64 s = none)
    (hparse : ext.parseRfc3339 s = some ms) : parseShareExpiration ext s = .ok (some ms) := by
  unfold parseShareExpiration
  simp only [hplain.1, if_neg hplain.2.1, hplain.2.2, hparse]
  rfl

theorem parse_shown (hat : policy.expiresAt = some at_) (hpos : 0 < at_) (hlast : expiryMs at_ ≤ lastMs)
    (hwrite : (chrono.write (expiryMs at_)).isSome) :
    parseShareExpiration ext (shownLimits chrono policy).expiresAt = .ok (some (expiryMs at_)) := by
  obtain ⟨s, hs⟩ := isSome_iff_exists.mp hwrite
  have hshown : (shownLimits chrono policy).expiresAt = s := by
    simp [shownLimits, shareExpiresAtRfc3339, hat, shareTimestampToRfc3339_of_pos chrono hpos, hs]
  rw [hshown]
  refine parseShareExpiration_of (chrono.plain _ s hs) ?_
  rw [chrono.parse_write _ s (expiryMs_pos hpos) hs, if_pos hlast]

/-- A time that comes back is read in milliseconds, so it must not look like one in seconds. -/
theorem returned_iff (hpos : 0 < at_) (hlast : expiryMs at_ ≤ lastMs)
    (hwrite : (chrono.write (expiryMs at_)).isSome) :
    shareExpiresAtRfc3339 chrono (some (expiryMs at_)) = shareExpiresAtRfc3339 chrono (some at_) ↔ 10000000 ≤ at_ := by
  obtain ⟨s, hs⟩ := isSome_iff_exists.mp hwrite
  have hms := expiryMs_pos hpos
  have hparse := chrono.parse_write _ s hms hs
  rw [if_pos hlast] at hparse
  simp only [shareExpiresAtRfc3339, bind_some, shareTimestampToRfc3339_of_pos chrono hpos,
    shareTimestampToRfc3339_of_pos chrono hms, hs, getD_some]
  constructor
  · intro hsame
    by_contra hsmall
    have hexpiry : expiryMs at_ = at_ * 1000 := if_pos ⟨hpos, by unfold secondsLimit; omega⟩
    have hagain : expiryMs (expiryMs at_) = expiryMs at_ * 1000 := if_pos ⟨hms, by unfold secondsLimit; omega⟩
    rw [hagain] at hsame
    cases hwrite' : chrono.write (expiryMs at_ * 1000) with
    | none =>
      rw [hwrite', getD_none] at hsame
      rw [← hsame, chrono.parse_unlimited, unlimitedMs] at hparse
      have := some.inj hparse
      omega
    | some s' =>
      rw [hwrite', getD_some] at hsame
      have hparse' := chrono.parse_write _ s' (by omega) hwrite'
      rw [if_pos (by unfold lastMs; omega), hsame, hparse] at hparse'
      have := some.inj hparse'
      omega
  · intro hlarge
    have hagain : expiryMs (expiryMs at_) = expiryMs at_ := by
      refine if_neg fun h => ?_
      unfold expiryMs secondsLimit at h
      split at h <;> omega
    rw [hagain, hs, getD_some]

end

/-! ## What the Router shows -/

section
variable {ext : Externals} (chrono : Rfc3339 ext) {share : ShareRecord}

/-- A stored share is shown right if its limit is an `i64` and its expiry can be written. -/
theorem shown_iff_stored (hs : share.Stored) :
    Shown chrono share ↔ (∀ limit ∈ share.policy.tokenLimit, limit < 2 ^ 63) ∧
      ∃ at_ ∈ share.policy.expiresAt, Dated chrono at_ := by
  have hback : (∀ now (store : ShareStore), store.get share.id = some share → ∃ share' store',
      store.applySettingsPatch ext now share.id (shownLimits chrono share.policy).patch = .ok (share', store') ∧
        shownLimits chrono share'.policy = shownLimits chrono share.policy) ↔
      ∃ expiresAt, parseShareExpiration ext (shownLimits chrono share.policy).expiresAt = .ok expiresAt ∧
        shownLimits chrono (share.policy.withLimits (shownLimits chrono share.policy).tokenLimit
          (shownLimits chrono share.policy).parallelLimit expiresAt) = shownLimits chrono share.policy := by
    constructor
    · intro h
      have hget : ShareStore.get { quotaCycleLedger := .default "", shares := [share] } share.id = some share := by
        simp [ShareStore.get]
      exact (back_iff chrono hs.valid _ _ hget).mp (h 0 _ hget)
    · exact fun h now store hget => (back_iff chrono hs.valid _ store hget).mpr h
  constructor
  · intro h
    refine ⟨(tokens_iff chrono hs.tokens).mp h.tokens, ?_⟩
    obtain ⟨expiresAt, hparse, hshown⟩ := hback.mp h.back
    have hreturned := congrArg ShownLimits.expiresAt hshown
    cases hat : share.policy.expiresAt with
    | none =>
      have hunlimited : (shownLimits chrono share.policy).expiresAt = unlimitedShareExpiresAt := by
        simp [shownLimits, shareExpiresAtRfc3339, hat]
      rw [hunlimited, parseShareExpiration_of (by decide) chrono.parse_unlimited] at hparse
      cases hparse
      rw [hunlimited] at hreturned
      simp [shownLimits, withLimits, shareExpiresAtRfc3339, unlimitedMs,
        shareTimestampToRfc3339, secondsLimit] at hreturned
      have hwrite := chrono.write_unlimited
      rw [unlimitedMs] at hwrite
      rw [hwrite] at hreturned
      exact absurd hreturned (by decide)
    | some at_ =>
      have hexpiry := h.expiry.resolve_left (by rw [hat]; rintro ⟨⟨⟩, -⟩)
      obtain ⟨hpos, hlast, hwrite⟩ := (expiry_iff chrono hat).mp hexpiry
      rw [parse_shown chrono hat hpos hlast hwrite] at hparse
      cases hparse
      refine ⟨at_, rfl, (returned_iff chrono hpos hlast hwrite).mp ?_, hlast, hwrite⟩
      simpa [shownLimits, withLimits, hat] using hreturned
  · rintro ⟨htokens, at_, hat, hlarge, hlast, hwrite⟩
    have hpos : 0 < at_ := by omega
    refine ⟨(tokens_iff chrono hs.tokens).mpr htokens, fun inFlight _ => parallel_shown chrono inFlight,
      .inr ((expiry_iff chrono hat).mpr ⟨hpos, hlast, hwrite⟩),
      hback.mpr ⟨_, parse_shown chrono hat hpos hlast hwrite, ?_⟩⟩
    obtain ⟨htlow, hthigh⟩ := shown_tokenLimit_bounds chrono htokens
    obtain ⟨hplow, hphigh⟩ := shown_parallelLimit_bounds chrono hs.parallel
    apply ShownLimits.ext
    · rw [shown_tokenLimit chrono hthigh, max_eq_left htlow]
    · rw [(shown_parallelLimit chrono _ _).mpr hphigh, max_eq_left hplow]
    · have hreturned := (returned_iff chrono hpos hlast hwrite).mpr hlarge
      rw [← hat] at hreturned
      exact hreturned

/-- For every accepted patch that takes effect, and for every stored share. -/
theorem shown_iff (chrono : Rfc3339 ext) :
    (∀ now (store store' : ShareStore) shareId stored share patch t p e, store.get shareId = some stored →
      patch.tokenLimit = some t → patch.parallelLimit = some p → patch.expiresAt = some e →
      InI64 t → InI64 p → store.replayed ext shareId stored patch.managedGrant = .ok false →
      store.applySettingsPatch ext now shareId patch = .ok (share, store') →
        ((shownLimits chrono share.policy).tokenLimit = max t (-1) ∧
          (shownLimits chrono share.policy).parallelLimit = max p (-1) ∧ Shown chrono share ↔
            p < 2 ^ 32 ∧ ∃ at_, parseShareExpiration ext e = .ok (some at_) ∧ Dated chrono at_)) ∧
      ∀ share : ShareRecord, share.Stored → (Shown chrono share ↔
        (∀ limit ∈ share.policy.tokenLimit, limit < 2 ^ 63) ∧ ∃ at_ ∈ share.policy.expiresAt, Dated chrono at_) := by
  refine ⟨?_, fun share hs => shown_iff_stored chrono hs⟩
  intro now store store' shareId stored share patch t p e hget ht hp he hbound hbound' hreplayed h
  rcases applySettingsPatch_ok hget h with ⟨htrue, -, -⟩ | ⟨-, hrevised, -⟩
  · rw [hreplayed] at htrue
    cases htrue
  · obtain ⟨hpolicy, hvalid⟩ := revised_policy hrevised
    obtain ⟨expiresAt, hparse, heq⟩ := patchedPolicy_limits ht hp he hpolicy
    have ht63 : t < 2 ^ 63 := by
      rw [InI64, i64Max] at hbound
      omega
    have hsmall : ∀ limit ∈ share.policy.tokenLimit, limit < 2 ^ 63 := by
      rw [heq, withLimits]
      intro limit hlimit
      obtain ⟨-, hlimit⟩ := ite_none_right_eq_some.mp hlimit
      cases hlimit
      omega
    have hs : share.Stored := by
      refine ⟨fun limit hlimit => (hsmall limit hlimit).le.trans (by decide), ?_, hvalid⟩
      rw [heq, withLimits]
      intro limit hlimit
      obtain ⟨-, hlimit⟩ := ite_none_right_eq_some.mp hlimit
      cases hlimit
      omega
    rw [shown_iff_stored chrono hs, heq, shown_tokenLimit chrono ht63, shown_parallelLimit, hparse, ← heq]
    have hexpires : share.policy.expiresAt = expiresAt := by
      rw [heq]
      rfl
    rw [hexpires]
    constructor
    · rintro ⟨-, hp32, -, at_, hat, hdated⟩
      exact ⟨hp32, at_, congrArg Except.ok hat, hdated⟩
    · rintro ⟨hp32, at_, hat, hdated⟩
      exact ⟨rfl, hp32, hsmall, at_, Except.ok.inj hat, hdated⟩

end

/-- Only the time of unlimited shares can be read and written. -/
def unlimitedExternals : Externals :=
  { plainExternals with
    parseRfc3339 := fun s =>
      if s = unlimitedShareExpiresAt ∨ s = "2099-12-31T23:59:59+00:00" then some unlimitedMs else none }

def unlimitedChrono : Rfc3339 unlimitedExternals where
  write ms := if ms = unlimitedMs then some "2099-12-31T23:59:59+00:00" else none
  parse_write := by
    intro ms s _ hwrite
    obtain ⟨rfl, hs⟩ := ite_none_right_eq_some.mp hwrite
    cases hs
    rfl
  plain := by
    intro ms s hwrite
    obtain ⟨-, hs⟩ := ite_none_right_eq_some.mp hwrite
    cases hs
    decide
  parse_unlimited := rfl
  write_unlimited := rfl

def limitsPatch (parallelLimit : ℤ) : ShareSettingsPatch :=
  { tokenLimit := some 1, parallelLimit := some parallelLimit, expiresAt := some "4102444799" }

/-- A patch with limits and an expiry in seconds is shown as it is; a share that never expires is not. -/
theorem shown_iff_accepted : ∃ share store',
    rentedStore.applySettingsPatch unlimitedExternals 1000 "share" (limitsPatch 3) = .ok (share, store') ∧
    (shownLimits unlimitedChrono share.policy).parallelLimit = 3 ∧ Shown unlimitedChrono share ∧
    ¬Shown unlimitedChrono rentedShare := by
  cases h : rentedStore.applySettingsPatch unlimitedExternals 1000 "share" (limitsPatch 3) with
  | error e =>
    have hok : (rentedStore.applySettingsPatch unlimitedExternals 1000 "share" (limitsPatch 3)).isOk = true := by decide
    rw [h] at hok
    cases hok
  | ok result =>
    obtain ⟨share, store'⟩ := result
    obtain ⟨hpatch, hstored⟩ := shown_iff unlimitedChrono
    obtain ⟨-, hparallel, hshown⟩ := (hpatch 1000 rentedStore store' "share" rentedShare share _ 1 3 "4102444799"
      (by rfl) rfl rfl rfl (by decide) (by decide) (by rfl) h).mpr
        ⟨by decide, 4102444799, by rfl, by decide, by decide, by decide⟩
    refine ⟨share, store', rfl, hparallel, hshown, ?_⟩
    rw [hstored rentedShare ⟨by decide, by decide, by rfl⟩]
    rintro ⟨-, at_, hat, -⟩
    cases hat

/-- A parallel limit of 2^32 is stored, shown and enforced as 0. -/
theorem parallelLimit_wraps : ∃ share store',
    rentedStore.applySettingsPatch unlimitedExternals 1000 "share" (limitsPatch 4294967296) = .ok (share, store') ∧
    (shownLimits unlimitedChrono share.policy).parallelLimit = 0 ∧ share.policy.occupied 0 = true := by
  have hpatched :
      (rentedStore.applySettingsPatch unlimitedExternals 1000 "share" (limitsPatch 4294967296)).toOption.any
        (fun result => (shownLimits unlimitedChrono result.1.policy).parallelLimit = 0 ∧
          result.1.policy.occupied 0 = true) = true := by decide
  cases h : rentedStore.applySettingsPatch unlimitedExternals 1000 "share" (limitsPatch 4294967296) with
  | error e =>
    rw [h] at hpatched
    cases hpatched
  | ok result =>
    rw [h] at hpatched
    exact ⟨result.1, result.2, rfl, of_decide_eq_true hpatched⟩

end CcSwitchServer.Sharing
