import CcSwitchServer.Sharing.Records

/-! # Edits of the grants of a share (`src/domain/sharing/shares.rs`)

The editor sends the whole map of grants or edits of single ones.
-/

namespace CcSwitchServer.Sharing
open Foundations

/-- The clock as the `i64` that a cast of its `u128` gives. -/
def castI64 (n : ℕ) : ℤ := Int.bmod n (2 ^ 64)

/-! ## Rebuilding the map -/

def managedReadOnly : SharePatchError := .invalid "Share Market managed users are read-only"

variable (now : ℕ)

variable (grant : ShareUserGrant)

def ShareUserGrant.revoke : ShareUserGrant :=
  { grant with
    active := false
    revokedAtMs := some now
    updatedAtMs := now
    revision := nextRevision grant.revision }

/-- The stored grants an incoming map starts from: ordinary ones are revoked unless it names them. -/
def revokeOrdinary : ShareUserGrant :=
  if grant.role ≠ "owner" ∧ grant.manager ≠ .routerShareMarket ∧ grant.active then grant.revoke now
  else grant

/-- An incoming grant as the server stores it; usage and what the server derives are taken from `previous`. -/
def ownedGrant (owner : Option String) (email : String) (previous : Option ShareUserGrant)
    (incoming : ShareUserGrant) : ShareUserGrant where
  email := email
  role := if owner = some email then "owner" else "shareto"
  active := true
  policy := incoming.policy
  pendingValueQuota := (previous.bind fun g => g.pendingValueQuota).filter fun pending =>
    pending.policy = incoming.policy
  usage := (previous.map fun g => g.usage).getD {}
  usageRebase := previous.bind fun g => g.usageRebase
  usageQuota := previous.bind fun g => g.usageQuota
  accountQuotaCycle := previous.bind fun g => g.accountQuotaCycle
  accountUsageBaseline := previous.bind fun g => g.accountUsageBaseline
  createdAtMs := ((previous.map fun g => g.createdAtMs).filter fun t => 0 < t).getD now
  updatedAtMs := now
  revokedAtMs := none
  revision := (previous.map fun g => nextRevision g.revision).getD 1
  manager := if owner = some email then .owner else .manual
  entitlementId := none

/-- A grant that says the same as before keeps its revision. -/
def incomingGrant (owner : Option String) (email : String)
    (previous : Option ShareUserGrant) (incoming : ShareUserGrant) : ShareUserGrant :=
  let grant := ownedGrant now owner email previous incoming
  match previous with
  | none => grant
  | some previous =>
    if previous.active = grant.active ∧ previous.role = grant.role ∧ previous.policy = grant.policy ∧
        previous.manager = grant.manager ∧ previous.entitlementId = grant.entitlementId then
      { grant with revision := previous.revision, updatedAtMs := previous.updatedAtMs }
    else grant

/-- The incoming copy of an active grant of the Share Market changes nothing that matters. -/
def SameManaged (previous incoming : ShareUserGrant) (email : String) : Prop :=
  incoming.active = previous.active ∧ Text.eqIgnoreAsciiCase email previous.email ∧
    incoming.role = previous.role ∧ incoming.policy = previous.policy ∧
    incoming.manager = .routerShareMarket ∧ incoming.entitlementId = previous.entitlementId

instance (previous incoming : ShareUserGrant) (email : String) :
    Decidable (SameManaged previous incoming email) :=
  inferInstanceAs (Decidable (_ ∧ _))

/-- What an incoming grant puts into the map: `none` keeps the stored one of the Share Market. -/
def checkManaged (previous : Option ShareUserGrant) (incoming : ShareUserGrant) (email : String) :
    Except SharePatchError (Option ShareUserGrant) :=
  match previous with
  | none => pure none
  | some previous =>
    if previous.active ∧ previous.manager = .routerShareMarket then do
      ensure (SameManaged previous incoming email) managedReadOnly
      pure (some previous)
    else do
      ensure (¬(previous.active = false ∧ previous.manager = .routerShareMarket ∧
        (incoming.manager = .routerShareMarket ∨ incoming.entitlementId ≠ none))) managedReadOnly
      pure none

/-- An active grant of a Share Market is read-only on this path. -/
def normalizeUserGrant (existing : UserGrants) (owner : Option String)
    (normalized : UserGrants) (entry : String × ShareUserGrant) : Except SharePatchError UserGrants := do
  let incoming := entry.2
  let email ← normalizeVerifiedEmail (if Text.trim incoming.email = "" then entry.1 else incoming.email)
  ensure (¬(owner = some email ∧ incoming.role ≠ "owner")) (.invalid "share owner cannot also be a ShareTo user")
  positiveLimits incoming.policy
  liftPeriod (validateUserPolicy incoming.policy (castI64 now))
  let previous := existing.get? email
  match ← checkManaged previous incoming email with
  | some kept => pure (normalized.insert email kept)
  | none => pure (normalized.insert email (incomingGrant now owner email previous incoming))

/-- The map is built anew from the incoming grants and the stored ones. -/
def normalizeUserGrants (incoming existing : UserGrants) (ownerEmail : Option String) :
    Except SharePatchError UserGrants :=
  let owner := ownerEmail.map fun value => Text.asciiLower (Text.trim value)
  incoming.entries.foldlM (normalizeUserGrant now existing owner) (existing.mapValues (revokeOrdinary now))

/-! ## Edits of single grants -/

/-- `policy = none` revokes the grant. -/
structure ShareUserGrantEdit where
  expectedRevision : ℕ
  policy : Option ShareUserPolicy
deriving DecidableEq, Repr

def editedGrant (ownerEmail : Option String) (email : String) (previous : Option ShareUserGrant)
    (policy : ShareUserPolicy) : ShareUserGrant :=
  { previous.getD {} with
    email := email
    active := true
    role := if ownerEmail = some email then "owner" else "shareto"
    manager := if ownerEmail = some email then .owner else .manual
    entitlementId := none
    policy := policy }

def applyUserGrantEdit (share : Share) (merged : UserGrants)
    (entry : String × ShareUserGrantEdit) : Except SharePatchError UserGrants := do
  let (email, edit) := entry
  let canonical ← normalizeVerifiedEmail email
  ensure (canonical = email) (.invalid "userGrantEdits keys must be normalized emails")
  let previous := share.userGrants.get? email
  ensure (¬previous.any fun grant => grant.active ∧ grant.manager = .routerShareMarket) (.managedGrantReadOnly email)
  let current := (previous.map fun grant => grant.revision).getD 0
  ensure (edit.expectedRevision = current) (.grantRevisionConflict email edit.expectedRevision current)
  match edit.policy with
  | some policy => pure (merged.insert email (editedGrant share.ownerEmail email previous policy))
  | none => do
    ensure (share.ownerEmail ≠ some email) (.invalid "share owner cannot be revoked")
    pure (merged.erase email)

/-- All edits are merged before the map is normalised. -/
def applyUserGrantEdits (share : Share) (edits : OrderedMap String ShareUserGrantEdit) :
    Except SharePatchError UserGrants := do
  let merged ← edits.entries.foldlM (applyUserGrantEdit share)
    (share.userGrants.filter fun e => e.2.active)
  normalizeUserGrants now merged share.userGrants share.ownerEmail

/-! ## The grant of the owner -/

def permanentShareExpirySentinelMs : ℤ := 4102444799000

def canonicalUserPolicyExpiry (expiresAt : Option ℤ) : Option ℤ :=
  expiresAt.filter fun value => value < permanentShareExpirySentinelMs

/-- The limits of the share are those of its users. -/
def defaultUserPolicy (policy : SharePolicy) : ShareUserPolicy where
  parallelLimit := policy.parallelLimit
  tokenLimit := policy.tokenLimit
  expiresAt := canonicalUserPolicyExpiry policy.expiresAt

def ownerGrant (owner : String) (grant : ShareUserGrant) : ShareUserGrant :=
  let stale := grant.email ≠ owner ∨ grant.role ≠ "owner" ∨ grant.active = false ∨ grant.revokedAtMs ≠ none
  let grant :=
    { grant with
      updatedAtMs := if stale then now else grant.updatedAtMs
      revision := if stale then nextRevision grant.revision else grant.revision
      email := owner
      role := "owner"
      active := true
      revokedAtMs := none
      manager := .owner
      entitlementId := none }
  if canonicalUserPolicyExpiry grant.policy.expiresAt ≠ grant.policy.expiresAt then
    { grant with
      policy := { grant.policy with expiresAt := none }
      updatedAtMs := now
      revision := nextRevision grant.revision }
  else grant

/-- A grant that says `owner` under another address becomes an ordinary one. -/
def demoteOwner : ShareUserGrant :=
  if grant.role = "owner" then
    { grant with
      role := "shareto"
      manager := .manual
      entitlementId := none
      updatedAtMs := now
      revision := nextRevision grant.revision }
  else grant

def reconcileOwner (policy : SharePolicy) (owner : String) (grants : UserGrants) : UserGrants :=
  let grant := (grants.get? owner).getD
    { email := owner
      role := "owner"
      active := true
      policy := defaultUserPolicy policy
      createdAtMs := now
      updatedAtMs := now
      revision := 1
      manager := .owner }
  (grants.mapValues (demoteOwner now)).insert owner (ownerGrant now owner grant)

def canonicalOwner (ownerEmail : Option String) : Option String :=
  ((ownerEmail.map Text.trim).filter fun value => value ≠ "").map Text.asciiLower

/-- The owner of the share has a grant of its own. -/
def reconcileUserGrants (share : ShareRecord) : ShareRecord :=
  match canonicalOwner share.ownerEmail with
  | none => share
  | some owner =>
    { share with userGrants := reconcileOwner now share.policy owner share.userGrants }

end CcSwitchServer.Sharing
