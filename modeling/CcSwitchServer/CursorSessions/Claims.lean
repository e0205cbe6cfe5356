import CcSwitchServer.CursorSessions.Registry
import CcSwitchServer.Foundations.Runs

/-! # Claims of continuation ids (`proxy/cursor/session.rs`)

Only these functions take the lock of the claims, so an interleaving is a list of their calls.
-/

namespace CcSwitchServer.CursorSessions
open Foundations CursorScopedIndexKey List

inductive CursorContinuationClaimError
  | alreadyClaimed
  | capacityExhausted
  | memoryCapacityExhausted
deriving DecidableEq, Repr

/-- When each id was claimed. -/
abbrev Claims := OrderedMap CursorScopedIndexKey ℕ

/-- A call with the clock that it read before it got the lock. -/
inductive ClaimCall
  | claimContinuationIds (scope : String) (rawIds : List String) (now : ℕ) (granted : Bool)
  | continuationWasClaimed (scope : String) (rawIds : List String) (now : ℕ)

def ClaimCall.now : ClaimCall → ℕ
  | .claimContinuationIds _ _ now _ => now
  | .continuationWasClaimed _ _ now => now

namespace Claims

variable (limits : Limits)

variable (claims : Claims)

/-- A claim lasts until a call with a clock past the idle TTL. -/
def sweep (now : ℕ) : Claims := claims.filter fun e => now - e.2 ≤ limits.idleTtl

def scopedKeys (scope : String) (rawIds : List String) : List CursorScopedIndexKey :=
  (rawIds.filterMap (new scope)).dedup

/-- All ids are claimed or none. -/
def claimContinuationIds (scope : String) (rawIds : List String)
    (now : ℕ) (granted : Bool) : Except CursorContinuationClaimError Unit × Claims :=
  let claims := claims.sweep limits now
  let keys := scopedKeys scope rawIds
  if keys.any fun key => (claims.get? key).isSome then (.error .alreadyClaimed, claims)
  else
    let maxClaims := max (min (limits.maxSessions * 16) u64Max) 64
    if maxClaims < saturatingAdd claims.size keys.length then (.error .capacityExhausted, claims)
    else if ¬granted then (.error .memoryCapacityExhausted, claims)
    else (.ok (), keys.foldl (fun claims key => claims.insert key now) claims)

def continuationWasClaimed (scope : String) (rawIds : List String) (now : ℕ) : Bool × Claims :=
  let claims := claims.sweep limits now
  (rawIds.any fun rawId =>
    (new scope rawId).any fun key => (claims.get? key).isSome, claims)

def step : ClaimCall → Claims
  | .claimContinuationIds scope rawIds now granted =>
    (claims.claimContinuationIds limits scope rawIds now granted).2
  | .continuationWasClaimed scope rawIds now => (claims.continuationWasClaimed limits scope rawIds now).2

variable {limits : Limits} {claims : Claims} {scope : String} {rawIds : List String} {now : ℕ} {granted : Bool}

variable {key : CursorScopedIndexKey} {t : ℕ}

theorem get?_sweep :
    (claims.sweep limits now).get? key = some t ↔ claims.get? key = some t ∧ now - t ≤ limits.idleTtl := by
  unfold sweep
  rw [OrderedMap.get?_filter_eq_some, decide_eq_true_eq]

theorem get?_insertAll (keys : List CursorScopedIndexKey) (key : CursorScopedIndexKey) :
    (keys.foldl (fun claims key => claims.insert key now) claims).get? key =
      if key ∈ keys then some now else claims.get? key := by
  induction keys generalizing claims with
  | nil => rfl
  | cons k keys ih =>
    rw [foldl_cons, ih, OrderedMap.get?_insert]
    by_cases hmem : key ∈ keys
    · rw [if_pos hmem, if_pos (mem_cons_of_mem _ hmem)]
    · rw [if_neg hmem]
      by_cases hk : k = key
      · rw [if_pos hk, if_pos (hk ▸ mem_cons_self)]
      · rw [if_neg hk, if_neg]
        intro hcons
        rcases mem_cons.mp hcons with heq | hcons
        · exact hk heq.symm
        · exact hmem hcons

theorem mem_scopedKeys {rawId : String} (hmem : rawId ∈ rawIds)
    (hkey : new scope rawId = some key) : key ∈ scopedKeys scope rawIds :=
  mem_dedup.mpr (mem_filterMap.mpr ⟨rawId, hmem, hkey⟩)

theorem claim_ok (h : (claims.claimContinuationIds limits scope rawIds now granted).1 = .ok ()) :
    ∀ key ∈ scopedKeys scope rawIds, (claims.sweep limits now).get? key = none ∧
      (claims.claimContinuationIds limits scope rawIds now granted).2.get? key = some now := by
  intro key hkey
  unfold claimContinuationIds at h ⊢
  dsimp only at h ⊢
  split at h
  · cases h
  · rename_i hany
    split at h
    · cases h
    · rename_i hroom
      split at h
      · cases h
      · rename_i hgranted
        rw [if_neg hany, if_neg hroom, if_neg hgranted, get?_insertAll, if_pos hkey]
        refine ⟨?_, rfl⟩
        rw [any_eq_true, not_exists] at hany
        have hnone := hany key
        rw [not_and, Bool.not_eq_true, Option.isSome_eq_false_iff] at hnone
        exact Option.isNone_iff_eq_none.mp (hnone hkey)

/-- A claim that is alive stays. -/
theorem get?_step {c : ClaimCall} (hkey : claims.get? key = some t) (hlive : c.now - t ≤ limits.idleTtl) :
    (claims.step limits c).get? key = some t := by
  cases c with
  | claimContinuationIds scope rawIds now granted =>
    have hsweep : (claims.sweep limits now).get? key = some t := get?_sweep.mpr ⟨hkey, hlive⟩
    unfold step
    cases hres : (claims.claimContinuationIds limits scope rawIds now granted).1 with
    | error e =>
      unfold claimContinuationIds at hres ⊢
      dsimp only at hres ⊢
      split
      · exact hsweep
      · split
        · exact hsweep
        · split
          · exact hsweep
          · rename_i h₁ h₂ h₃
            rw [if_neg h₁, if_neg h₂, if_neg h₃] at hres
            cases hres
    | ok u =>
      have hfresh := claim_ok hres
      have hnot : key ∉ scopedKeys scope rawIds := by
        intro hmem
        rw [(hfresh key hmem).1] at hsweep
        cases hsweep
      unfold claimContinuationIds
      dsimp only
      split
      · exact hsweep
      · split
        · exact hsweep
        · split
          · exact hsweep
          · rw [get?_insertAll, if_neg hnot]
            exact hsweep
  | continuationWasClaimed scope rawIds now => exact get?_sweep.mpr ⟨hkey, hlive⟩

theorem claim_error {e : CursorContinuationClaimError}
    (h : (claims.claimContinuationIds limits scope rawIds now granted).1 = .error e) :
    (claims.claimContinuationIds limits scope rawIds now granted).2 = claims.sweep limits now := by
  unfold claimContinuationIds at h ⊢
  dsimp only at h ⊢
  split at h
  · rename_i h₁
    rw [if_pos h₁]
  · rename_i h₁
    rw [if_neg h₁]
    split at h
    · rename_i h₂
      rw [if_pos h₂]
    · rename_i h₂
      rw [if_neg h₂]
      split at h
      · rename_i h₃
        rw [if_pos h₃]
      · cases h

theorem claim_refused {rawId : String} (hmem : rawId ∈ rawIds)
    (hnew : new scope rawId = some key) (hkey : claims.get? key = some t) (hlive : now - t ≤ limits.idleTtl) :
    (claims.claimContinuationIds limits scope rawIds now granted).1 = .error .alreadyClaimed := by
  unfold claimContinuationIds
  rw [if_pos]
  rw [any_eq_true]
  refine ⟨key, mem_scopedKeys hmem hnew, ?_⟩
  rw [get?_sweep.mpr ⟨hkey, hlive⟩]
  rfl

theorem get?_run {calls : List ClaimCall} (hkey : claims.get? key = some t)
    (hlive : ∀ c ∈ calls, c.now - t ≤ limits.idleTtl) : (run (step limits) claims calls).get? key = some t := by
  induction calls generalizing claims with
  | nil => exact hkey
  | cons c calls ih =>
    exact ih (get?_step hkey (hlive c mem_cons_self)) fun c' hc' => hlive c' (mem_cons_of_mem _ hc')

end Claims

end CcSwitchServer.CursorSessions
