import CcSwitchServer.Sharing.MarketTrials

/-! # What a call of `record` leaves behind (`src/domain/sharing/market_trials.rs`)

A call answers with its result and with the share as it then stands, also after a fault.
-/

namespace CcSwitchServer.Sharing
open Foundations Usage ValuePricing

/-! ## Tokens -/

/-- The fault that stops the charge, and the entitlement as it stands then. -/
def chargeInPlace (entitlement : ShareMarketEntitlement) (phase : ShareMarketPhase) (delta : ℕ)
    (uncertain : Bool) : Option String × ShareMarketEntitlement :=
  let entitlement := { entitlement with usageUncertain := entitlement.usageUncertain || uncertain }
  match phase with
  | .paid => (none, entitlement)
  | .trial =>
    match checkedAddU64 entitlement.trialTokensUsed delta with
    | none => (some "market Tokens overflow", entitlement)
    | some used =>
      let entitlement := { entitlement with trialTokensUsed := used }
      match checkedAddU64 entitlement.usageRevision 1 with
      | none => (some "market usage revision overflow", entitlement)
      | some revision => (none, { entitlement with usageRevision := revision })

namespace Share

/-- A receipt is written before the steps that charge for it. -/
def recordReceipt (wall : ℤ) (share : Share) (log : UsageLog) (receipt : MarketRequestReceipt) :
    Except String Bool × Share :=
  let tokens := log.quotaTokens
  let revision := max log.usageRevision 1
  if ¬share.Attributed receipt log then (.error "market usage identity changed", share)
  else if log.usageState = .pending then (.ok false, share)
  else if revision < receipt.revision then (.ok false, share)
  else if revision = receipt.revision then
    if tokens ≠ receipt.tokens then (.error "market usage revision changed payload", share)
    else (.ok false, share)
  else if tokens < receipt.tokens then (.error "market usage cannot erase confirmed Tokens", share)
  else
    let countRequest := receipt.revision = 0 && receipt.countRequest
    let delta := tokens - receipt.tokens
    let share := { share with
      marketRequests := share.marketRequests.insert log.requestId
        { receipt with tokens := tokens, revision := revision } }
    match share.marketEntitlements.get? receipt.entitlementId with
    | none => (.error "market entitlement missing", share)
    | some entitlement =>
      let charged := chargeInPlace entitlement receipt.phase delta (logUncertain receipt.phase log)
      let share := { share with
        marketEntitlements := share.marketEntitlements.insert receipt.entitlementId charged.2 }
      match charged.1 with
      | some fault => (.error fault, share)
      | none =>
        (.ok true, { share with
          userGrants := chargeGrant wall share.userGrants charged.2 receipt delta countRequest })

/-- A supplemental request gets its receipt before the log is looked at. -/
def recordInPlace (wall : ℤ) (share : Share) (log : UsageLog) : Except String Bool × Share :=
  match (share.inherit log).marketRequests.get? log.requestId with
  | none => (.ok false, share.inherit log)
  | some receipt => (share.inherit log).recordReceipt wall log receipt

/-! ## Value -/

end Share

def usdTrial (state : ShareMarketEntitlement) : Bool :=
  state.trialValueLimitUsdMicros.isSome || state.trialValueAllowanceUsdMicros.isSome

def valueErrorText : ValueError → String
  | .invalidDecimal => "invalid canonical unsigned decimal"
  | .outOfRange => "value exceeds the supported range"
  | .invalidPolicy => "invalid USD-equivalent quota policy"
  | .invalidSnapshot => "invalid pricing snapshot"
  | .priceUnavailable => "price_unavailable"
  | .usageUnavailable => "usage_unavailable"
  | .overflow => "quota arithmetic overflow"

namespace Share

/-- The settled value of a request is folded into its trial receipt and its entitlement. -/
def recordValue (share : Share) (requestId : String) (picos : ℤ) : Except String Bool × Share :=
  match share.marketRequests.get? requestId with
  | none => (.ok false, share)
  | some receipt =>
    if receipt.phase ≠ .trial then (.ok false, share)
    else
      match share.marketEntitlements.get? receipt.entitlementId with
      | none => (.error "market entitlement missing", share)
      | some entitlement =>
        if ¬usdTrial entitlement then (.ok false, share)
        else if picos < 0 then (.error "market USD usage cannot be negative", share)
        else
          match unsignedDecimal receipt.valuePicos with
          | .error e => (.error (valueErrorText e), share)
          | .ok seen =>
            if picos ≤ seen then (.ok false, share)
            else
              match unsignedDecimal entitlement.trialValueUsedPicos with
              | .error e => (.error (valueErrorText e), share)
              | .ok used =>
                match checkedAdd used (picos.toNat - seen) with
                | none => (.error "market USD usage overflow", share)
                | some used =>
                  match checkedAddU64 entitlement.usageRevision 1 with
                  | none => (.error "market usage revision overflow", share)
                  | some revision =>
                    (.ok true, { share with
                      marketEntitlements := share.marketEntitlements.insert receipt.entitlementId
                        { entitlement with
                          usageRevision := revision
                          trialValueUsedPicos := toString used }
                      marketRequests := share.marketRequests.insert requestId
                        { receipt with valuePicos := toString picos.toNat } })

end Share

/-! ## The two readings of `record` -/

theorem chargeInPlace_eq (entitlement : ShareMarketEntitlement) (phase : ShareMarketPhase) (delta : ℕ)
    (uncertain : Bool) : chargeEntitlement entitlement phase delta uncertain =
      (chargeInPlace entitlement phase delta uncertain).1.elim
        (.ok (chargeInPlace entitlement phase delta uncertain).2) .error := by
  unfold chargeEntitlement chargeInPlace
  cases phase with
  | paid => rfl
  | trial =>
    dsimp only
    cases checkedAddU64 entitlement.trialTokensUsed delta with
    | none => rfl
    | some used => cases checkedAddU64 entitlement.usageRevision 1 <;> rfl

namespace Share

/-- The share that callers keep: on a fault they drop the copy they gave to the call. -/
theorem record_eq (wall : ℤ) (share : Share) (log : UsageLog) : share.record wall log =
    (recordInPlace wall share log).1.map fun changed => (changed, (recordInPlace wall share log).2) := by
  unfold record recordInPlace
  dsimp only
  cases (share.inherit log).marketRequests.get? log.requestId with
  | none => rfl
  | some receipt =>
    dsimp only
    unfold recordReceipt ensure
    dsimp only
    split_ifs <;> try first | rfl | omega
    -- every check has passed
    cases (share.inherit log).marketEntitlements.get? receipt.entitlementId with
    | none => rfl
    | some entitlement =>
      change (chargeEntitlement _ _ _ _ >>= _) = _
      rw [chargeInPlace_eq]
      dsimp only
      cases (chargeInPlace entitlement receipt.phase (log.quotaTokens - receipt.tokens)
        (logUncertain receipt.phase log)).1 <;> rfl

section
variable {wall : ℤ} {share share' : Share} {log : UsageLog} {receipt : MarketRequestReceipt}

/-! ## Outcomes -/

def refusals : List String :=
  ["market usage identity changed", "market usage revision changed payload",
    "market usage cannot erase confirmed Tokens"]

theorem chargeInPlace_fault {entitlement : ShareMarketEntitlement} {phase : ShareMarketPhase} {delta : ℕ}
    {uncertain : Bool} {fault : String}
    (h : (chargeInPlace entitlement phase delta uncertain).1 = some fault) : fault ∉ refusals := by
  unfold chargeInPlace at h
  dsimp only at h
  split at h
  · cases h
  · split at h
    · cases h
      decide
    · split at h
      · cases h
        decide
      · cases h

def inherited (parent : MarketRequestReceipt) (log : UsageLog) : MarketRequestReceipt :=
  { parent with
    tokens := 0
    revision := 0
    countRequest := false
    valuePicos := "0"
    parentRequestId := log.parentRequestId }

/-- The log is that of a supplemental request whose parent has a receipt. -/
def Inherits (share : Share) (log : UsageLog) (parent : MarketRequestReceipt) : Prop :=
  share.marketRequests.get? log.requestId = none ∧ log.recordKind = .internalSupplemental ∧
    log.parentRequestId.bind share.marketRequests.get? = some parent

theorem inherit_cases (share : Share) (log : UsageLog) :
    share.inherit log = share ∧ (∀ parent, ¬share.Inherits log parent) ∨
      ∃ parent, share.Inherits log parent ∧ share.inherit log =
        { share with marketRequests := share.marketRequests.insert log.requestId (inherited parent log) } := by
  unfold inherit Inherits
  split
  · rename_i h
    cases hparent : log.parentRequestId.bind share.marketRequests.get? with
    | none => exact .inl ⟨rfl, fun _ hinherits => nomatch hinherits.2.2⟩
    | some parent => exact .inr ⟨parent, ⟨h.1, h.2, rfl⟩, rfl⟩
  · rename_i h
    exact .inl ⟨rfl, fun _ hinherits => h ⟨hinherits.1, hinherits.2.1⟩⟩

theorem recordReceipt_cases (wall : ℤ) (share : Share) (log : UsageLog) (receipt : MarketRequestReceipt) :
    ((recordReceipt wall share log receipt).2 = share ∧ ((recordReceipt wall share log receipt).1 = .ok false ∨
        ∃ e ∈ refusals, (recordReceipt wall share log receipt).1 = .error e)) ∨
    (receipt.revision < max log.usageRevision 1 ∧
      (recordReceipt wall share log receipt).2.marketRequests = share.marketRequests.insert log.requestId
        { receipt with tokens := log.quotaTokens, revision := max log.usageRevision 1 } ∧
      ((recordReceipt wall share log receipt).1 = .ok true ∨
        ∃ e, e ∉ refusals ∧ (recordReceipt wall share log receipt).1 = .error e)) := by
  unfold recordReceipt
  dsimp only
  split
  · exact .inl ⟨rfl, .inr ⟨_, by decide, rfl⟩⟩
  · split
    · exact .inl ⟨rfl, .inl rfl⟩
    · split
      · exact .inl ⟨rfl, .inl rfl⟩
      · split
        · split
          · exact .inl ⟨rfl, .inr ⟨_, by decide, rfl⟩⟩
          · exact .inl ⟨rfl, .inl rfl⟩
        · split
          · exact .inl ⟨rfl, .inr ⟨_, by decide, rfl⟩⟩
          · rename_i hold hsame hless
            refine .inr ⟨by omega, ?_⟩
            split
            · exact ⟨rfl, .inr ⟨_, by decide, rfl⟩⟩
            · split
              · rename_i fault hfault
                exact ⟨rfl, .inr ⟨fault, chargeInPlace_fault hfault, rfl⟩⟩
              · exact ⟨rfl, .inl rfl⟩

theorem inherit_of_stored (h : share.marketRequests.get? log.requestId = some receipt) :
    share.inherit log = share := by
  unfold inherit
  refine if_neg fun hnone => ?_
  rw [h] at hnone
  cases hnone.1

theorem inherit_again {log' : UsageLog} (hid : log'.requestId = log.requestId)
    (hkind : log'.recordKind = log.recordKind) (hparent : log'.parentRequestId = log.parentRequestId) :
    (share.inherit log).inherit log' = share.inherit log' := by
  have hsame : share.inherit log' = share.inherit log := by
    unfold inherit
    rw [hid, hkind, hparent]
  rw [hsame]
  obtain ⟨heq, -⟩ | ⟨parent, -, heq⟩ := inherit_cases share log
  · rw [heq]
    exact hsame.trans heq
  · have hstored : (share.inherit log).marketRequests.get? log'.requestId = some (inherited parent log) := by
      rw [heq, OrderedMap.get?_insert, if_pos hid.symm]
    exact inherit_of_stored hstored

/-! ## All or nothing -/

/-- A call that did not count: no charge, and no new receipt but the empty one of a supplemental request. A
later delivery of the request does what it would have done without the call. -/
structure Ignored (share : Share) (log : UsageLog) (share' : Share) : Prop where
  entitlements : share'.marketEntitlements = share.marketEntitlements
  grants : share'.userGrants = share.userGrants
  requests : share' = share ∨ ∃ parent, share.Inherits log parent ∧ share' =
    { share with marketRequests := share.marketRequests.insert log.requestId (inherited parent log) }
  retry : ∀ wall log', log'.requestId = log.requestId → log'.recordKind = log.recordKind →
    log'.parentRequestId = log.parentRequestId → recordInPlace wall share' log' = recordInPlace wall share log'

/-- The receipt at `id` changed, and no other. -/
def OneReceipt (share share' : Share) (id : String) : Prop :=
  share'.marketRequests.get? id ≠ share.marketRequests.get? id ∧
    ∀ other, other ≠ id → share'.marketRequests.get? other = share.marketRequests.get? other

theorem ignored_inherit (share : Share) (log : UsageLog) : share.Ignored log (share.inherit log) := by
  obtain ⟨heq, -⟩ | ⟨parent, hinherits, heq⟩ := inherit_cases share log
  · rw [heq]
    exact ⟨rfl, rfl, .inl rfl, fun _ _ _ _ _ => rfl⟩
  · refine ⟨by rw [heq], by rw [heq], .inr ⟨parent, hinherits, heq⟩, fun wall log' hid hkind hparent => ?_⟩
    unfold recordInPlace
    rw [inherit_again hid hkind hparent]

theorem oneReceipt_insert {id : String} {requests : OrderedMap String MarketRequestReceipt}
    (hothers : ∀ other, other ≠ id → requests.get? other = share.marketRequests.get? other)
    (hwritten : share'.marketRequests = requests.insert id receipt)
    (hchanged : share.marketRequests.get? id ≠ some receipt) : OneReceipt share share' id := by
  constructor
  · rw [hwritten, OrderedMap.get?_insert, if_pos rfl]
    exact hchanged.symm
  · intro other hother
    rw [hwritten, OrderedMap.get?_insert_of_ne requests receipt hother.symm]
    exact hothers other hother

theorem inherit_others (share : Share) (log : UsageLog) (other : String) (hother : other ≠ log.requestId) :
    (share.inherit log).marketRequests.get? other = share.marketRequests.get? other := by
  obtain ⟨heq, -⟩ | ⟨parent, -, heq⟩ := inherit_cases share log
  · rw [heq]
  · rw [heq]
    exact OrderedMap.get?_insert_of_ne _ _ hother.symm

/-- What each kind of answer leaves behind. -/
theorem record_leaves (wall : ℤ) (share : Share) (log : UsageLog) :
    match recordInPlace wall share log with
    | (.ok true, share') => OneReceipt share share' log.requestId
    | (.ok false, share') => share.Ignored log share'
    | (.error e, share') => e ∈ refusals → share.Ignored log share' := by
  have hignored := ignored_inherit share log
  cases hreceipt : (share.inherit log).marketRequests.get? log.requestId with
  | none =>
    have hcall : recordInPlace wall share log = (.ok false, share.inherit log) := by
      unfold recordInPlace
      rw [hreceipt]
    rw [hcall]
    exact hignored
  | some receipt =>
    have hcall : recordInPlace wall share log = (share.inherit log).recordReceipt wall log receipt := by
      unfold recordInPlace
      rw [hreceipt]
    rw [hcall]
    generalize hanswer : (share.inherit log).recordReceipt wall log receipt = answer
    obtain ⟨result, share'⟩ := answer
    have hcases := recordReceipt_cases wall (share.inherit log) log receipt
    rw [hanswer] at hcases
    obtain ⟨rfl, rfl | ⟨e, he, rfl⟩⟩ | ⟨hnewer, hwritten, rfl | ⟨e, he, rfl⟩⟩ := hcases
    · exact hignored
    · exact fun _ => hignored
    · refine oneReceipt_insert (inherit_others share log) hwritten fun hstored => ?_
      obtain ⟨heq, -⟩ | ⟨parent, hinherits, -⟩ := inherit_cases share log
      · rw [heq, hstored] at hreceipt
        have hrevision := congrArg MarketRequestReceipt.revision (Option.some.inj hreceipt)
        exact absurd hrevision hnewer.ne'
      · rw [hinherits.1] at hstored
        cases hstored
    · exact fun hrefused => absurd hrefused he

end

/-! ## The value of a request -/

theorem digitsValue_toString (n : ℕ) : digitsValue (toString n).toList = n := by
  have hdigits : (toString n).toList = Nat.toDigits 10 n := Nat.toList_repr
  have hvalue : digitsValue (Nat.toDigits 10 n) = Nat.ofDigitChars 10 (Nat.toDigits 10 n) 0 := by
    unfold digitsValue Nat.ofDigitChars
    congr 1
    funext value c
    rw [Nat.mul_comm]
  rw [hdigits, hvalue, Nat.ofDigitChars_ten_toDigits]

theorem digitsValue_of_unsignedDecimal {raw : String} {n : ℕ} (h : unsignedDecimal raw = .ok n) :
    digitsValue raw.toList = n := by
  unfold unsignedDecimal at h
  dsimp only at h
  split at h
  · cases h
  · split at h
    · exact Except.ok.inj h
    · cases h

theorem recordValue_cases (share : Share) (requestId : String) (picos : ℤ) :
    ((recordValue share requestId picos).2 = share ∧ (recordValue share requestId picos).1 ≠ .ok true) ∨
    ((recordValue share requestId picos).1 = .ok true ∧ ∃ receipt seen,
      share.marketRequests.get? requestId = some receipt ∧ unsignedDecimal receipt.valuePicos = .ok seen ∧
      (seen : ℤ) < picos ∧ (recordValue share requestId picos).2.marketRequests =
        share.marketRequests.insert requestId { receipt with valuePicos := toString picos.toNat }) := by
  unfold recordValue
  cases hreceipt : share.marketRequests.get? requestId with
  | none => exact .inl ⟨rfl, nofun⟩
  | some receipt =>
    dsimp only
    split
    · exact .inl ⟨rfl, nofun⟩
    · split
      · exact .inl ⟨rfl, nofun⟩
      · split
        · exact .inl ⟨rfl, nofun⟩
        · split
          · exact .inl ⟨rfl, nofun⟩
          · split
            · exact .inl ⟨rfl, nofun⟩
            · rename_i seen hseen
              split
              · exact .inl ⟨rfl, nofun⟩
              · rename_i hmore
                split
                · exact .inl ⟨rfl, nofun⟩
                · split
                  · exact .inl ⟨rfl, nofun⟩
                  · split
                    · exact .inl ⟨rfl, nofun⟩
                    · exact .inr ⟨rfl, receipt, seen, rfl, hseen, not_le.mp hmore, rfl⟩

/-- `record_value` writes last: it changes everything or nothing. -/
theorem recordValue_leaves (share : Share) (requestId : String) (picos : ℤ) :
    match recordValue share requestId picos with
    | (.ok true, share') => OneReceipt share share' requestId
    | (.ok false, share') => share' = share
    | (.error _, share') => share' = share := by
  generalize hanswer : recordValue share requestId picos = answer
  obtain ⟨result, share'⟩ := answer
  have hcases := recordValue_cases share requestId picos
  rw [hanswer] at hcases
  obtain ⟨hsame, hnot⟩ | ⟨htrue, receipt, seen, hreceipt, hseen, hmore, hwritten⟩ := hcases
  · cases result with
    | error e => exact hsame
    | ok changed =>
      cases changed with
      | false => exact hsame
      | true => exact absurd rfl hnot
  · dsimp only at htrue
    subst htrue
    refine oneReceipt_insert (fun _ _ => rfl) hwritten fun hstored => ?_
    rw [hreceipt] at hstored
    have htext := congrArg MarketRequestReceipt.valuePicos (Option.some.inj hstored)
    have hvalue := digitsValue_of_unsignedDecimal hseen
    rw [htext, digitsValue_toString] at hvalue
    omega

/-! ## The result -/

/-- A call of either function that does not answer with a change has changed no receipt of a request, no
entitlement and no grant; one that does has changed one receipt. -/
theorem market_record_all_or_nothing (share : Share) :
    (∀ (wall : ℤ) (log : UsageLog),
      match recordInPlace wall share log with
      | (.ok true, share') => OneReceipt share share' log.requestId
      | (.ok false, share') => share.Ignored log share'
      | (.error e, share') => e ∈ refusals → share.Ignored log share') ∧
    ∀ (requestId : String) (picos : ℤ),
      match recordValue share requestId picos with
      | (.ok true, share') => OneReceipt share share' requestId
      | (.ok false, share') => share' = share
      | (.error _, share') => share' = share :=
  ⟨fun wall log => record_leaves wall share log, fun requestId picos => recordValue_leaves share requestId picos⟩

def progressShare : Share where
  id := "share"
  marketEntitlements := OrderedMap.empty.insert "trial"
    { trialScopeId := "scope", trialTokenAllowance := some 100, email := "user@example.test", phase := .trial,
      active := true, trialTokenLimit := some 100, trialTokensUsed := 0, usageRevision := 0,
      usageUncertain := false, appliedAtMs := 0, paidStartedAtMs := none,
      trialValueAllowanceUsdMicros := none, trialValueLimitUsdMicros := none, trialValueUsedPicos := "0" }
  marketRequests := (OrderedMap.empty.insert "request"
    { entitlementId := "trial", email := "user@example.test", phase := .trial, startedAtMs := 1000,
      tokens := 0, revision := 0 }).insert "stray"
    { entitlementId := "gone", email := "user@example.test", phase := .trial, startedAtMs := 1000,
      tokens := 0, revision := 0 }

def progressLog (requestId : String) (kind : UsageRecordKind) (parent : Option String) (state : UsageState) :
    UsageLog where
  requestId := requestId
  recordKind := kind
  parentRequestId := parent
  inputTokens := some 7
  shareId := some "share"
  userEmail := some "user@example.test"
  usageState := state
  usageRevision := 1

/-- The progress of a supplemental request is ignored and leaves a receipt. A final log that fails for want
of its entitlement leaves its revision, and its second delivery is ignored. -/
theorem market_record_writes :
    (∃ share', recordInPlace 0 progressShare
        (progressLog "summary" .internalSupplemental (some "request") .pending) = (.ok false, share') ∧
      share'.marketRequests.get? "summary" ≠ progressShare.marketRequests.get? "summary") ∧
    ∃ share', recordInPlace 0 progressShare (progressLog "stray" .userInference none .observed) =
        (.error "market entitlement missing", share') ∧
      share'.marketRequests.get? "stray" ≠ progressShare.marketRequests.get? "stray" ∧
      (recordInPlace 0 share' (progressLog "stray" .userInference none .observed)).1 = .ok false := by
  refine ⟨⟨_, rfl, by decide⟩, _, rfl, by decide, by decide⟩

end Share

end CcSwitchServer.Sharing
