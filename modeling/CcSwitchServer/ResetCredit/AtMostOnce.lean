import CcSwitchServer.ResetCredit.Frame

/-! # A credit is let through once

Every request that was let through has left an operation behind. None of this needs the clock.
-/

namespace CcSwitchServer.ResetCredit
open Foundations QuotaCycle QuotaCycleLedger OrderedMap Text Option List ResetCredit

/-! ## What the transactions do -/

section
variable {env : Environment} {st st' : State}

variable {ids : OpaqueIds} {w w' : World} {sourceRef creditId operationId : String} {fence : QuotaSourceFence}
  {now : ℕ} {result : Option ConsumeResetCreditResult}

theorem registerSource_ok {identity providerType bucketId : String}
    (h : w.registerSource ids identity providerType bucketId fence = (.ok sourceRef, w')) :
    ∃ s, w'.ledger.sources.get? identity = some s ∧ s.sourceRef = sourceRef := by
  have hset : ∀ {w : World} {s}, w.setFence identity s fence = (.ok sourceRef, w') →
      ∃ s, w'.ledger.sources.get? identity = some s ∧ s.sourceRef = sourceRef := by
    intro w s hset
    unfold World.setFence at hset
    dsimp only at hset
    split at hset
    · cases hset
    · cases hset
      exact ⟨_, get?_insert_self _ _ _, rfl⟩
  have hinsert : (w.sourceOrInsert ids identity providerType bucketId fence).2.ledger.sources.get?
      identity = some (w.sourceOrInsert ids identity providerType bucketId fence).1 := by
    unfold World.sourceOrInsert
    split
    · rename_i s hs
      exact hs
    · exact get?_insert_self _ _ _
  unfold World.registerSource at h
  split at h
  · cases h
  split at h
  · cases h
  dsimp only at h
  split at h
  · cases h
  split at h
  · exact hset h
  · cases h
    exact ⟨_, hinsert, rfl⟩

theorem registered_trace {identity : String}
    (h : w.registerSource ids identity "codex_oauth" "shared_weekly" fence = (.ok sourceRef, w')) :
    Trace (Move ids) (fun _ _ => True) w w' := by
  have hmoves : Trace (Move ids) (fun _ _ => True) w
      (w.registerSource ids identity "codex_oauth" "shared_weekly" fence).2 :=
    registerSource_trace (fun _ _ _ => trivial) (by decide)
  rwa [h] at hmoves

def sentOperation (env : Environment) (requests : ℕ) (sourceRef : String) (fence : QuotaSourceFence)
    (operationId fingerprint : String) (now : ℕ) : ResetCreditOperation :=
  { operationId := operationId, requestId := env.requestId requests, sourceRef := sourceRef,
    fence := fence, status := .dispatched, createdAtMs := nowMsI64 now, confirmedAtMs := none,
    result := none, creditFingerprint := fingerprint }

theorem dispatchCredit_ok {fingerprint : String} {p : PreparedResetCredit}
    (hnone : w.ledger.operations.get? operationId = none)
    (h : dispatchCredit env st w sourceRef fence creditId operationId fingerprint now = .ok (p, st')) :
    p.dispatch = true ∧
    st' = { st with
      world := w.setLedger { w.ledger with
        revision := saturatingSucc w.ledger.revision
        operations := w.ledger.operations.insert operationId
          (sentOperation env st.requests sourceRef fence operationId fingerprint now) }
      requests := st.requests + 1
      dispatched := st.dispatched ++ [⟨sourceRef, trim creditId⟩] } := by
  unfold dispatchCredit beginRedeem at h
  obtain ⟨l, hl, h⟩ := bind_eq_ok.mp h
  obtain ⟨source, -, hl⟩ := bind_eq_ok.mp hl
  obtain ⟨-, -, hl⟩ := bind_eq_ok.mp hl
  simp only [hnone] at hl
  cases hl
  cases h
  refine ⟨rfl, ?_⟩
  simp only [insert_insert]
  rfl

theorem previousOperation_eq_none {l : QuotaCycleLedger} {fingerprint : String}
    (h : previousOperation l operationId sourceRef fingerprint creditId = none) :
    l.operations.get? operationId = none ∧ ∀ k o, l.operations.get? k = some o →
      o.sourceRef = sourceRef → o.creditFingerprint = fingerprint → trim creditId = "" := by
  unfold previousOperation at h
  rw [or_eq_none_iff, find?_eq_none] at h
  refine ⟨h.1, fun k o ho href hfingerprint => ?_⟩
  have hskip := h.2 o (mem_values_iff.mpr ⟨k, ho⟩)
  simp only [href, hfingerprint, true_and, decide_eq_true_eq, not_or, not_not] at hskip
  exact hskip.1

/-- A call that succeeds registers the source and then finds an operation or lets the request
through. -/
theorem prepare_ok {account : String} {p : PreparedResetCredit}
    (h : prepare env st account fence creditId operationId now = .ok (p, st')) :
    validOperationId operationId = true ∧
    (∀ stream ∈ st.restoreFence, stream = st.world.ledger.streamIncarnation) ∧
    st.world.ledger.redeemRecoveryRequired = false ∧
    ∃ sourceRef w, st.world.registerSource env.ids (sourceIdentity account) "codex_oauth"
        "shared_weekly" fence = (.ok sourceRef, w) ∧
      (p.dispatch = false ∧ st' = { st with world := w } ∨ p.dispatch = true ∧
        previousOperation w.ledger operationId sourceRef
          (creditFingerprint env (sourceIdentity account) creditId) creditId = none ∧
        (∀ o ∈ w.ledger.operations.values, ¬(o.sourceRef = sourceRef ∧ ResetCreditStatus.Unresolved o.status)) ∧
        st' = { st with
          world := w.setLedger { w.ledger with
            revision := saturatingSucc w.ledger.revision
            operations := w.ledger.operations.insert operationId (sentOperation env st.requests
              sourceRef fence operationId
              (creditFingerprint env (sourceIdentity account) creditId) now) }
          requests := st.requests + 1
          dispatched := st.dispatched ++ [⟨sourceRef, trim creditId⟩] }) := by
  unfold prepare at h
  obtain ⟨u, hvalid, h⟩ := bind_eq_ok.mp h
  obtain ⟨u, hfence, h⟩ := bind_eq_ok.mp h
  unfold prepareTransaction at h
  obtain ⟨u, hrecovery, h⟩ := bind_eq_ok.mp h
  refine ⟨ensure_eq_ok.mp hvalid, ensure_eq_ok.mp hfence, ensure_eq_ok.mp hrecovery, ?_⟩
  cases hregister : st.world.registerSource env.ids (sourceIdentity account) "codex_oauth"
      "shared_weekly" fence with
  | mk registered w =>
    simp only [hregister] at h
    obtain ⟨sourceRef, hregistered, htx⟩ := bind_eq_ok.mp h
    obtain ⟨u, hsame, h⟩ := bind_eq_ok.mp htx
    refine ⟨sourceRef, w, by rw [hregistered], ?_⟩
    cases hprevious : previousOperation w.ledger operationId sourceRef
        (creditFingerprint env (sourceIdentity account) creditId) creditId with
    | some previous =>
      rw [hprevious] at h
      cases h
      exact .inl ⟨rfl, rfl⟩
    | none =>
      rw [hprevious] at h
      obtain ⟨u, hresolved, h⟩ := bind_eq_ok.mp h
      obtain ⟨hdispatch, hstate⟩ := dispatchCredit_ok (previousOperation_eq_none hprevious).1 h
      exact .inr ⟨hdispatch, rfl, ensure_eq_ok.mp hresolved, hstate⟩

theorem finish_ok {projected : Bool} (h : finish env st operationId result now projected = .ok st') :
    st' = st ∨ ∃ o w, st.world.ledger.operations.get? operationId = some o ∧
      ResetCreditStatus.Unresolved o.status ∧
      confirmReset env st.world o result (nowMsI64 now) = .ok w ∧
      st' = { st with world := settleOperation env w operationId o result (nowMsI64 now) } := by
  unfold finish at h
  obtain ⟨o, ho, h⟩ := bind_eq_ok.mp h
  split at h
  · cases h
    exact .inl rfl
  · rename_i hopen
    obtain ⟨w, hw, h⟩ := bind_eq_ok.mp h
    obtain ⟨-, -, h⟩ := bind_eq_ok.mp h
    cases h
    refine .inr ⟨o, w, ?_, ?_, hw, rfl⟩
    · cases hget : st.world.ledger.operations.get? operationId with
      | none =>
        rw [hget] at ho
        cases ho
      | some o' =>
        rw [hget] at ho
        cases ho
        rfl
    · unfold ResetCreditStatus.Unresolved
      cases hstatus : o.status <;> simp [hstatus] at hopen ⊢

theorem confirmReset_ok {o : ResetCreditOperation} {nowMs : ℤ} (h : confirmReset env w o result nowMs = .ok w') :
    isConfirmed result = false ∧ w' = w ∨
    isConfirmed result = true ∧ ∃ b, w.applyReset env.ids o.sourceRef o.fence
      (redeemEventId o.requestId) nowMs nowMs .redeemConfirmation = (.ok b, w') := by
  unfold confirmReset at h
  split at h
  · rename_i hconfirmed
    split at h
    · cases h
    · rename_i b w'' happly
      cases h
      exact .inr ⟨hconfirmed, b, happly⟩
  · rename_i hconfirmed
    cases h
    exact .inl ⟨by simpa using hconfirmed, rfl⟩

theorem confirmReset_trace {o : ResetCreditOperation} {nowMs : ℤ} (h : confirmReset env w o result nowMs = .ok w') :
    Trace (Move env.ids) (fun _ _ => True) w w' := by
  obtain ⟨-, rfl⟩ | ⟨-, b, happly⟩ := confirmReset_ok h
  · exact .nil _
  · have htrace : Trace (Move env.ids) (fun _ _ => True) w (w.applyReset env.ids o.sourceRef o.fence
        (redeemEventId o.requestId) nowMs nowMs .redeemConfirmation).2 :=
      applyReset_trace (fun _ _ => trivial) (fun _ _ => trivial)
    rw [happly] at htrace
    exact htrace

theorem commitOp_cases {stack : ℕ} {op : Op} (h : commitOp ids stack w op = some w') :
    w' = w ∨ step ids stack w op = some w' := by
  have hkeep : ∀ {α : Type} (r : Outcome α), commitOp.keepOk w r = w ∨ commitOp.keepOk w r = r.2 := by
    intro α r
    obtain ⟨res, w₁⟩ := r
    cases res with
    | error e => exact .inl rfl
    | ok a => exact .inr rfl
  cases op with
  | registerSource identity providerType bucketId fence =>
    cases h
    exact (hkeep _).imp id (congrArg some ·.symm)
  | observe sourceRef fence o =>
    obtain ⟨r, hr, rfl⟩ := map_eq_some_iff.mp h
    refine (hkeep r).imp id fun heq => ?_
    rw [step, hr, heq]
    rfl
  | applyReset sourceRef fence eventId effectiveAtMs discoveredAtMs basis =>
    cases h
    exact (hkeep _).imp id (congrArg some ·.symm)
  | advanceDue nowMs =>
    cases h
    exact (hkeep _).imp id (congrArg some ·.symm)
  | advanceSourceDue sourceRef nowMs =>
    cases h
    exact (hkeep _).imp id (congrArg some ·.symm)

end

/-! ## The invariant -/

/-- The operation of the request is in the ledger. -/
def Entered (env : Environment) (l : QuotaCycleLedger) (d : Dispatch) : Prop :=
  ∃ i s k o, l.sources.get? i = some s ∧ s.sourceRef = d.sourceRef ∧ l.operations.get? k = some o ∧
    o.sourceRef = d.sourceRef ∧ o.creditFingerprint = env.digest (i ++ "\x00" ++ d.creditId)

/-- A ledger, current or stored: it knows about the restore when it has the stream of its fence. -/
structure Guarded (env : Environment) (drawn : ℕ) (fence : Option String) (l : QuotaCycleLedger) :
    Prop where
  referenced : Referenced env.ids drawn l
  stream : ∃ n < drawn, l.streamIncarnation = env.ids.id n
  recovering : ∀ stream ∈ fence, l.streamIncarnation = stream → l.redeemRecoveryRequired = true

/-- A later call for the same credit finds the operation. -/
structure Spent (env : Environment) (st : State) : Prop where
  current : Guarded env st.world.drawn st.restoreFence st.world.ledger
  stored : ∀ l ∈ st.backups, Guarded env st.world.drawn st.restoreFence l
  fence : ∀ stream ∈ st.restoreFence, ∃ n < st.world.drawn, stream = env.ids.id n
  entered : st.restoreFence = none → ∀ d ∈ st.dispatched, Entered env st.world.ledger d
  once : (st.dispatched.filter fun d => d.creditId ≠ "").Nodup

section
variable {env : Environment} {st st' : State}

theorem Guarded.mono {m n : ℕ} {fence : Option String} {l : QuotaCycleLedger}
    (h : Guarded env m fence l) (hmn : m ≤ n) : Guarded env n fence l := by
  obtain ⟨k, hk, hstream⟩ := h.stream
  exact ⟨h.referenced.mono hmn, ⟨k, lt_of_lt_of_le hk hmn, hstream⟩, h.recovering⟩

theorem Guarded.moves {P : World → Act → Prop} {w w' : World} {fence : Option String}
    (h : Guarded env w.drawn fence w.ledger) (htrace : Trace (Move env.ids) P w w') :
    Guarded env w'.drawn fence w'.ledger := by
  have hframed := framed_of_moves htrace
  obtain ⟨k, hk, hstream⟩ := h.stream
  refine ⟨referenced_of_moves htrace h.referenced,
    ⟨k, lt_of_lt_of_le hk hframed.drawn, hframed.stream.trans hstream⟩, fun stream hmem heq => ?_⟩
  rw [hframed.recovery]
  exact h.recovering stream hmem (hframed.stream ▸ heq)

theorem Entered.framed {w w' : World} {d : Dispatch} (h : Entered env w.ledger d)
    (hframed : Framed w w') : Entered env w'.ledger d := by
  obtain ⟨i, s, k, o, hs, href, ho, hrefs, hfingerprint⟩ := h
  obtain ⟨s', hs', href'⟩ := hframed.source hs
  exact ⟨i, s', k, o, hs', href'.trans href, hframed.operations ▸ ho, hrefs, hfingerprint⟩

theorem Entered.putOperation {l : QuotaCycleLedger} {d : Dispatch} (h : Entered env l d)
    {operationId : String} {o : ResetCreditOperation} (revision : ℕ)
    (ho : ∀ o₀, l.operations.get? operationId = some o₀ →
      o.sourceRef = o₀.sourceRef ∧ o.creditFingerprint = o₀.creditFingerprint) :
    Entered env { l with
      revision := revision, operations := l.operations.insert operationId o } d := by
  obtain ⟨i, s, k, o₁, hs, href, ho₁, hrefs, hfingerprint⟩ := h
  by_cases hk : operationId = k
  · subst hk
    obtain ⟨hsame, hsame'⟩ := ho o₁ ho₁
    exact ⟨i, s, operationId, o, hs, href, get?_insert_self _ _ _, hsame.trans hrefs, hsame'.trans hfingerprint⟩
  · refine ⟨i, s, k, o₁, hs, href, ?_, hrefs, hfingerprint⟩
    exact (get?_insert_of_ne _ _ hk).trans ho₁

namespace Spent

theorem initial (env : Environment) : Spent env (State.initial env) where
  current :=
    { referenced := ⟨fun hs => absurd hs (some_ne_none _).symm, fun hs => absurd hs (some_ne_none _).symm⟩
      stream := ⟨0, Nat.one_pos, rfl⟩
      recovering := fun _ hmem => absurd hmem (not_mem_none _) }
  stored := fun _ hmem => absurd hmem not_mem_nil
  fence := fun _ hmem => absurd hmem (not_mem_none _)
  entered := fun _ _ hmem => absurd hmem not_mem_nil
  once := nodup_nil

theorem moves {P : World → Act → Prop} {w : World} (h : Spent env st)
    (htrace : Trace (Move env.ids) P st.world w) : Spent env { st with world := w } := by
  have hframed := framed_of_moves htrace
  refine ⟨h.current.moves htrace, fun l hl => (h.stored l hl).mono hframed.drawn, fun stream hmem => ?_,
    fun hnone d hd => (h.entered hnone d hd).framed hframed, h.once⟩
  obtain ⟨n, hn, hstream⟩ := h.fence stream hmem
  exact ⟨n, lt_of_lt_of_le hn hframed.drawn, hstream⟩

variable {operationId account creditId : String} {now : ℕ}

theorem settle (h : Spent env st) {o : ResetCreditOperation}
    (ho : st.world.ledger.operations.get? operationId = some o) (result : Option ConsumeResetCreditResult)
    (nowMs : ℤ) : Spent env { st with world := settleOperation env st.world operationId o result nowMs } := by
  refine ⟨⟨h.current.referenced.of_sources rfl, h.current.stream, h.current.recovering⟩, h.stored, h.fence,
    fun hnone d hd => ?_, h.once⟩
  refine (h.entered hnone d hd).putOperation _ fun o₀ ho₀ => ?_
  rw [ho] at ho₀
  cases ho₀
  exact ⟨rfl, rfl⟩

theorem fresh_of_previous_none (h : Spent env st) (hnone : st.restoreFence = none) {s : QuotaCycleSource}
    (hs : st.world.ledger.sources.get? (sourceIdentity account) = some s)
    (hprevious : previousOperation st.world.ledger operationId s.sourceRef
      (creditFingerprint env (sourceIdentity account) creditId) creditId = none)
    (hcredit : trim creditId ≠ "") : (⟨s.sourceRef, trim creditId⟩ : Dispatch) ∉ st.dispatched := by
  intro hmem
  obtain ⟨i, t, k, o, ht, href, ho, hrefs, hfingerprint⟩ := h.entered hnone _ hmem
  have hi := h.current.referenced.inj ht hs href
  subst hi
  exact hcredit ((previousOperation_eq_none hprevious).2 k o ho hrefs hfingerprint)

theorem dispatch (h : Spent env st) (hnone : st.restoreFence = none) {fence : QuotaSourceFence}
    {s : QuotaCycleSource} (hs : st.world.ledger.sources.get? (sourceIdentity account) = some s)
    (hprevious : previousOperation st.world.ledger operationId s.sourceRef
      (creditFingerprint env (sourceIdentity account) creditId) creditId = none) :
    Spent env { st with
      world := st.world.setLedger { st.world.ledger with
        revision := saturatingSucc st.world.ledger.revision
        operations := st.world.ledger.operations.insert operationId (sentOperation env st.requests
          s.sourceRef fence operationId (creditFingerprint env (sourceIdentity account) creditId) now) }
      requests := st.requests + 1
      dispatched := st.dispatched ++ [⟨s.sourceRef, trim creditId⟩] } := by
  refine ⟨⟨h.current.referenced.of_sources rfl, h.current.stream, h.current.recovering⟩, h.stored, h.fence,
    fun _ d hd => ?_, ?_⟩
  · rcases mem_append.mp hd with hold | hnew
    · refine (h.entered hnone d hold).putOperation _ fun o₀ ho₀ => ?_
      rw [(previousOperation_eq_none hprevious).1] at ho₀
      cases ho₀
    · rw [mem_singleton] at hnew
      subst hnew
      exact ⟨sourceIdentity account, s, operationId, _, hs, rfl, get?_insert_self _ _ _, rfl, rfl⟩
  · rw [filter_append]
    by_cases hcredit : trim creditId = ""
    · rw [filter_cons_of_neg (by simp [hcredit]), filter_nil, append_nil]
      exact h.once
    · rw [filter_cons_of_pos (by simp [hcredit]), filter_nil]
      refine nodup_append.mpr ⟨h.once, nodup_singleton _, ?_⟩
      intro d hd d' hd' heq
      rw [mem_singleton] at hd'
      subst hd' heq
      exact h.fresh_of_previous_none hnone hs hprevious hcredit (mem_filter.mp hd).1

theorem prepare {fence : QuotaSourceFence} {p : PreparedResetCredit} (h : Spent env st)
    (hok : prepare env st account fence creditId operationId now = .ok (p, st')) : Spent env st' := by
  obtain ⟨-, hfence, hrecovery, sourceRef, w, hregister, hcases⟩ := prepare_ok hok
  have htrace := registered_trace hregister
  have hnone : st.restoreFence = none := by
    cases hset : st.restoreFence with
    | none => rfl
    | some stream =>
      have htrue := h.current.recovering stream hset (hfence stream hset).symm
      rw [hrecovery] at htrue
      cases htrue
  obtain ⟨-, rfl⟩ | ⟨-, hprevious, -, rfl⟩ := hcases
  · exact h.moves htrace
  · obtain ⟨s, hs, rfl⟩ := registerSource_ok hregister
    exact (h.moves htrace).dispatch hnone hs hprevious

theorem finish {result : Option ConsumeResetCreditResult} {projected : Bool} (h : Spent env st)
    (hok : finish env st operationId result now projected = .ok st') : Spent env st' := by
  obtain rfl | ⟨o, w, ho, -, hconfirm, rfl⟩ := finish_ok hok
  · exact h
  · have htrace := confirmReset_trace hconfirm
    exact (h.moves htrace).settle ((framed_of_moves htrace).operations ▸ ho) result _

theorem writeRestoreFence (h : Spent env st) :
    Spent env { st with
      restoreFence := some (env.ids.id st.world.drawn)
      world := { st.world with drawn := st.world.drawn + 1 } } := by
  have hguarded : ∀ l, Guarded env st.world.drawn st.restoreFence l →
      Guarded env (st.world.drawn + 1) (some (env.ids.id st.world.drawn)) l := by
    intro l hl
    obtain ⟨n, hn, hstream⟩ := hl.stream
    refine ⟨hl.referenced.mono (Nat.le_succ _), ⟨n, Nat.lt_succ_of_lt hn, hstream⟩, ?_⟩
    intro stream hmem heq
    cases hmem
    have hdrawn := env.ids.injective (hstream.symm.trans heq)
    omega
  refine ⟨hguarded _ h.current, fun l hl => hguarded l (h.stored l hl), fun stream hmem => ?_, fun hnone => ?_, h.once⟩
  · cases hmem
    exact ⟨st.world.drawn, Nat.lt_succ_self _, rfl⟩
  · cases hnone

theorem restored_referenced {n : ℕ} {l : QuotaCycleLedger} (h : Referenced env.ids n l)
    (stream : String) : Referenced env.ids n (applyRestoreQuotaFence stream l) := by
  unfold applyRestoreQuotaFence
  split
  · exact h
  · have hold : ∀ {i t}, (l.sources.mapValues fun s => { s with
        cycle := s.cycle.map fun c => { c with streamIncarnation := stream } }).get? i = some t →
        ∃ s, l.sources.get? i = some s ∧ s.sourceRef = t.sourceRef := by
      intro i t ht
      rw [get?_mapValues] at ht
      obtain ⟨s, hs, rfl⟩ := map_eq_some_iff.mp ht
      exact ⟨s, hs, rfl⟩
    refine ⟨fun ht => ?_, fun ht hu hrefs => ?_⟩
    · obtain ⟨s, hs, href⟩ := hold ht
      exact href ▸ h.drawn_ref hs
    · obtain ⟨s, hs, hst⟩ := hold ht
      obtain ⟨s', hs', hsu⟩ := hold hu
      exact h.inj hs hs' (hst.trans (hrefs.trans hsu.symm))

theorem restore (h : Spent env st) {stream : String} (hfence : st.restoreFence = some stream)
    {l : QuotaCycleLedger} (hl : Guarded env st.world.drawn st.restoreFence l) :
    Spent env { st with world := st.world.setLedger (applyRestoreQuotaFence stream l) } := by
  have hknown : (applyRestoreQuotaFence stream l).redeemRecoveryRequired = true ∧
      (applyRestoreQuotaFence stream l).streamIncarnation = stream := by
    unfold applyRestoreQuotaFence
    split
    · rename_i hsame
      exact ⟨hl.recovering stream hfence hsame, hsame⟩
    · exact ⟨rfl, rfl⟩
  obtain ⟨n, hn, hstream⟩ := h.fence stream hfence
  refine ⟨⟨restored_referenced hl.referenced stream, ⟨n, hn, hknown.2.trans hstream⟩,
    fun _ _ _ => hknown.1⟩, h.stored, h.fence, fun hnone => ?_, h.once⟩
  rw [hfence] at hnone
  cases hnone

end Spent

end

/-! ## Runs -/

def isRedeemId (eventId : String) : Bool := "redeem:".toList.isPrefixOf eventId.toList

/-- The arguments of a step: those of the ledger's calls have their types, and nobody else announces
the confirmation of a redeemed credit. -/
def CreditOp.Typed : CreditOp → Prop
  | .observe op => op.Typed ∧ op.Announces fun eventId => isRedeemId eventId = false
  | _ => True

def CreditCall (env : Environment) (op : CreditOp) (st st' : State) : Prop :=
  ∃ stack, creditStep env stack st op = some st'

/-- What a step can do. -/
inductive Transition (env : Environment) : CreditOp → State → State → Prop
  | stay (op : CreditOp) (st : State) : Transition env op st st
  | prepare {account creditId operationId : String} {fence : QuotaSourceFence} {now : ℕ} {st st' : State}
      {p : PreparedResetCredit}
      (hok : prepare env st account fence creditId operationId now = .ok (p, st')) :
      Transition env (.prepare account fence creditId operationId now) st st'
  | finish {operationId : String} {result : Option ConsumeResetCreditResult} {now : ℕ}
      {projected : Bool} {st st' : State}
      (hok : finish env st operationId result now projected = .ok st') :
      Transition env (.finish operationId result now projected) st st'
  | observe {op : Op} {st : State} {w : World} {stack : ℕ}
      (hstep : step env.ids stack st.world op = some w) :
      Transition env (.observe op) st { st with world := w }
  | backup (st : State) :
      Transition env .backup st { st with backups := st.backups ++ [st.world.ledger] }
  | writeRestoreFence (st : State) :
      Transition env .writeRestoreFence st { st with
        restoreFence := some (env.ids.id st.world.drawn)
        world := { st.world with drawn := st.world.drawn + 1 } }
  | restore {i : ℕ} {st : State} {stream : String} {l : QuotaCycleLedger}
      (hfence : st.restoreFence = some stream) (hl : l = st.world.ledger ∨ l ∈ st.backups) :
      Transition env (.reload i) st { st with world := st.world.setLedger (applyRestoreQuotaFence stream l) }

variable {env : Environment} {st : State}

/-- A call that returns is one of the transitions. -/
theorem CreditCall.transition {op : CreditOp} {st' : State} (hcall : CreditCall env op st st') :
    Transition env op st st' := by
  obtain ⟨stack, hstep⟩ := hcall
  cases op with
  | prepare account fence creditId operationId now =>
    rw [creditStep] at hstep
    cases hok : prepare env st account fence creditId operationId now with
    | error e =>
      rw [hok] at hstep
      cases hstep
      exact .stay _ _
    | ok r =>
      rw [hok] at hstep
      cases hstep
      exact .prepare hok
  | finish operationId result now projected =>
    rw [creditStep] at hstep
    cases hok : finish env st operationId result now projected with
    | error e =>
      rw [hok] at hstep
      cases hstep
      exact .stay _ _
    | ok st₁ =>
      rw [hok] at hstep
      cases hstep
      exact .finish hok
  | observe op =>
    obtain ⟨w, hw, rfl⟩ := map_eq_some_iff.mp hstep
    obtain rfl | hstep := commitOp_cases hw
    · exact .stay _ _
    · exact .observe hstep
  | backup =>
    cases hstep
    exact .backup st
  | writeRestoreFence =>
    cases hstep
    exact .writeRestoreFence st
  | reload i =>
    simp only [creditStep] at hstep
    split at hstep
    · rename_i stream l hfence hl
      cases hstep
      exact .restore hfence (.inr (mem_of_getElem? hl))
    · rename_i stream hfence hl
      cases hstep
      exact .restore hfence (.inl rfl)
    · cases hstep
      exact .stay _ _

theorem Spent.step {st' : State} {op : CreditOp} (h : Spent env st) (htyped : op.Typed)
    (hstep : Transition env op st st') : Spent env st' := by
  cases hstep with
  | stay => exact h
  | prepare hok => exact h.prepare hok
  | finish hok => exact h.finish hok
  | observe hstep => exact h.moves (step_trace htyped.1 hstep)
  | backup =>
    refine ⟨h.current, fun l hl => ?_, h.fence, h.entered, h.once⟩
    rcases mem_append.mp hl with hold | hnew
    · exact h.stored l hold
    · rw [mem_singleton] at hnew
      exact hnew ▸ h.current
  | writeRestoreFence => exact h.writeRestoreFence
  | restore hfence hl =>
    obtain rfl | hmem := hl
    · exact h.restore hfence h.current
    · exact h.restore hfence (h.stored _ hmem)

section
variable (hrun : Trace (CreditCall env) (fun _ op => op.Typed) (State.initial env) st)
include hrun

theorem spent_of_calls : Spent env st :=
  hrun.invariant (fun _ _ _ h htyped hcall => h.step htyped hcall.transition) (Spent.initial env)

/-- Whatever the clock says: no credit is let through twice, and a request is let through only while
no other request of its source is open. -/
theorem dispatched_at_most_once :
    (st.dispatched.filter fun d => d.creditId ≠ "").Nodup ∧
    ∀ account fence creditId operationId now p st',
      prepare env st account fence creditId operationId now = .ok (p, st') →
      (p.dispatch = false → st'.dispatched = st.dispatched) ∧
      (p.dispatch = true → ∃ s, st'.world.ledger.sources.get? (sourceIdentity account) = some s ∧
        st'.dispatched = st.dispatched ++ [⟨s.sourceRef, trim creditId⟩] ∧ ∀ o ∈ st.world.ledger.operations.values,
          o.sourceRef = s.sourceRef → ¬ResetCreditStatus.Unresolved o.status) := by
  refine ⟨(spent_of_calls hrun).once, fun account fence creditId operationId now p st' hok => ?_⟩
  obtain ⟨-, -, -, sourceRef, w, hregister, hcases⟩ := prepare_ok hok
  have hframed := framed_of_moves (registered_trace hregister)
  obtain ⟨hfalse, rfl⟩ | ⟨htrue, -, hresolved, rfl⟩ := hcases
  · refine ⟨fun _ => rfl, fun htrue => ?_⟩
    rw [hfalse] at htrue
    cases htrue
  · refine ⟨fun hfalse => ?_, fun _ => ?_⟩
    · rw [htrue] at hfalse
      cases hfalse
    · obtain ⟨s, hs, rfl⟩ := registerSource_ok hregister
      refine ⟨s, hs, rfl, fun o ho href hopen => ?_⟩
      rw [← hframed.operations] at ho
      exact hresolved o ho ⟨href, hopen⟩

end

end CcSwitchServer.ResetCredit
