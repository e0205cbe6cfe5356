import CcSwitchServer.ResetCredit.AtMostOnce

/-! # Receipts and the clock

A confirmed operation has an event of its own that is not history.
-/

namespace CcSwitchServer.QuotaCycle
open Foundations QuotaCycleLedger OrderedMap QuotaEventStatus

/-! ## Changes of operations -/

namespace QuotaCycleLedger.Loadable
variable {l : QuotaCycleLedger}

theorem putOperation (h : Loadable l) {k : String} {o : ResetCreditOperation} (revision : ℕ)
    (hfits : l.OperationFits k o)
    (hrequest : ∀ k' o', l.operations.get? k' = some o' → o'.requestId = o.requestId → k' = k)
    (hreceipt : o.status = .confirmed →
      ∃ e, l.events.get? (eventKey o.sourceRef (redeemEventId o.requestId)) = some e ∧ IsReceipt e) :
    Loadable { l with operations := l.operations.insert k o, revision := revision } := by
  have hcases : ∀ {k' o'}, (l.operations.insert k o).get? k' = some o' →
      k' = k ∧ o' = o ∨ l.operations.get? k' = some o' := by
    intro k' o' ho'
    by_cases hk : k = k'
    · subst hk
      rw [get?_insert_self] at ho'
      cases ho'
      exact .inl ⟨rfl, rfl⟩
    · rw [get?_insert_of_ne _ _ hk] at ho'
      exact .inr ho'
  refine { h with operation_fits := ?_, request_inj := ?_, receipt := ?_ }
  · intro k' o' ho'
    obtain ⟨rfl, rfl⟩ | ho' := hcases ho'
    · exact hfits
    · exact h.operation_fits ho'
  · intro k₁ k₂ o₁ o₂ ho₁ ho₂ heq
    obtain ⟨rfl, rfl⟩ | hold₁ := hcases ho₁
    · obtain ⟨rfl, rfl⟩ | hold₂ := hcases ho₂
      · rfl
      · exact (hrequest k₂ o₂ hold₂ heq.symm).symm
    · obtain ⟨rfl, rfl⟩ | hold₂ := hcases ho₂
      · exact hrequest k₁ o₁ hold₁ heq
      · exact h.request_inj hold₁ hold₂ heq
  · intro k' o' ho' hstatus
    obtain ⟨rfl, rfl⟩ | ho' := hcases ho'
    · exact hreceipt hstatus
    · exact h.receipt ho' hstatus

end QuotaCycleLedger.Loadable

/-! ## A reset that is new -/

theorem applyReset_receipt {ids : OpaqueIds} {w w' : World} {identity : String} {s : QuotaCycleSource}
    {fence : QuotaSourceFence} {eventId : String} {effectiveAtMs discoveredAtMs : ℤ}
    {basis : QuotaTimeBasis} {b : Bool} (hentry : w.ledger.sourceEntry s.sourceRef = some (identity, s))
    (hfresh : w.ledger.events.get? (eventKey s.sourceRef eventId) = none)
    (hlater : ∀ c ∈ s.cycle, c.startsAtMs ≤ effectiveAtMs)
    (h : w.applyReset ids s.sourceRef fence eventId effectiveAtMs discoveredAtMs basis = (.ok b, w')) :
    ∃ e, w'.ledger.events.get? (eventKey s.sourceRef eventId) = some e ∧ e.basis = basis ∧ e.status ≠ .historical := by
  have hput : ∀ (l : QuotaCycleLedger) (e : QuotaResetEvent),
      (l.putEvent (eventKey s.sourceRef eventId) e).events.get? (eventKey s.sourceRef eventId) =
        some e := fun l e => get?_insert_self _ _ _
  unfold World.applyReset at h
  split at h
  · cases h
  rw [hentry] at h
  dsimp only at h
  split at h
  · cases h
  cases hcycle : s.cycle with
  | none =>
    simp only [hcycle] at h
    cases h
    exact ⟨_, hput _ _, rfl, noConfusion⟩
  | some c =>
    simp only [hcycle, hfresh] at h
    unfold World.recordEvent at h
    split at h
    · split at h
      · cases h
      · cases h
        exact ⟨_, hput _ _, rfl, noConfusion⟩
    · split at h
      · rename_i hearlier
        exact absurd (hlater c hcycle) (not_le.mpr hearlier)
      · cases h
        exact ⟨_, hput _ _, rfl, noConfusion⟩

theorem sourceEntry_of_get? {l : QuotaCycleLedger} (h : Loadable l) {identity : String}
    {s : QuotaCycleSource} (hs : l.sources.get? identity = some s) :
    l.sourceEntry s.sourceRef = some (identity, s) := by
  have hsome : (l.sourceEntry s.sourceRef).isSome := by
    unfold sourceEntry
    rw [List.find?_isSome]
    exact ⟨(identity, s), mem_entries_iff.mpr hs, by simp⟩
  obtain ⟨⟨i, t⟩, hentry⟩ := Option.isSome_iff_exists.mp hsome
  obtain ⟨ht, href⟩ := sourceEntry_some hentry
  have hi := h.source_inj ht hs href
  subst hi
  rw [hs] at ht
  cases ht
  exact hentry

end CcSwitchServer.QuotaCycle

namespace CcSwitchServer.ResetCredit
open Foundations QuotaCycle QuotaCycleLedger

/-! ## The books of a ledger -/

def Receipted (l : QuotaCycleLedger) (eventId : String) : Prop :=
  ∀ r, eventId = redeemEventId r → ∃ k o, l.operations.get? k = some o ∧ o.status = .confirmed ∧ o.requestId = r

/-- While no confirmation is earlier than its intent, or than the current cycle, the ledger stays loadable. -/
structure Booked (env : Environment) (drawn requests : ℕ) (l : QuotaCycleLedger) : Prop where
  loadable : Loadable l
  kept : Kept env.ids drawn l
  receipts : EventIds (Receipted l) l
  requested : ∀ {k o}, l.operations.get? k = some o → ∃ n < requests, o.requestId = env.requestId n

variable {l : QuotaCycleLedger} {eventId : String}

theorem receipted_of_not_redeem (h : isRedeemId eventId = false) : Receipted l eventId := by
  intro r heq
  subst heq
  unfold isRedeemId redeemEventId at h
  rw [String.toList_append] at h
  simp at h

theorem madeUp_receipted (l : QuotaCycleLedger) : MadeUp (Receipted l) := by
  have hkind : ∀ (kind rest : String), (kind.toList.head?).any (· ≠ 'r') = true → Receipted l (kind ++ rest) := by
    intro kind rest hhead
    apply receipted_of_not_redeem
    unfold isRedeemId
    rw [String.toList_append]
    cases hchars : kind.toList with
    | nil =>
      rw [hchars] at hhead
      cases hhead
    | cons c cs =>
      rw [hchars] at hhead
      have hc : c ≠ 'r' := by simpa using hhead
      rw [show "redeem:".toList = 'r' :: ['e', 'd', 'e', 'e', 'm', ':'] from rfl]
      simp [List.isPrefixOf, hc.symm]
  exact fun n => ⟨hkind _ _ (by decide), hkind _ _ (by decide), hkind _ _ (by decide)⟩

theorem Receipted.congr {l' : QuotaCycleLedger} (hoperations : l'.operations = l.operations)
    (h : Receipted l eventId) : Receipted l' eventId := by
  intro r heq
  rw [hoperations]
  exact h r heq

theorem Receipted.putOperation (h : Receipted l eventId) {k : String} {o : ResetCreditOperation} (revision : ℕ)
    (hopen : ∀ o₀, l.operations.get? k = some o₀ → o₀.status ≠ .confirmed) :
    Receipted { l with operations := l.operations.insert k o, revision := revision } eventId := by
  intro r heq
  obtain ⟨k', o', ho', hstatus, hr⟩ := h r heq
  refine ⟨k', o', ?_, hstatus, hr⟩
  refine (OrderedMap.get?_insert_of_ne _ _ ?_).trans ho'
  rintro rfl
  exact hopen o' ho' hstatus

namespace Booked
variable {env : Environment} {m n requests : ℕ} {l : QuotaCycleLedger}

theorem mono {requests' : ℕ} (h : Booked env m requests l) (hmn : m ≤ n)
    (hrequests : requests ≤ requests') : Booked env n requests' l := by
  refine ⟨h.loadable, h.kept.mono hmn, h.receipts, fun ho => ?_⟩
  obtain ⟨k, hk, hr⟩ := h.requested ho
  exact ⟨k, lt_of_lt_of_le hk hrequests, hr⟩

variable {w w' : World} {k stream : String} {o : ResetCreditOperation} {s : QuotaCycleSource}

theorem of_sound {requests : ℕ} (h : Booked env w.drawn requests w.ledger) (hsound : Sound env.ids w')
    (hframed : Framed w w') (hevents : EventIds (Receipted w.ledger) w'.ledger) :
    Booked env w'.drawn requests w'.ledger := by
  refine ⟨hsound.loadable, hsound.kept, fun k e he => ?_, fun ho => ?_⟩
  · exact (hevents k e he).congr hframed.operations
  · exact h.requested (hframed.operations ▸ ho)

theorem putOperation {requests' revision : ℕ} (hloadable : Loadable l) (hkept : Kept env.ids n l)
    (hevents : EventIds (fun id => Receipted l id ∨ id = redeemEventId o.requestId ∧ o.status = .confirmed) l)
    (hrequested : ∀ {k' o'}, l.operations.get? k' = some o' → ∃ i < requests', o'.requestId = env.requestId i)
    (hfits : l.OperationFits k o)
    (hrequest : ∀ k' o', l.operations.get? k' = some o' → o'.requestId = o.requestId → k' = k)
    (hreceipt : o.status = .confirmed →
      ∃ e, l.events.get? (eventKey o.sourceRef (redeemEventId o.requestId)) = some e ∧ IsReceipt e)
    (hopen : ∀ o₀, l.operations.get? k = some o₀ → o₀.status ≠ .confirmed)
    (hdrawn : ∃ i < requests', o.requestId = env.requestId i) :
    Booked env n requests' { l with operations := l.operations.insert k o, revision := revision } := by
  refine ⟨hloadable.putOperation revision hfits hrequest hreceipt,
    ⟨hkept.drawn_ref, hkept.unopened, hkept.counted, hkept.window⟩, fun k' e he => ?_,
    fun {k' o'} ho' => ?_⟩
  · obtain hold | ⟨hnew, hstatus⟩ := hevents k' e he
    · exact hold.putOperation revision hopen
    · intro r heq
      refine ⟨k, o, OrderedMap.get?_insert_self _ _ _, hstatus, ?_⟩
      have hids := congrArg String.toList (hnew.symm.trans heq)
      unfold redeemEventId at hids
      rw [String.toList_append, String.toList_append] at hids
      exact String.toList_inj.mp (List.append_cancel_left hids)
  · by_cases hk : k = k'
    · subst hk
      rw [OrderedMap.get?_insert_self] at ho'
      cases ho'
      exact hdrawn
    · rw [OrderedMap.get?_insert_of_ne _ _ hk] at ho'
      exact hrequested ho'

theorem receipt_fresh (h : Booked env w.drawn requests w.ledger) (ho : w.ledger.operations.get? k = some o)
    (hopen : ResetCreditStatus.Unresolved o.status) {identity : String}
    (hs : w.ledger.sources.get? identity = some s) :
    w.ledger.events.get? (eventKey s.sourceRef (redeemEventId o.requestId)) = none := by
  cases he : w.ledger.events.get? (eventKey s.sourceRef (redeemEventId o.requestId)) with
  | none => rfl
  | some e =>
    have hid := (Sound.ref_eq_of_key ⟨h.loadable, h.kept⟩ hs he).2
    obtain ⟨k', o', ho', hstatus, hr⟩ := h.receipts _ e he o.requestId hid
    have hk := h.loadable.request_inj ho' ho hr
    subst hk
    rw [ho] at ho'
    cases ho'
    rw [hstatus] at hopen
    obtain hopen | hopen | hopen := hopen <;> cases hopen

theorem sound_of_moves {P : World → Act → Prop} (h : w.ledger.FitsMemory → Booked env w.drawn requests w.ledger)
    (htrace : Trace (Move env.ids) P w w') (hfits : w'.ledger.FitsMemory) : Sound env.ids w' := by
  have hsteady : Steady env.ids (fun _ => True) w' :=
    moves_steady (fun _ _ _ _ _ _ _ _ => trivial) htrace fun hfits => ⟨⟨(h hfits).loadable, (h hfits).kept⟩, trivial⟩
  exact (hsteady hfits).1

theorem finalStatus_fits {result : Option ConsumeResetCreditResult} :
    (finalStatus result = .confirmed ↔ isConfirmed result = true) ∧
    (finalStatus result = .confirmed ∨ finalStatus result = .rejected → result.isSome) := by
  unfold finalStatus isConfirmed
  cases result with
  | none => simp
  | some r =>
    refine ⟨?_, fun _ => rfl⟩
    split
    · rename_i hconfirmed
      exact ⟨fun _ => hconfirmed, fun _ => rfl⟩
    · rename_i hconfirmed
      split
      · exact ⟨ResetCreditStatus.noConfusion, fun h => absurd h hconfirmed⟩
      · exact ⟨ResetCreditStatus.noConfusion, fun h => absurd h hconfirmed⟩

/-- `finish` takes both times from the clock. -/
theorem settle {operationId : String} {result : Option ConsumeResetCreditResult} {nowMs : ℤ}
    (h : Booked env w.drawn requests w.ledger) (ho : w.ledger.operations.get? operationId = some o)
    (hopen : ResetCreditStatus.Unresolved o.status) (hconfirm : confirmReset env w o result nowMs = .ok w')
    (hsound : Sound env.ids w') (htimely : isConfirmed result = true → o.createdAtMs ≤ nowMs ∧
      ∀ s ∈ w.ledger.source o.sourceRef, ∀ c ∈ s.cycle, c.startsAtMs ≤ nowMs) :
    Booked env w'.drawn requests (settleOperation env w' operationId o result nowMs).ledger := by
  have hframed := framed_of_moves (confirmReset_trace hconfirm)
  have ho' : w'.ledger.operations.get? operationId = some o := hframed.operations ▸ ho
  have hfits := hsound.loadable.operation_fits ho'
  obtain ⟨i, s, hs, href⟩ := source_isSome_iff.mp (h.loadable.operation_fits ho).2.2.2.1
  have hunconfirmed : o.status ≠ .confirmed := by
    intro hstatus
    rw [hstatus] at hopen
    obtain hopen | hopen | hopen := hopen <;> cases hopen
  have hdrawn := h.requested ho
  refine putOperation hsound.loadable hsound.kept ?_
    (fun ho'' => h.requested (hframed.operations ▸ ho'')) ?_ ?_ ?_ ?_ hdrawn
  · obtain ⟨-, rfl⟩ | ⟨hconfirmed, b, happly⟩ := confirmReset_ok hconfirm
    · exact fun k e he => .inl (h.receipts k e he)
    · have hids := applyReset_eventIds env.ids (w := w)
        (P := fun id => Receipted w.ledger id ∨ id = redeemEventId o.requestId)
        (fun k e he => .inl (h.receipts k e he)) (.inr rfl) o.sourceRef o.fence nowMs nowMs
        .redeemConfirmation
      rw [happly] at hids
      intro k e he
      refine (hids k e he).imp (fun hold => hold.congr hframed.operations) fun hnew => ⟨hnew, ?_⟩
      exact finalStatus_fits.1.mpr hconfirmed
  · refine ⟨hfits.1, hfits.2.1, hfits.2.2.1, hfits.2.2.2.1, hfits.2.2.2.2.1, ?_, ?_, ?_⟩
    · intro t ht
      split at ht
      · rename_i hconfirmed
        cases ht
        exact (htimely hconfirmed).1
      · cases ht
    · refine finalStatus_fits.1.trans ?_
      split
      · rename_i hconfirmed
        simp [hconfirmed]
      · rename_i hconfirmed
        simp [hconfirmed]
    · intro hstatus
      have hsome := finalStatus_fits.2 hstatus
      simpa using hsome
  · intro k' o'' ho'' heq
    exact hsound.loadable.request_inj ho'' ho' heq
  · intro hstatus
    have hconfirmed := finalStatus_fits.1.mp hstatus
    obtain ⟨hfalse, -⟩ | ⟨-, b, happly⟩ := confirmReset_ok hconfirm
    · rw [hconfirmed] at hfalse
      cases hfalse
    · have hsource : w.ledger.source o.sourceRef = some s := href ▸ h.loadable.source_eq hs
      rw [← href] at happly
      obtain ⟨e, he, hbasis, hcurrent⟩ := applyReset_receipt (sourceEntry_of_get? h.loadable hs)
        (h.receipt_fresh ho hopen hs) ((htimely hconfirmed).2 s hsource) happly
      exact ⟨e, href ▸ he, hbasis, hcurrent⟩
  · intro o₀ ho₀
    rw [ho'] at ho₀
    cases ho₀
    exact hunconfirmed

theorem send {operationId fingerprint : String} {fence : QuotaSourceFence} {now : ℕ} {revision : ℕ}
    (h : Booked env w.drawn requests w.ledger) (hvalid : validOperationId operationId = true)
    (hnew : w.ledger.operations.get? operationId = none) {identity : String}
    (hs : w.ledger.sources.get? identity = some s) :
    Booked env w.drawn (requests + 1) { w.ledger with
      revision := revision
      operations := w.ledger.operations.insert operationId
        (sentOperation env requests s.sourceRef fence operationId fingerprint now) } := by
  refine putOperation h.loadable h.kept (fun k e he => .inl (h.receipts k e he))
    (h.mono (le_refl _) (Nat.le_succ _)).requested ?_ ?_ ?_ ?_ ⟨requests, Nat.lt_succ_self _, rfl⟩
  · have hnonempty : operationId ≠ "" := by
      rintro rfl
      cases hvalid
    refine ⟨hnonempty, rfl, env.requestId_nonempty _, source_isSome_iff.mpr ⟨identity, s, hs, rfl⟩, ?_, ?_, ?_, ?_⟩
    · show 0 ≤ nowMsI64 now
      unfold nowMsI64 i64Max
      omega
    · intro t ht
      cases ht
    · exact ⟨ResetCreditStatus.noConfusion, fun hsome => by cases hsome⟩
    · rintro (hstatus | hstatus) <;> cases hstatus
  · intro k' o' ho' heq
    obtain ⟨j, hj, hr⟩ := h.requested ho'
    have hjn := env.requestId_injective (hr.symm.trans heq)
    omega
  · exact fun hstatus => ResetCreditStatus.noConfusion hstatus
  · intro o₀ ho₀
    rw [hnew] at ho₀
    cases ho₀

/-! ### A restored ledger -/

def onStream (stream : String) (s : QuotaCycleSource) : QuotaCycleSource :=
  { s with cycle := s.cycle.map fun c => { c with streamIncarnation := stream } }

def suspended (o : ResetCreditOperation) : ResetCreditOperation :=
  if o.status = .intentDurable ∨ o.status = .dispatched then { o with status := .unknown } else o

theorem restored_source {i : String} {t : QuotaCycleSource}
    (ht : (l.sources.mapValues (onStream stream)).get? i = some t) :
    ∃ s, l.sources.get? i = some s ∧ t = onStream stream s := by
  rw [OrderedMap.get?_mapValues] at ht
  obtain ⟨s, hs, rfl⟩ := Option.map_eq_some_iff.mp ht
  exact ⟨s, hs, rfl⟩

theorem onStream_cycle {c : AccountQuotaCycle} (hc : (onStream stream s).cycle = some c) :
    ∃ c₀, s.cycle = some c₀ ∧ c = { c₀ with streamIncarnation := stream } := by
  obtain ⟨c₀, hc₀, rfl⟩ := Option.map_eq_some_iff.mp hc
  exact ⟨c₀, hc₀, rfl⟩

theorem restored_operation {o' : ResetCreditOperation} (ho' : (l.operations.mapValues suspended).get? k = some o') :
    ∃ o, l.operations.get? k = some o ∧ o' = { o with status := o'.status } ∧
      (o'.status = .confirmed ↔ o.status = .confirmed) ∧
      (o'.status = .rejected ↔ o.status = .rejected) := by
  rw [OrderedMap.get?_mapValues] at ho'
  obtain ⟨o, ho, rfl⟩ := Option.map_eq_some_iff.mp ho'
  refine ⟨o, ho, ?_⟩
  unfold suspended
  split
  · rename_i hopen
    refine ⟨rfl, ?_, ?_⟩
    · obtain hopen | hopen := hopen <;> simp [hopen]
    · obtain hopen | hopen := hopen <;> simp [hopen]
  · exact ⟨rfl, Iff.rfl, Iff.rfl⟩

theorem restored_loadable (h : Loadable l) (hstream : stream ≠ "") (revision : ℕ) :
    Loadable { l with
      streamIncarnation := stream
      redeemRecoveryRequired := true
      operations := l.operations.mapValues suspended
      sources := l.sources.mapValues (onStream stream)
      revision := revision } := by
  refine { h with
    stream := hstream, source_fits := ?_, source_inj := ?_, cycle_fits := ?_, cycle_event := ?_,
    event_fits := ?_, operation_fits := ?_, request_inj := ?_, receipt := ?_ }
  · intro i t ht
    obtain ⟨s, hs, rfl⟩ := restored_source ht
    have hfits := h.source_fits hs
    exact hfits
  · intro i j t u ht hu href
    obtain ⟨s, hs, rfl⟩ := restored_source ht
    obtain ⟨s', hs', rfl⟩ := restored_source hu
    exact h.source_inj hs hs' href
  · intro i t c ht hc
    obtain ⟨s, hs, rfl⟩ := restored_source ht
    obtain ⟨c₀, hc₀, rfl⟩ := onStream_cycle hc
    exact ⟨rfl, (h.cycle_fits hs hc₀).2⟩
  · intro i t c ht hc
    obtain ⟨s, hs, rfl⟩ := restored_source ht
    obtain ⟨c₀, hc₀, rfl⟩ := onStream_cycle hc
    have hevent := h.cycle_event hs hc₀
    exact hevent
  · intro k e he
    obtain ⟨i, s, hs, href, hfits⟩ := h.event_fits he
    refine ⟨i, onStream stream s, ?_, href, hfits⟩
    show (l.sources.mapValues (onStream stream)).get? i = _
    rw [OrderedMap.get?_mapValues, hs]
    rfl
  · intro k o' ho'
    obtain ⟨o, ho, heq, hconfirmed, hrejected⟩ := restored_operation ho'
    have hfits := h.operation_fits ho
    rw [heq]
    refine ⟨hfits.1, hfits.2.1, hfits.2.2.1, ?_, hfits.2.2.2.2.1, hfits.2.2.2.2.2.1,
      hconfirmed.trans hfits.2.2.2.2.2.2.1, fun hstatus => ?_⟩
    · obtain ⟨i, s, hs, href⟩ := source_isSome_iff.mp hfits.2.2.2.1
      refine source_isSome_iff.mpr ⟨i, onStream stream s, ?_, href⟩
      show (l.sources.mapValues (onStream stream)).get? i = _
      rw [OrderedMap.get?_mapValues, hs]
      rfl
    · exact hfits.2.2.2.2.2.2.2 (hstatus.imp hconfirmed.mp hrejected.mp)
  · intro k k' o' o'' ho' ho'' hreq
    obtain ⟨o₁, ho₁, heq₁, -⟩ := restored_operation ho'
    obtain ⟨o₂, ho₂, heq₂, -⟩ := restored_operation ho''
    rw [heq₁, heq₂] at hreq
    exact h.request_inj ho₁ ho₂ hreq
  · intro k o' ho' hstatus
    obtain ⟨o, ho, heq, hconfirmed, -⟩ := restored_operation ho'
    have hreceipt := h.receipt ho (hconfirmed.mp hstatus)
    rw [heq]
    exact hreceipt

theorem restored_kept (h : Kept env.ids n l) (stream : String) (revision : ℕ) :
    Kept env.ids n { l with
      streamIncarnation := stream
      redeemRecoveryRequired := true
      operations := l.operations.mapValues suspended
      sources := l.sources.mapValues (onStream stream)
      revision := revision } where
  drawn_ref := by
    intro i t ht
    obtain ⟨s, hs, rfl⟩ := restored_source ht
    have hdrawn := h.drawn_ref hs
    exact hdrawn
  unopened := by
    intro i t k e ht hnone he
    obtain ⟨s, hs, rfl⟩ := restored_source ht
    have hunopened : s.cycle = none := Option.map_eq_none_iff.mp hnone
    have hother := h.unopened hs hunopened he
    exact hother
  counted := by
    intro i t c ht hc
    obtain ⟨s, hs, rfl⟩ := restored_source ht
    obtain ⟨c₀, hc₀, rfl⟩ := onStream_cycle hc
    have hcount := h.counted hs hc₀
    exact hcount
  window := by
    intro i t ht
    obtain ⟨s, hs, rfl⟩ := restored_source ht
    exact ⟨(h.window hs).observed, (h.window hs).boundary⟩

theorem restore (h : Booked env n requests l) {stream : String} (hstream : stream ≠ "") :
    Booked env n requests (applyRestoreQuotaFence stream l) := by
  unfold applyRestoreQuotaFence
  split
  · exact h
  refine ⟨restored_loadable h.loadable hstream _, restored_kept h.kept stream _, ?_, ?_⟩
  · intro k e he r hr
    obtain ⟨k', o, ho, hstatus, hreq⟩ := h.receipts k e he r hr
    refine ⟨k', o, ?_, hstatus, hreq⟩
    show (l.operations.mapValues suspended).get? k' = _
    rw [OrderedMap.get?_mapValues, ho]
    simp [suspended, hstatus]
  · intro k o' ho'
    obtain ⟨o, ho, heq, -⟩ := restored_operation ho'
    have hrequest := h.requested ho
    rw [heq]
    exact hrequest

end Booked

/-! ## Runs -/

/-- The books of the current ledger and of every stored one, as far as they fit in memory. -/
structure Accounted (env : Environment) (st : State) : Prop where
  current : st.world.ledger.FitsMemory → Booked env st.world.drawn st.requests st.world.ledger
  stored : ∀ l ∈ st.backups, l.FitsMemory → Booked env st.world.drawn st.requests l
  fence : ∀ stream ∈ st.restoreFence, stream ≠ ""

/-- A confirmation is not before the intent that it answers, nor before the current cycle. -/
def CreditOp.Timely (st : State) : CreditOp → Prop
  | .finish operationId result now _ =>
    isConfirmed result = true → ∀ o ∈ st.world.ledger.operations.get? operationId,
      ResetCreditStatus.Unresolved o.status → o.createdAtMs ≤ nowMsI64 now ∧
        ∀ s ∈ st.world.ledger.source o.sourceRef, ∀ c ∈ s.cycle, c.startsAtMs ≤ nowMsI64 now
  | _ => True

namespace Accounted
variable {env : Environment} {st st' : State}

theorem initial (env : Environment) : Accounted env (State.initial env) where
  current := by
    intro _
    have hsound := Sound.default env.ids
    exact ⟨hsound.loadable, hsound.kept, fun _ _ he => absurd he (Option.some_ne_none _).symm,
      fun ho => absurd ho (Option.some_ne_none _).symm⟩
  stored := fun _ hmem => absurd hmem List.not_mem_nil
  fence := fun _ hmem => absurd hmem (Option.not_mem_none _)

section
variable (h : Accounted env st)
include h

theorem moves {P : World → Act → Prop} {w : World} (htrace : Trace (Move env.ids) P st.world w)
    (hevents : st.world.ledger.FitsMemory → EventIds (Receipted st.world.ledger) w.ledger) :
    Accounted env { st with world := w } := by
  have hframed := framed_of_moves htrace
  refine ⟨fun hfits => ?_, fun l hl hfits => (h.stored l hl hfits).mono hframed.drawn (le_refl _), h.fence⟩
  have hold := fits_of_moves htrace hfits
  exact (h.current hold).of_sound (Booked.sound_of_moves h.current htrace hfits) hframed (hevents hold)

theorem prepare {account creditId operationId : String} {fence : QuotaSourceFence} {now : ℕ}
    {p : PreparedResetCredit}
    (hok : ResetCredit.prepare env st account fence creditId operationId now = .ok (p, st')) :
    Accounted env st' := by
  obtain ⟨hvalid, -, -, sourceRef, w, hregister, hcases⟩ := prepare_ok hok
  have hregistered : Accounted env { st with world := w } := by
    have hmoves := registered_trace hregister
    have hevents := registerSource_events env.ids st.world (sourceIdentity account) "codex_oauth" "shared_weekly" fence
    rw [hregister] at hevents
    refine h.moves hmoves fun hfits k e he => ?_
    rw [hevents] at he
    exact (h.current hfits).receipts k e he
  obtain ⟨-, rfl⟩ | ⟨-, hprevious, -, rfl⟩ := hcases
  · exact hregistered
  · obtain ⟨s, hs, rfl⟩ := registerSource_ok hregister
    refine ⟨fun hfits => ?_, fun l hl hfits => ?_, h.fence⟩
    · exact (hregistered.current hfits).send hvalid (previousOperation_eq_none hprevious).1 hs
    · exact (hregistered.stored l hl hfits).mono (le_refl _) (Nat.le_succ _)

theorem finish {operationId : String} {result : Option ConsumeResetCreditResult} {now : ℕ}
    {projected : Bool} (htimely : (CreditOp.finish operationId result now projected).Timely st)
    (hok : ResetCredit.finish env st operationId result now projected = .ok st') :
    Accounted env st' := by
  obtain rfl | ⟨o, w, ho, hopen, hconfirm, rfl⟩ := finish_ok hok
  · exact h
  · have htrace := confirmReset_trace hconfirm
    have hframed := framed_of_moves htrace
    refine ⟨fun hfits => ?_, fun l hl hfits => (h.stored l hl hfits).mono hframed.drawn (le_refl _), h.fence⟩
    have hsound := Booked.sound_of_moves h.current htrace hfits
    exact (h.current (fits_of_moves htrace hfits)).settle ho hopen hconfirm hsound
      fun hconfirmed => htimely hconfirmed o ho hopen

theorem observe {op : Op} {w : World} {stack : ℕ} (htyped : (CreditOp.observe op).Typed)
    (hstep : QuotaCycle.step env.ids stack st.world op = some w) :
    Accounted env { st with world := w } := by
  refine h.moves (step_trace htyped.1 hstep) fun hfits => ?_
  refine step_eventIds (madeUp_receipted _) ?_ (h.current hfits).receipts hstep
  cases op with
  | applyReset sourceRef fence eventId effectiveAtMs discoveredAtMs basis =>
    exact receipted_of_not_redeem htyped.2
  | _ => trivial

theorem step {op : CreditOp} (htyped : op.Typed) (htimely : op.Timely st)
    (hstep : Transition env op st st') : Accounted env st' := by
  cases hstep with
  | stay => exact h
  | prepare hok => exact h.prepare hok
  | finish hok => exact h.finish htimely hok
  | observe hstep => exact h.observe htyped hstep
  | backup =>
    refine ⟨h.current, fun l hl => ?_, h.fence⟩
    rcases List.mem_append.mp hl with hold | hnew
    · exact h.stored l hold
    · rw [List.mem_singleton] at hnew
      exact hnew ▸ h.current
  | writeRestoreFence =>
    refine ⟨fun hfits => (h.current hfits).mono (Nat.le_succ _) (le_refl _),
      fun l hl hfits => (h.stored l hl hfits).mono (Nat.le_succ _) (le_refl _), fun stream hmem => ?_⟩
    cases hmem
    exact env.ids.nonempty _
  | @restore i st stream l hfence hl =>
    have hevents : (applyRestoreQuotaFence stream l).events = l.events := by
      unfold applyRestoreQuotaFence
      split
      · rfl
      · rfl
    refine ⟨fun hfits => ?_, h.stored, h.fence⟩
    have hfits' : l.FitsMemory := by
      unfold FitsMemory at hfits ⊢
      rw [← hevents]
      exact hfits
    obtain rfl | hmem := hl
    · exact (h.current hfits').restore (h.fence stream hfence)
    · exact (h.stored l hmem hfits').restore (h.fence stream hfence)

end

end Accounted

/-- While confirmations are timely: no credit is let through twice, none while another request of its
source is open, and every ledger that the steps leave passes the check at its next load. -/
theorem credits_spent_once_and_loadable (env : Environment) (st : State)
    (hrun : Trace (CreditCall env) (fun st op => op.Typed ∧ op.Timely st) (State.initial env) st)
    (hfits : st.world.ledger.FitsMemory) :
    (st.dispatched.filter fun d => d.creditId ≠ "").Nodup ∧
    (∀ account fence creditId operationId now p st',
      prepare env st account fence creditId operationId now = .ok (p, st') →
      (p.dispatch = false → st'.dispatched = st.dispatched) ∧
      (p.dispatch = true → ∃ s, st'.world.ledger.sources.get? (sourceIdentity account) = some s ∧
        st'.dispatched = st.dispatched ++ [⟨s.sourceRef, Text.trim creditId⟩] ∧
        ∀ o ∈ st.world.ledger.operations.values, o.sourceRef = s.sourceRef → ¬ResetCreditStatus.Unresolved o.status)) ∧
    st.world.ledger.validate = .ok () := by
  have honce := dispatched_at_most_once (hrun.mono fun _ _ h => h.1)
  have haccounted : Accounted env st :=
    hrun.invariant (fun _ _ _ h hop hcall => h.step hop.1 hop.2 hcall.transition) (Accounted.initial env)
  exact ⟨honce.1, honce.2, validate_of_loadable (haccounted.current hfits).loadable⟩

/-! ### Runs with a clock that goes forward and one that steps back -/

instance (st : State) : (op : CreditOp) → Decidable (op.Typed ∧ op.Timely st)
  | .prepare .. => isTrue ⟨trivial, trivial⟩
  | .finish _ _ _ _ | .observe (.registerSource _ _ _ _) | .observe (.observe _ _ _) | .observe (.advanceDue _)
  | .observe (.applyReset _ _ _ _ _ _) | .observe (.advanceSourceDue _ _) => by
    dsimp only [CreditOp.Typed, CreditOp.Timely, Op.Announces]
    infer_instance
  | .backup => isTrue ⟨trivial, trivial⟩
  | .writeRestoreFence => isTrue ⟨trivial, trivial⟩
  | .reload _ => isTrue ⟨trivial, trivial⟩

def unaryEnvironment : Environment where
  ids := unaryIds
  requestId n := String.ofList (List.replicate (n + 1) 'q')
  requestId_injective := by
    intro m n h
    have hlength := congrArg (fun s => s.toList.length) h
    simpa using hlength
  requestId_nonempty := by
    intro n h
    have hlength := congrArg (fun s => s.toList.length) h
    simp at hlength
  digest := id
  encode := fun _ => "receipt"
  decode := fun _ => none

def confirmation : ConsumeResetCreditResult :=
  { code := some "reset", creditId := "credit", redeemRequestId := "q", windowsReset := some 1,
    availableCount := some 0, remainingCredits := [], sharedWeeklyConfirmed := true }

def creditRun : List CreditOp :=
  [.prepare "account" {} "credit" "first" 1000, .backup, .finish "first" (some confirmation) 2000 true,
    .prepare "account" {} " credit " "second" 3000, .prepare "account" {} "other" "third" 3000,
    .writeRestoreFence, .reload 0, .prepare "account" {} "other" "fourth" 4000]

theorem credits_spent_once_and_loadable_restored :
    ∃ st, guarded (creditStep unaryEnvironment 4) (fun st op => op.Typed ∧ op.Timely st)
        (State.initial unaryEnvironment) creditRun = some st ∧
      st.dispatched = [⟨"xx", "credit"⟩, ⟨"xx", "other"⟩] ∧ st.world.ledger.validate = .ok () := by
  have hreturns : (guarded (creditStep unaryEnvironment 4) (fun st op => op.Typed ∧ op.Timely st)
      (State.initial unaryEnvironment) creditRun).any (fun st => decide
        (st.dispatched = [⟨"xx", "credit"⟩, ⟨"xx", "other"⟩] ∧ st.world.ledger.FitsMemory)) = true := by
    decide
  obtain ⟨st, hst, hreached⟩ := (Option.any_eq_true _ _).mp hreturns
  rw [decide_eq_true_eq] at hreached
  refine ⟨st, hst, hreached.1, ?_⟩
  exact (credits_spent_once_and_loadable unaryEnvironment st
    ((trace_of_guarded hst).map fun _ _ _ h => ⟨4, h⟩) hreached.2).2.2

def earlyConfirmation : List CreditOp :=
  [.prepare "account" {} "credit" "first" 2000, .finish "first" (some confirmation) 1000 true]

def earlyReceipt : List CreditOp :=
  [.prepare "account" {} "credit" "first" 1000,
    .observe (.observe "xx" {} ⟨"shared_weekly", some 5000, 100000, none, 6000, .upstreamWindow⟩),
    .finish "first" (some confirmation) 2000 true]

theorem backward_clock_breaks_ledger :
    ((guarded (creditStep unaryEnvironment 4) (fun _ _ => True) (State.initial unaryEnvironment)
      earlyConfirmation).map fun st => st.world.ledger.validate) = some (.error .quotaResetOperationInvalid) ∧
    ((guarded (creditStep unaryEnvironment 4) (fun _ _ => True) (State.initial unaryEnvironment)
      earlyReceipt).map fun st => st.world.ledger.validate) = some (.error .quotaResetReceiptEventInvalid) := by
  decide

end CcSwitchServer.ResetCredit
