import CcSwitchServer.Foundations.Runs
import CcSwitchServer.RouterControl.Outbox

/-! # Runs of the outbox

Workers call the store in any order, with any clocks, and may stop at any point.
-/

namespace CcSwitchServer.RouterControl
open Foundations Table Option List OutboxMessage

/-! ## What a call does -/

theorem validateOpaqueId_ok {label value checked : String} {maxLen : ℕ}
    (h : validateOpaqueId label value maxLen = .ok checked) : checked = value := by
  unfold validateOpaqueId at h
  split at h
  · cases h
  · exact (Except.ok.inj h).symm

theorem validateRouterId_ok {value checked : String} (h : validateRouterId value = .ok checked) : checked = value := by
  unfold validateRouterId at h
  obtain ⟨trimmed, htrimmed, hcharacters⟩ := bind_eq_ok.mp h
  split at hcharacters
  · rw [← Except.ok.inj hcharacters]
    exact validateOpaqueId_ok htrimmed
  · cases hcharacters

/-- What enqueueing a new message does. -/
structure Enqueues (outbox outbox' : Outbox) (row : OutboxMessage) : Prop where
  inserted : ∀ id, outbox'.find? id = if row.messageId = id then some row else outbox.find? id
  status : row.status = .pending
  attemptCount : row.attemptCount = 0
  dedupe : ∀ key, row.dedupeKey = some key → findDedupe outbox row.routerId key = none

variable {nowMs : ℤ} {outbox outbox' : Outbox} {messageId workerId : String} {row : OutboxMessage}
  {readable : Json → Bool}

theorem enqueueOutbox_spec {profileExists : Bool} {randomId : String} {message : NewOutboxMessage}
    {result : EnqueueResult} (h : enqueueOutbox profileExists randomId message nowMs outbox = .ok (outbox', result)) :
    (result.inserted = false ∧ outbox' = outbox) ∨ (result.inserted = true ∧ ∃ row, row.messageId = result.messageId ∧
        outbox.find? row.messageId = none ∧ Enqueues outbox outbox' row) := by
  unfold enqueueOutbox at h
  obtain ⟨routerId, _, h⟩ := bind_eq_ok.mp h
  obtain ⟨operation, _, h⟩ := bind_eq_ok.mp h
  obtain ⟨dedupeKey, _, h⟩ := bind_eq_ok.mp h
  split at h
  · split at h
    · rename_i havailable hnow
      obtain ⟨_, _, h⟩ := bind_eq_ok.mp h
      cases hknown : dedupeKey.bind (findDedupe outbox routerId) with
      | some row =>
        rw [hknown] at h
        obtain ⟨rfl, rfl⟩ := Prod.mk.inj (Except.ok.inj h)
        exact .inl ⟨rfl, rfl⟩
      | none =>
        rw [hknown] at h
        simp only at h
        split at h
        · cases h
        · rename_i inserted hinsert
          obtain ⟨rfl, rfl⟩ := Prod.mk.inj (Except.ok.inj h)
          obtain ⟨hfree, rfl⟩ := tryInsert_eq_some.mp hinsert
          refine .inr ⟨rfl, _, rfl, hfree, fun id => ?_, rfl, rfl, fun key hkey => ?_⟩
          · rw [find?_insert]
          · have hsome : dedupeKey = some key := hkey
            rw [hsome, bind_some] at hknown
            exact hknown
    · cases h
  · cases h

/-! ## Claiming -/

variable {routerId : String}

theorem mem_dueIds {limit : ℕ} (h : messageId ∈ dueIds routerId nowMs limit outbox) :
    ∃ row, outbox.find? messageId = some row ∧ row.isDue routerId nowMs = true := by
  obtain ⟨row, hrow, rfl⟩ := mem_map.mp h
  have hsorted := (perm_insertionSort _ _).mem_iff.mp (mem_of_mem_take hrow)
  obtain ⟨hmem, hdue⟩ := mem_filter.mp hsorted
  exact ⟨row, find?_of_mem hmem, hdue⟩

theorem nodup_dueIds (routerId : String) (nowMs : ℤ) (limit : ℕ) (outbox : Outbox) :
    (dueIds routerId nowMs limit outbox).Nodup := by
  have hfiltered : ((outbox.rows.filter (·.isDue routerId nowMs)).map messageId).Nodup :=
    (List.Sublist.map _ filter_sublist).nodup outbox.nodup
  have hsorted : (((outbox.rows.filter (·.isDue routerId nowMs)).insertionSort fun a b => claimBefore a b).map
      messageId).Nodup :=
    ((perm_insertionSort _ _).map _).nodup_iff.mpr hfiltered
  exact (List.Sublist.map _ (take_sublist _ _)).nodup hsorted

/-- The row of a claimed message. -/
structure Claims (workerId : String) (leaseUntilMs : ℤ) (row row' : OutboxMessage) : Prop where
  messageId : row'.messageId = row.messageId
  routerId : row'.routerId = row.routerId
  dedupeKey : row'.dedupeKey = row.dedupeKey
  status : row'.status = .inFlight workerId leaseUntilMs
  attemptCount : row'.attemptCount = row.attemptCount + 1

theorem claimed_claims {leaseUntilMs : ℤ} (h : row.createdAtMs ≤ nowMs) :
    Claims workerId leaseUntilMs row (row.claimed workerId leaseUntilMs nowMs) := by
  unfold claimed
  rw [dif_pos h]
  exact ⟨rfl, rfl, rfl, rfl, rfl⟩

/-- The rows of the claimed messages are exchanged, all others stay. -/
structure ClaimsAll (workerId : String) (leaseUntilMs : ℤ) (messageIds : List String) (outbox outbox' : Outbox) :
    Prop where
  claimed : ∀ id ∈ messageIds, ∀ row, outbox.find? id = some row →
    ∃ row', outbox'.find? id = some row' ∧ Claims workerId leaseUntilMs row row'
  kept : ∀ id, id ∉ messageIds → outbox'.find? id = outbox.find? id

theorem claimRows_spec {leaseUntilMs : ℤ} {messageIds : List String} (hnodup : messageIds.Nodup)
    (h : messageIds.foldlM (claimRow workerId leaseUntilMs nowMs) outbox = .ok outbox') :
    ClaimsAll workerId leaseUntilMs messageIds outbox outbox' := by
  induction messageIds generalizing outbox with
  | nil =>
    obtain rfl := Except.ok.inj h
    exact ⟨(fun _ hid => nomatch hid), fun _ _ => rfl⟩
  | cons messageId messageIds ih =>
    obtain ⟨hnotin, hrest⟩ := nodup_cons.mp hnodup
    rw [foldlM_cons] at h
    obtain ⟨between, hfirst, hlater⟩ := bind_eq_ok.mp h
    have hclaims := ih hrest hlater
    unfold claimRow at hfirst
    have hothers : ∀ id, id ≠ messageId → between.find? id = outbox.find? id := by
      intro id hne
      split at hfirst
      · obtain rfl := Except.ok.inj hfirst
        rfl
      · split at hfirst
        · obtain rfl := Except.ok.inj hfirst
          exact find?_modify_of_ne hne _ _
        · cases hfirst
    refine ⟨fun id hid row hrow => ?_, fun id hid => ?_⟩
    · by_cases heq : id = messageId
      · subst heq
        rw [hrow] at hfirst
        simp only at hfirst
        split at hfirst
        · rename_i hcheck
          obtain rfl := Except.ok.inj hfirst
          refine ⟨row.claimed workerId leaseUntilMs nowMs, ?_, claimed_claims hcheck.1⟩
          rw [hclaims.kept id hnotin]
          exact find?_modify_self hrow _ _
        · cases hfirst
      · exact hclaims.claimed id ((mem_cons.mp hid).resolve_left heq) row ((hothers id heq).trans hrow)
    · rw [mem_cons, not_or] at hid
      rw [hclaims.kept id hid.2, hothers id hid.1]

theorem loadOutboxMessage_ok (h : loadOutboxMessage readable outbox messageId = .ok row) :
    row.messageId = messageId := by
  unfold loadOutboxMessage at h
  split at h
  · cases h
  · rename_i found hfound
    split at h
    · obtain rfl := Except.ok.inj h
      exact find?_key hfound
    · cases h

theorem loadMessages_ids {messageIds : List String} {messages : List OutboxMessage}
    (h : messageIds.mapM (loadOutboxMessage readable outbox) = .ok messages) :
    messages.map OutboxMessage.messageId = messageIds := by
  induction messageIds generalizing messages with
  | nil =>
    obtain rfl := Except.ok.inj h
    rfl
  | cons messageId messageIds ih =>
    rw [mapM_cons] at h
    obtain ⟨row, hrow, h⟩ := bind_eq_ok.mp h
    obtain ⟨rows, hrows, h⟩ := bind_eq_ok.mp h
    obtain rfl := Except.ok.inj h
    rw [map_cons, ih hrows, loadOutboxMessage_ok hrow]

theorem claimDueOutbox_spec {profileExists : Bool} {leaseDurationMs : ℤ} {limit : ℕ}
    {messages : List OutboxMessage}
    (h : claimDueOutbox readable profileExists routerId workerId nowMs leaseDurationMs limit outbox =
      .ok (outbox', messages)) :
    ClaimsAll workerId (nowMs + leaseDurationMs) (messages.map OutboxMessage.messageId) outbox outbox' ∧
      ∀ id ∈ messages.map OutboxMessage.messageId, ∃ row, outbox.find? id = some row ∧
        row.isDue routerId nowMs = true := by
  unfold claimDueOutbox at h
  obtain ⟨router, hrouter, hchecked⟩ := bind_eq_ok.mp h
  obtain ⟨worker, hworker, htimed⟩ := bind_eq_ok.mp hchecked
  rw [validateRouterId_ok hrouter, validateOpaqueId_ok hworker] at htimed
  obtain ⟨_, _, hleased⟩ := bind_eq_ok.mp htimed
  obtain ⟨_, _, hlimited⟩ := bind_eq_ok.mp hleased
  split at hlimited
  · obtain ⟨rfl, rfl⟩ := Prod.mk.inj (Except.ok.inj hlimited)
    exact ⟨⟨(fun _ hid => nomatch hid), fun _ _ => rfl⟩, fun _ hid => nomatch hid⟩
  · obtain ⟨_, _, hfits⟩ := bind_eq_ok.mp hlimited
    obtain ⟨_, _, hexists⟩ := bind_eq_ok.mp hfits
    obtain ⟨written, hwritten, hread⟩ := bind_eq_ok.mp hexists
    obtain ⟨loaded, hloaded, hdone⟩ := bind_eq_ok.mp hread
    obtain ⟨rfl, rfl⟩ := Prod.mk.inj (Except.ok.inj hdone)
    rw [loadMessages_ids hloaded]
    exact ⟨claimRows_spec (nodup_dueIds _ _ _ _) hwritten, fun id hid => mem_dueIds hid⟩

/-! ## Settling -/

/-- The row of a message that waits again, or never again. -/
structure Frees (row row' : OutboxMessage) : Prop where
  messageId : row'.messageId = row.messageId
  routerId : row'.routerId = row.routerId
  dedupeKey : row'.dedupeKey = row.dedupeKey
  status : row'.status.leaseOwner? = none
  attemptCount : row'.attemptCount = row.attemptCount

theorem leased_eq_some :
    leased outbox messageId workerId = some row ↔
      outbox.find? messageId = some row ∧ row.status.leaseOwner? = some workerId := by
  unfold leased
  rw [filter_eq_some_iff, decide_eq_true_eq]

theorem acknowledgeOutbox_spec (h : acknowledgeOutbox messageId workerId outbox = .ok outbox') :
    (∃ row, leased outbox messageId workerId = some row) ∧
      ∀ id, outbox'.find? id = if id = messageId then none else outbox.find? id := by
  unfold acknowledgeOutbox at h
  obtain ⟨message, hmessage, hworked⟩ := bind_eq_ok.mp h
  obtain ⟨worker, hworker, hfound⟩ := bind_eq_ok.mp hworked
  rw [validateOpaqueId_ok hmessage, validateOpaqueId_ok hworker] at hfound
  cases hleased : leased outbox messageId workerId with
  | none =>
    rw [hleased] at hfound
    cases hfound
  | some row =>
    rw [hleased] at hfound
    obtain rfl := Except.ok.inj hfound
    exact ⟨⟨row, rfl⟩, fun id => find?_erase outbox messageId id⟩

def FreesRow (outbox outbox' : Outbox) (messageId workerId : String) : Prop :=
  ∃ row row', leased outbox messageId workerId = some row ∧ outbox'.find? messageId = some row' ∧ Frees row row' ∧
    ∀ id, id ≠ messageId → outbox'.find? id = outbox.find? id

theorem rescheduleOutbox_spec {error : String} {nextAttemptAtMs : ℤ}
    (h : rescheduleOutbox messageId workerId nextAttemptAtMs error nowMs outbox = .ok outbox') :
    FreesRow outbox outbox' messageId workerId := by
  unfold rescheduleOutbox at h
  obtain ⟨message, hmessage, hworked⟩ := bind_eq_ok.mp h
  obtain ⟨worker, hworker, hchecked⟩ := bind_eq_ok.mp hworked
  rw [validateOpaqueId_ok hmessage, validateOpaqueId_ok hworker] at hchecked
  obtain ⟨text, _, htimed⟩ := bind_eq_ok.mp hchecked
  obtain ⟨_, hnext, hclocked⟩ := bind_eq_ok.mp htimed
  obtain ⟨_, _, hfound⟩ := bind_eq_ok.mp hclocked
  have hnonneg : 0 ≤ nextAttemptAtMs := by
    unfold validateTimestamp at hnext
    split at hnext
    · cases hnext
    · rename_i hge
      exact not_lt.mp hge
  cases hleased : leased outbox messageId workerId with
  | none =>
    rw [hleased] at hfound
    cases hfound
  | some row =>
    rw [hleased] at hfound
    simp only at hfound
    split at hfound
    · rename_i hcreated
      obtain rfl := Except.ok.inj hfound
      refine ⟨row, row.rescheduled nextAttemptAtMs text nowMs, hleased,
        find?_modify_self (leased_eq_some.mp hleased).1 _ _, ?_, fun id hne =>
          find?_modify_of_ne hne _ _⟩
      unfold rescheduled
      rw [dif_pos ⟨hnonneg, hcreated⟩]
      exact ⟨rfl, rfl, rfl, rfl, rfl⟩
    · cases hfound

theorem deadLetterOutbox_spec {error : String}
    (h : deadLetterOutbox messageId workerId error nowMs outbox = .ok outbox') :
    FreesRow outbox outbox' messageId workerId := by
  unfold deadLetterOutbox at h
  obtain ⟨message, hmessage, hworked⟩ := bind_eq_ok.mp h
  obtain ⟨worker, hworker, hchecked⟩ := bind_eq_ok.mp hworked
  rw [validateOpaqueId_ok hmessage, validateOpaqueId_ok hworker] at hchecked
  obtain ⟨text, _, hclocked⟩ := bind_eq_ok.mp hchecked
  obtain ⟨_, _, hfound⟩ := bind_eq_ok.mp hclocked
  cases hleased : leased outbox messageId workerId with
  | none =>
    rw [hleased] at hfound
    cases hfound
  | some row =>
    rw [hleased] at hfound
    simp only at hfound
    split at hfound
    · rename_i hcreated
      obtain rfl := Except.ok.inj hfound
      refine ⟨row, row.buried text nowMs, hleased, find?_modify_self (leased_eq_some.mp hleased).1 _ _, ?_,
        fun id hne => find?_modify_of_ne hne _ _⟩
      unfold buried
      rw [dif_pos hcreated]
      exact ⟨rfl, rfl, rfl, rfl, rfl⟩
    · cases hfound

/-! ## Runs -/

inductive Call
  | enqueue (profileExists : Bool) (randomId : String) (message : NewOutboxMessage) (nowMs : ℤ)
  | claim (profileExists : Bool) (routerId workerId : String) (nowMs leaseDurationMs : ℤ) (limit : ℕ)
  | acknowledge (messageId workerId : String)
  | reschedule (messageId workerId : String) (nextAttemptAtMs : ℤ) (error : String) (nowMs : ℤ)
  | deadLetter (messageId workerId error : String) (nowMs : ℤ)

/-- The table, and who has claimed each message since it was enqueued. -/
structure Store where
  outbox : Outbox
  claims : String → List String

def Store.empty : Store := ⟨Table.empty, fun _ => []⟩

def recordEnqueue (claims : String → List String) (result : EnqueueResult) (id : String) : List String :=
  if result.inserted = true ∧ id = result.messageId then [] else claims id

/-- A run records which workers have claimed a message. -/
def recordClaim (claims : String → List String) (workerId : String) (messages : List OutboxMessage) (id : String) :
    List String :=
  if id ∈ messages.map OutboxMessage.messageId then claims id ++ [workerId] else claims id

section
variable (readable : Json → Bool)

/-- A call that fails is rolled back. -/
def step (s : Store) : Call → Store
  | .enqueue profileExists randomId message nowMs =>
    match enqueueOutbox profileExists randomId message nowMs s.outbox with
    | .ok (outbox, result) => ⟨outbox, recordEnqueue s.claims result⟩
    | .error _ => s
  | .claim profileExists routerId workerId nowMs leaseDurationMs limit =>
    match claimDueOutbox readable profileExists routerId workerId nowMs leaseDurationMs limit s.outbox with
    | .ok (outbox, messages) => ⟨outbox, recordClaim s.claims workerId messages⟩
    | .error _ => s
  | .acknowledge messageId workerId =>
    match acknowledgeOutbox messageId workerId s.outbox with
    | .ok outbox => { s with outbox := outbox }
    | .error _ => s
  | .reschedule messageId workerId nextAttemptAtMs error nowMs =>
    match rescheduleOutbox messageId workerId nextAttemptAtMs error nowMs s.outbox with
    | .ok outbox => { s with outbox := outbox }
    | .error _ => s
  | .deadLetter messageId workerId error nowMs =>
    match deadLetterOutbox messageId workerId error nowMs s.outbox with
    | .ok outbox => { s with outbox := outbox }
    | .error _ => s

end

/-- The table agrees with the claims that were made. -/
structure Owned (s : Store) : Prop where
  counted : ∀ id row, s.outbox.find? id = some row → row.attemptCount = (s.claims id).length
  owner : ∀ id row, s.outbox.find? id = some row → ∀ worker ∈ row.status.leaseOwner?,
    (s.claims id).getLast? = some worker
  dedupe : ∀ id row id' row' key, s.outbox.find? id = some row → s.outbox.find? id' = some row' →
    row.routerId = row'.routerId → row.dedupeKey = some key → row'.dedupeKey = some key → id = id'

theorem owned_empty : Owned Store.empty where
  counted := fun _ _ h => nomatch h
  owner := fun _ _ h => nomatch h
  dedupe := fun _ _ _ _ _ h => nomatch h

theorem findDedupe_none {outbox : Outbox} {key : String} (h : findDedupe outbox routerId key = none)
    {id : String} {row : OutboxMessage} (hrow : outbox.find? id = some row) (hrouter : row.routerId = routerId) :
    row.dedupeKey ≠ some key := by
  have := find?_eq_none.mp h row (find?_mem hrow)
  rw [Bool.and_eq_true, decide_eq_true_eq, decide_eq_true_eq] at this
  exact fun hkey => this ⟨hrouter, hkey⟩

section
variable {readable : Json → Bool} {s : Store} {outbox' : Outbox}

variable {row : OutboxMessage} {id : String}

section
variable (h : Owned s)
include h

theorem Owned.enqueue {result : EnqueueResult} (hid : row.messageId = result.messageId)
    (hinserted : result.inserted = true) (henqueues : Enqueues s.outbox outbox' row) :
    Owned ⟨outbox', recordEnqueue s.claims result⟩ := by
  have hclaims : ∀ id, recordEnqueue s.claims result id = if row.messageId = id then [] else s.claims id := by
    intro id
    unfold recordEnqueue
    by_cases heq : row.messageId = id
    · rw [if_pos ⟨hinserted, heq.symm.trans hid⟩, if_pos heq]
    · rw [if_neg (fun hboth => heq (hid.trans hboth.2.symm)), if_neg heq]
  refine ⟨fun id found hfound => ?_, fun id found hfound worker hworker => ?_, ?_⟩
  · rw [henqueues.inserted id] at hfound
    change found.attemptCount = (recordEnqueue s.claims result id).length
    rw [hclaims id]
    split at hfound
    · rename_i heq
      obtain rfl := some.inj hfound
      rw [if_pos heq, henqueues.attemptCount, length_nil]
    · rename_i hne
      rw [if_neg hne]
      exact h.counted id found hfound
  · rw [henqueues.inserted id] at hfound
    change (recordEnqueue s.claims result id).getLast? = some worker
    rw [hclaims id]
    split at hfound
    · obtain rfl := some.inj hfound
      rw [henqueues.status] at hworker
      cases hworker
    · rename_i hne
      rw [if_neg hne]
      exact h.owner id found hfound worker hworker
  · intro id found id' found' key hfound hfound' hrouter hkey hkey'
    rw [henqueues.inserted id] at hfound
    rw [henqueues.inserted id'] at hfound'
    split at hfound
    · rename_i heq
      obtain rfl := some.inj hfound
      split at hfound'
      · rename_i heq'
        exact heq.symm.trans heq'
      · exact absurd hkey' (findDedupe_none (henqueues.dedupe key hkey) hfound' hrouter.symm)
    · split at hfound'
      · obtain rfl := some.inj hfound'
        exact absurd hkey (findDedupe_none (henqueues.dedupe key hkey') hfound hrouter)
      · exact h.dedupe id found id' found' key hfound hfound' hrouter hkey hkey'

theorem dedupe_of_rows (hrows : ∀ id row', outbox'.find? id = some row' →
      ∃ row, s.outbox.find? id = some row ∧ row'.routerId = row.routerId ∧ row'.dedupeKey = row.dedupeKey) :
    ∀ id row id' row' key, outbox'.find? id = some row → outbox'.find? id' = some row' →
      row.routerId = row'.routerId → row.dedupeKey = some key → row'.dedupeKey = some key → id = id' := by
  intro id row id' row' key hrow hrow' hrouter hkey hkey'
  obtain ⟨known, hknown, hsame, hdedupe⟩ := hrows id row hrow
  obtain ⟨known', hknown', hsame', hdedupe'⟩ := hrows id' row' hrow'
  exact h.dedupe id known id' known' key hknown hknown' (by rw [← hsame, ← hsame', hrouter])
    (hdedupe ▸ hkey) (hdedupe' ▸ hkey')

theorem Owned.claim {workerId : String} {leaseUntilMs : ℤ} {messages : List OutboxMessage}
    (hclaims : ClaimsAll workerId leaseUntilMs (messages.map OutboxMessage.messageId) s.outbox outbox')
    (hfound : ∀ id ∈ messages.map OutboxMessage.messageId, ∃ row, s.outbox.find? id = some row) :
    Owned ⟨outbox', recordClaim s.claims workerId messages⟩ := by
  have hrows : ∀ id row', outbox'.find? id = some row' →
      ∃ row, s.outbox.find? id = some row ∧
        (if id ∈ messages.map messageId then Claims workerId leaseUntilMs row row' else row' = row) := by
    intro id row' hrow'
    by_cases hmem : id ∈ messages.map messageId
    · obtain ⟨row, hrow⟩ := hfound id hmem
      obtain ⟨claimed, hclaimed, hclaim⟩ := hclaims.claimed id hmem row hrow
      obtain rfl := some.inj (hclaimed.symm.trans hrow')
      exact ⟨row, hrow, by rwa [if_pos hmem]⟩
    · rw [hclaims.kept id hmem] at hrow'
      exact ⟨row', hrow', by rw [if_neg hmem]⟩
  refine ⟨fun id row' hrow' => ?_, fun id row' hrow' worker hworker => ?_, dedupe_of_rows h ?_⟩
  · obtain ⟨row, hrow, hchange⟩ := hrows id row' hrow'
    change row'.attemptCount = (recordClaim s.claims workerId messages id).length
    unfold recordClaim
    split at hchange
    · rename_i hmem
      rw [if_pos hmem, hchange.attemptCount, h.counted id row hrow, length_append, length_singleton]
    · rename_i hmem
      rw [if_neg hmem, hchange, h.counted id row hrow]
  · obtain ⟨row, hrow, hchange⟩ := hrows id row' hrow'
    change (recordClaim s.claims workerId messages id).getLast? = some worker
    unfold recordClaim
    split at hchange
    · rename_i hmem
      rw [hchange.status] at hworker
      obtain rfl := some.inj hworker
      rw [if_pos hmem, getLast?_concat]
    · rename_i hmem
      rw [hchange] at hworker
      rw [if_neg hmem]
      exact h.owner id row hrow worker hworker
  · intro id row' hrow'
    obtain ⟨row, hrow, hchange⟩ := hrows id row' hrow'
    refine ⟨row, hrow, ?_⟩
    split at hchange
    · exact ⟨hchange.routerId, hchange.dedupeKey⟩
    · rw [hchange]
      exact ⟨rfl, rfl⟩

theorem Owned.acknowledge {messageId : String}
    (herased : ∀ id, outbox'.find? id = if id = messageId then none else s.outbox.find? id) :
    Owned { s with outbox := outbox' } := by
  have hrows : ∀ id row, outbox'.find? id = some row → s.outbox.find? id = some row := by
    intro id row hrow
    rw [herased id] at hrow
    split at hrow
    · cases hrow
    · exact hrow
  exact ⟨fun id row hrow => h.counted id row (hrows id row hrow), fun id row hrow =>
    h.owner id row (hrows id row hrow), dedupe_of_rows h fun id row hrow => ⟨row, hrows id row hrow, rfl, rfl⟩⟩

theorem Owned.free {messageId workerId : String} (hfrees : FreesRow s.outbox outbox' messageId workerId) :
    Owned { s with outbox := outbox' } := by
  obtain ⟨row, row', hleased, hrow', hfree, hkept⟩ := hfrees
  have hrow := (leased_eq_some.mp hleased).1
  have hrows : ∀ id found', outbox'.find? id = some found' →
      s.outbox.find? id = some found' ∨ (id = messageId ∧ found' = row') := by
    intro id found' hfound'
    by_cases heq : id = messageId
    · subst heq
      exact .inr ⟨rfl, some.inj (hfound'.symm.trans hrow')⟩
    · exact .inl ((hkept id heq).symm.trans hfound')
  refine ⟨fun id found' hfound' => ?_, fun id found' hfound' worker hworker => ?_, dedupe_of_rows h ?_⟩
  · rcases hrows id found' hfound' with hsame | ⟨rfl, rfl⟩
    · exact h.counted id found' hsame
    · rw [hfree.attemptCount]
      exact h.counted id row hrow
  · rcases hrows id found' hfound' with hsame | ⟨rfl, rfl⟩
    · exact h.owner id found' hsame worker hworker
    · rw [hfree.status] at hworker
      cases hworker
  · intro id found' hfound'
    rcases hrows id found' hfound' with hsame | ⟨rfl, rfl⟩
    · exact ⟨found', hsame, rfl, rfl⟩
    · exact ⟨row, hrow, hfree.routerId, hfree.dedupeKey⟩

end

/-- What a call can do to the table. -/
theorem step_cases (readable : Json → Bool) (s : Store) (call : Call) : step readable s call = s ∨
    (∃ outbox' row result, step readable s call = ⟨outbox', recordEnqueue s.claims result⟩ ∧
      row.messageId = result.messageId ∧ result.inserted = true ∧ s.outbox.find? row.messageId = none ∧
      Enqueues s.outbox outbox' row) ∨
    (∃ outbox' workerId leaseUntilMs messages, step readable s call = ⟨outbox', recordClaim s.claims workerId messages⟩ ∧
      ClaimsAll workerId leaseUntilMs (messages.map OutboxMessage.messageId) s.outbox outbox' ∧
      ∀ id ∈ messages.map OutboxMessage.messageId, ∃ row, s.outbox.find? id = some row ∧
        ∃ routerId nowMs, row.isDue routerId nowMs = true) ∨
    (∃ outbox' messageId workerId, call = .acknowledge messageId workerId ∧
      step readable s call = { s with outbox := outbox' } ∧ (∃ row, leased s.outbox messageId workerId = some row) ∧
      ∀ id, outbox'.find? id = if id = messageId then none else s.outbox.find? id) ∨
    ∃ outbox' messageId workerId, step readable s call = { s with outbox := outbox' } ∧
      FreesRow s.outbox outbox' messageId workerId := by
  cases call with
  | enqueue profileExists randomId message nowMs =>
    rw [step]
    cases hresult : enqueueOutbox profileExists randomId message nowMs s.outbox with
    | error e => exact .inl rfl
    | ok answer =>
      obtain ⟨outbox', result⟩ := answer
      rcases enqueueOutbox_spec hresult with ⟨hknown, rfl⟩ | ⟨hinserted, row, hid, hfree, henqueues⟩
      · have hsame : recordEnqueue s.claims result = s.claims := by
          funext id
          unfold recordEnqueue
          rw [hknown, if_neg (fun hboth => Bool.false_ne_true hboth.1)]
        exact .inl (by simp only [hsame])
      · exact .inr (.inl ⟨outbox', row, result, rfl, hid, hinserted, hfree, henqueues⟩)
  | claim profileExists routerId workerId nowMs leaseDurationMs limit =>
    rw [step]
    cases hresult : claimDueOutbox readable profileExists routerId workerId nowMs leaseDurationMs limit s.outbox with
    | error e => exact .inl rfl
    | ok answer =>
      obtain ⟨outbox', messages⟩ := answer
      obtain ⟨hclaims, hdue⟩ := claimDueOutbox_spec hresult
      exact .inr (.inr (.inl ⟨outbox', workerId, _, messages, rfl, hclaims, fun id hid =>
        (hdue id hid).imp fun row hrow => ⟨hrow.1, _, _, hrow.2⟩⟩))
  | acknowledge messageId workerId =>
    rw [step]
    cases hresult : acknowledgeOutbox messageId workerId s.outbox with
    | error e => exact .inl rfl
    | ok outbox' =>
      obtain ⟨hleased, herased⟩ := acknowledgeOutbox_spec hresult
      exact .inr (.inr (.inr (.inl ⟨outbox', messageId, workerId, rfl, rfl, hleased, herased⟩)))
  | reschedule messageId workerId nextAttemptAtMs error nowMs =>
    rw [step]
    cases hresult : rescheduleOutbox messageId workerId nextAttemptAtMs error nowMs s.outbox with
    | error e => exact .inl rfl
    | ok outbox' =>
      exact .inr (.inr (.inr (.inr ⟨outbox', messageId, workerId, rfl, rescheduleOutbox_spec hresult⟩)))
  | deadLetter messageId workerId error nowMs =>
    rw [step]
    cases hresult : deadLetterOutbox messageId workerId error nowMs s.outbox with
    | error e => exact .inl rfl
    | ok outbox' =>
      exact .inr (.inr (.inr (.inr ⟨outbox', messageId, workerId, rfl, deadLetterOutbox_spec hresult⟩)))

theorem owned_step (h : Owned s) (call : Call) : Owned (step readable s call) := by
  rcases step_cases readable s call with hsame | ⟨outbox', row, result, hstep, hid, hinserted, _, henqueues⟩ |
    ⟨outbox', workerId, leaseUntilMs, messages, hstep, hclaims, hfound⟩ |
    ⟨outbox', messageId, workerId, _, hstep, _, herased⟩ | ⟨outbox', messageId, workerId, hstep, hfrees⟩
  · rw [hsame]
    exact h
  · rw [hstep]
    exact h.enqueue hid hinserted henqueues
  · rw [hstep]
    exact h.claim hclaims fun id hid => (hfound id hid).imp fun row hrow => hrow.1
  · rw [hstep]
    exact h.acknowledge herased
  · rw [hstep]
    exact h.free hfrees

/-- Only the last worker that claimed a message can settle it. -/
theorem leaves_by_owner (h : Owned s) {call : Call} (hrow : s.outbox.find? id = some row)
    (hgone : (step readable s call).outbox.find? id = none) :
    ∃ worker, call = .acknowledge id worker ∧ (s.claims id).getLast? = some worker := by
  rcases step_cases readable s call with hsame | ⟨outbox', new, result, hstep, _, _, _, henqueues⟩ |
    ⟨outbox', workerId, leaseUntilMs, messages, hstep, hclaims, _⟩ |
    ⟨outbox', messageId, workerId, hcall, hstep, hleased, herased⟩ | ⟨outbox', messageId, workerId, hstep, hfrees⟩
  · rw [hsame, hrow] at hgone
    cases hgone
  · rw [hstep] at hgone
    change outbox'.find? id = none at hgone
    rw [henqueues.inserted id, hrow] at hgone
    split at hgone <;> cases hgone
  · rw [hstep] at hgone
    change outbox'.find? id = none at hgone
    by_cases hmem : id ∈ messages.map OutboxMessage.messageId
    · obtain ⟨row', hrow', _⟩ := hclaims.claimed id hmem row hrow
      rw [hrow'] at hgone
      cases hgone
    · rw [hclaims.kept id hmem, hrow] at hgone
      cases hgone
  · rw [hstep] at hgone
    change outbox'.find? id = none at hgone
    rw [herased id, hrow] at hgone
    split at hgone
    · rename_i heq
      subst heq
      obtain ⟨found, hfound⟩ := hleased
      obtain ⟨hfind, howner⟩ := leased_eq_some.mp hfound
      exact ⟨workerId, hcall, h.owner id found hfind workerId howner⟩
    · cases hgone
  · rw [hstep] at hgone
    change outbox'.find? id = none at hgone
    obtain ⟨found, found', _, hfound', _, hkept⟩ := hfrees
    by_cases heq : id = messageId
    · subst heq
      rw [hfound'] at hgone
      cases hgone
    · rw [hkept id heq, hrow] at hgone
      cases hgone

/-- A buried message stays. -/
theorem buried_step (hdead : row.status = .deadLetter) (hrow : s.outbox.find? id = some row) (call : Call) :
    (step readable s call).outbox.find? id = some row := by
  have hnot : ∀ {id' worker found}, leased s.outbox id' worker = some found → id ≠ id' := by
    rintro id' worker found hleased rfl
    obtain ⟨hfind, howner⟩ := leased_eq_some.mp hleased
    rw [hrow] at hfind
    cases hfind
    rw [hdead] at howner
    cases howner
  rcases step_cases readable s call with hsame | ⟨outbox', new, result, hstep, _, _, hfree, henqueues⟩ |
    ⟨outbox', workerId, leaseUntilMs, messages, hstep, hclaims, hdue⟩ |
    ⟨outbox', messageId, workerId, _, hstep, ⟨found, hleased⟩, herased⟩ |
    ⟨outbox', messageId, workerId, hstep, found, found', hleased, _, _, hkept⟩
  · rw [hsame, hrow]
  · rw [hstep]
    refine (henqueues.inserted id).trans ((if_neg ?_).trans hrow)
    rintro rfl
    rw [hrow] at hfree
    cases hfree
  · rw [hstep]
    refine (hclaims.kept id fun hid => ?_).trans hrow
    obtain ⟨due, hfind, routerId, nowMs, hisDue⟩ := hdue id hid
    rw [hrow] at hfind
    cases hfind
    simp [isDue, hdead] at hisDue
  · rw [hstep]
    exact (herased id).trans ((if_neg (hnot hleased)).trans hrow)
  · rw [hstep]
    exact (hkept id (hnot hleased)).trans hrow

theorem enqueueOutbox_known {profileExists : Bool} {randomId key : String} {message : NewOutboxMessage} {nowMs : ℤ}
    {outbox : Outbox} {result : EnqueueResult} (hkey : message.dedupeKey = some key)
    (hknown : findDedupe outbox message.routerId key = some row)
    (h : enqueueOutbox profileExists randomId message nowMs outbox = .ok (outbox', result)) :
    outbox' = outbox ∧ result = ⟨row.messageId, false⟩ := by
  obtain ⟨routerId, hrouter, h⟩ := bind_eq_ok.mp h
  obtain ⟨operation, -, h⟩ := bind_eq_ok.mp h
  obtain ⟨dedupeKey, hdedupe, h⟩ := bind_eq_ok.mp h
  rw [hkey] at hdedupe
  cases hchecked : validateOpaqueId "outbox dedupe key" key 255 with
  | error e => simp [validateDedupeKey, hchecked, Except.map] at hdedupe
  | ok checked =>
    simp only [validateDedupeKey, hchecked, Except.map, Except.ok.injEq] at hdedupe
    rw [← hdedupe, bind_some, validateRouterId_ok hrouter, validateOpaqueId_ok hchecked, hknown] at h
    split at h
    · split at h
      · obtain ⟨_, -, h⟩ := bind_eq_ok.mp h
        cases h
        exact ⟨rfl, rfl⟩
      · cases h
    · cases h

theorem not_leased (h : Owned s) {worker other : String} (hlast : (s.claims id).getLast? = some other)
    (hne : worker ≠ other) : leased s.outbox id worker = none := by
  rw [eq_none_iff_forall_not_mem]
  intro row hrow
  obtain ⟨hfind, howner⟩ := leased_eq_some.mp hrow
  have := h.owner id row hfind worker howner
  exact hne (some.inj (this.symm.trans hlast))

theorem settles_nothing {worker : String} (h : leased s.outbox id worker = none) :
    (∃ e, acknowledgeOutbox id worker s.outbox = .error e) ∧
      (∀ nextAttemptAtMs error nowMs, ∃ e,
        rescheduleOutbox id worker nextAttemptAtMs error nowMs s.outbox = .error e) ∧
      ∀ error nowMs, ∃ e, deadLetterOutbox id worker error nowMs s.outbox = .error e := by
  refine ⟨?_, fun nextAttemptAtMs error nowMs => ?_, fun error nowMs => ?_⟩
  · cases hresult : acknowledgeOutbox id worker s.outbox with
    | error e => exact ⟨e, rfl⟩
    | ok outbox' =>
      obtain ⟨row, hrow⟩ := (acknowledgeOutbox_spec hresult).1
      rw [h] at hrow
      cases hrow
  · cases hresult : rescheduleOutbox id worker nextAttemptAtMs error nowMs s.outbox with
    | error e => exact ⟨e, rfl⟩
    | ok outbox' =>
      obtain ⟨row, _, hrow, _⟩ := rescheduleOutbox_spec hresult
      rw [h] at hrow
      cases hrow
  · cases hresult : deadLetterOutbox id worker error nowMs s.outbox with
    | error e => exact ⟨e, rfl⟩
    | ok outbox' =>
      obtain ⟨row, _, hrow, _⟩ := deadLetterOutbox_spec hresult
      rw [h] at hrow
      cases hrow

theorem lease_over {routerId owner : String} {nowMs leaseUntilMs : ℤ} (hdue : row.isDue routerId nowMs = true)
    (hstatus : row.status = .inFlight owner leaseUntilMs) : leaseUntilMs ≤ nowMs := by
  unfold isDue at hdue
  rw [hstatus] at hdue
  simp only [Bool.and_eq_true, decide_eq_true_eq] at hdue
  exact hdue.2

theorem owned_run (readable : Json → Bool) (calls : List Call) : Owned (run (step readable) Store.empty calls) := by
  have hsteps : EachStep (step readable) (fun _ _ => True) Store.empty calls :=
    EachStep.of_forall (fun _ _ => trivial) _ _
  exact @run_invariant _ _ (step readable) Owned (fun _ _ => True) (fun _ call h _ => owned_step h call) _ _
    owned_empty hsteps

end

variable (readable)

def after (calls : List Call) : Store := run (step readable) Store.empty calls

/-- A message leaves only when the worker that claimed it last acknowledges it. -/
def LeavesByOwner (s : Store) : Prop :=
  ∀ call id row, s.outbox.find? id = some row → (step readable s call).outbox.find? id = none →
    ∃ worker, call = .acknowledge id worker ∧ (s.claims id).getLast? = some worker

/-- Once another worker has claimed the message, the worker cannot settle it. -/
def SettledByOwner (s : Store) : Prop :=
  ∀ id worker other, (s.claims id).getLast? = some other → worker ≠ other →
    (∃ e, acknowledgeOutbox id worker s.outbox = .error e) ∧
    (∀ nextAttemptAtMs error nowMs, ∃ e, rescheduleOutbox id worker nextAttemptAtMs error nowMs s.outbox = .error e) ∧
    ∀ error nowMs, ∃ e, deadLetterOutbox id worker error nowMs s.outbox = .error e

/-- A claim takes no message whose lease goes on by the clock of the claim. -/
def ClaimsUnleased (s : Store) : Prop :=
  ∀ profileExists routerId workerId nowMs leaseDurationMs limit outbox' messages,
    claimDueOutbox readable profileExists routerId workerId nowMs leaseDurationMs limit s.outbox =
      .ok (outbox', messages) →
    ∀ message ∈ messages, ∀ row owner leaseUntilMs, s.outbox.find? message.messageId = some row →
      row.status = .inFlight owner leaseUntilMs → leaseUntilMs ≤ nowMs

def OnePerKey (s : Store) : Prop :=
  ∀ row ∈ s.outbox.rows, ∀ row' ∈ s.outbox.rows, ∀ key, row.routerId = row'.routerId →
    row.dedupeKey = some key → row'.dedupeKey = some key → row = row'

/-- The attempts of a message are its claims. -/
def Counted (s : Store) : Prop := ∀ row ∈ s.outbox.rows, row.attemptCount = (s.claims row.messageId).length

/-- In every state that calls can reach, a message has one owner, is counted, and leaves only by its owner. -/
theorem outbox_single_owner (readable : Json → Bool) (calls : List Call) :
    LeavesByOwner readable (after readable calls) ∧ SettledByOwner (after readable calls) ∧
      ClaimsUnleased readable (after readable calls) ∧ OnePerKey (after readable calls) ∧
      Counted (after readable calls) := by
  have h : Owned (after readable calls) := owned_run readable calls
  refine ⟨fun call id row => leaves_by_owner h, fun id worker other hlast hne =>
    settles_nothing (not_leased h hlast hne), ?_, fun row hrow row' hrow' key hrouter hkey hkey' => ?_,
    fun row hrow => h.counted row.messageId row (Table.find?_of_mem hrow)⟩
  · intro profileExists routerId workerId nowMs leaseDurationMs limit outbox' messages hclaim message hmessage row
      owner leaseUntilMs hrow hstatus
    obtain ⟨found, hfound, hdue⟩ := (claimDueOutbox_spec hclaim).2 message.messageId (List.mem_map_of_mem hmessage)
    obtain rfl := Option.some.inj (hrow.symm.trans hfound)
    exact lease_over hdue hstatus
  · have hids := h.dedupe row.messageId row row'.messageId row' key (Table.find?_of_mem hrow)
      (Table.find?_of_mem hrow') hrouter hkey hkey'
    have hfound := Table.find?_of_mem hrow'
    rw [← hids, Table.find?_of_mem hrow] at hfound
    exact Option.some.inj hfound

/-- A dead letter stays as it is in every later state, and messages under its key are answered with it. -/
theorem dead_letter_stays (readable : Json → Bool) (calls later : List Call) (id : String) (row : OutboxMessage)
    (hrow : (after readable calls).outbox.find? id = some row) (hdead : row.status = .deadLetter) :
    (after readable (calls ++ later)).outbox.find? id = some row ∧
    ∀ profileExists randomId message nowMs key outbox' result, row.dedupeKey = some key →
      message.routerId = row.routerId → message.dedupeKey = some key →
      enqueueOutbox profileExists randomId message nowMs (after readable (calls ++ later)).outbox =
        .ok (outbox', result) → outbox' = (after readable (calls ++ later)).outbox ∧ result = ⟨id, false⟩ := by
  have hstays : (after readable (calls ++ later)).outbox.find? id = some row := by
    unfold after
    rw [run_append]
    exact @run_invariant _ _ (step readable) (fun s => s.outbox.find? id = some row) (fun _ _ => True)
      (fun s call hs _ => buried_step hdead hs call) _ _ hrow (EachStep.of_forall (fun _ _ => trivial) _ _)
  refine ⟨hstays, fun profileExists randomId message nowMs key outbox' result hkey hrouter hkey' h => ?_⟩
  have howned : Owned (after readable (calls ++ later)) := owned_run readable _
  cases hknown : findDedupe (after readable (calls ++ later)).outbox message.routerId key with
  | none => exact absurd hkey (findDedupe_none hknown hstays hrouter.symm)
  | some known =>
    have hmatches := List.find?_some hknown
    rw [Bool.and_eq_true, decide_eq_true_eq, decide_eq_true_eq] at hmatches
    have hid := howned.dedupe _ known id row key (find?_of_mem (mem_of_find?_eq_some hknown)) hstays
      (hmatches.1.trans hrouter) hmatches.2 hkey
    rw [← hid]
    exact enqueueOutbox_known hkey' hknown h

def enqueueAlert : Call := .enqueue true "m" ⟨"r", "alert", .null, some "k", 0⟩ 0

def buriedAlert : List Call := [enqueueAlert, .claim true "r" "w" 0 1 1, .deadLetter "m" "w" "refused" 0]

theorem dead_letter_stays_alert : ∃ row, (after (fun _ => true) buriedAlert).outbox.find? "m" = some row ∧
    row.status = .deadLetter ∧
    (after (fun _ => true) (buriedAlert ++ [enqueueAlert])).outbox.find? "m" = some row ∧
    ∃ answer, enqueueOutbox true "n" ⟨"r", "again", .null, some "k", 5⟩ 5
        (after (fun _ => true) (buriedAlert ++ [enqueueAlert])).outbox = .ok answer ∧
      answer.1 = (after (fun _ => true) (buriedAlert ++ [enqueueAlert])).outbox ∧ answer.2 = ⟨"m", false⟩ := by
  have hburied : ((after (fun _ => true) buriedAlert).outbox.find? "m").any (·.status = .deadLetter) = true := by
    decide
  obtain ⟨row, hrow, hdead⟩ := (any_eq_true _ _).mp hburied
  rw [decide_eq_true_eq] at hdead
  have hkey : row.routerId = "r" ∧ row.dedupeKey = some "k" := by
    cases hrow
    decide
  obtain ⟨hstays, hanswer⟩ := dead_letter_stays _ buriedAlert [enqueueAlert] "m" row hrow hdead
  have hok : (enqueueOutbox true "n" ⟨"r", "again", .null, some "k", 5⟩ 5
      (after (fun _ => true) (buriedAlert ++ [enqueueAlert])).outbox).isOk = true := by decide
  cases h : enqueueOutbox true "n" ⟨"r", "again", .null, some "k", 5⟩ 5
      (after (fun _ => true) (buriedAlert ++ [enqueueAlert])).outbox with
  | error e =>
    rw [h] at hok
    cases hok
  | ok answer => exact ⟨row, hrow, hdead, hstays, answer, rfl, hanswer true "n" _ 5 "k" _ _ hkey.2 hkey.1.symm rfl h⟩

end CcSwitchServer.RouterControl
