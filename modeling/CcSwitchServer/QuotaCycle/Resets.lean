import CcSwitchServer.QuotaCycle.Order

/-! # Resets in any order

Resets for one source arrive from several feeds and in no order.
-/

namespace CcSwitchServer.QuotaCycle
open Foundations QuotaCycleLedger List OrderedMap World

/-- What one call of `apply_reset` hands in for a source. -/
structure Reset where
  fence : QuotaSourceFence
  eventId : String
  effectiveAtMs : ℤ
  discoveredAtMs : ℤ
  basis : QuotaTimeBasis
deriving DecidableEq, Repr

variable (s : QuotaCycleSource)

def Reset.Accepted (r : Reset) : Prop := EventArgs r.eventId r.effectiveAtMs r.discoveredAtMs ∧ s.fence = r.fence

instance (s : QuotaCycleSource) : DecidablePred (Reset.Accepted s) := fun r => by
  unfold Reset.Accepted
  infer_instance

def World.reset (ids : OpaqueIds) (sourceRef : String) (w : World) (r : Reset) : World :=
  (w.applyReset ids sourceRef r.fence r.eventId r.effectiveAtMs r.discoveredAtMs r.basis).2

def latestStart (start : ℤ) (resets : List Reset) : ℤ :=
  ((resets.filter fun r => r.Accepted s).map Reset.effectiveAtMs).foldl max start

def endAfter (c : AccountQuotaCycle) (start : ℤ) : Option ℤ :=
  if c.startsAtMs < start then c.endsAtMs.filter fun e => start < e else c.endsAtMs

/-- The resets that may open a cycle; the order matters only when the counter of cycles is full. -/
def laterResets (start : ℤ) (resets : List Reset) : ℕ := resets.countP fun r => r.Accepted s ∧ start < r.effectiveAtMs

/-! ## The latest start -/

theorem latestStart_cons_accepted {s : QuotaCycleSource} {r : Reset} (h : r.Accepted s) (start : ℤ)
    (resets : List Reset) :
    latestStart s start (r :: resets) = latestStart s (max start r.effectiveAtMs) resets := by
  simp [latestStart, h]

theorem latestStart_cons_rejected {s : QuotaCycleSource} {r : Reset} (h : ¬r.Accepted s) (start : ℤ)
    (resets : List Reset) : latestStart s start (r :: resets) = latestStart s start resets := by
  simp [latestStart, h]

theorem latestStart_perm {s : QuotaCycleSource} {resets order : List Reset} (h : order.Perm resets)
    (start : ℤ) : latestStart s start order = latestStart s start resets := by
  unfold latestStart
  have hmax : RightCommutative (max : ℤ → ℤ → ℤ) := ⟨fun a b c => max_right_comm a b c⟩
  exact ((h.filter _).map _).foldl_eq start

theorem le_latestStart (start : ℤ) (resets : List Reset) : start ≤ latestStart s start resets := by
  induction resets generalizing start with
  | nil => exact le_refl start
  | cons r resets ih =>
    by_cases hr : r.Accepted s
    · rw [latestStart_cons_accepted hr]
      exact le_trans (le_max_left _ _) (ih _)
    · rw [latestStart_cons_rejected hr]
      exact ih start

theorem laterResets_mono {s : QuotaCycleSource} {start start' : ℤ} (h : start ≤ start')
    (resets : List Reset) : laterResets s start' resets ≤ laterResets s start resets := by
  refine countP_mono_left fun r _ hr => ?_
  rw [decide_eq_true_eq] at hr ⊢
  exact ⟨hr.1, lt_of_le_of_lt h hr.2⟩

theorem laterResets_cons (start : ℤ) (r : Reset) (resets : List Reset) :
    laterResets s start (r :: resets) = laterResets s start [r] + laterResets s start resets := by
  unfold laterResets
  rw [← countP_append, singleton_append]

theorem endAfter_trans {c c' : AccountQuotaCycle} {start : ℤ} (hle : c.startsAtMs ≤ c'.startsAtMs)
    (hends : c'.endsAtMs = endAfter c c'.startsAtMs) (hstart : c'.startsAtMs ≤ start) :
    endAfter c' start = endAfter c start := by
  unfold endAfter at hends ⊢
  rcases hle.eq_or_lt with heq | hlt
  · rw [← heq, if_neg (lt_irrefl _)] at hends
    rw [heq, hends]
  · rw [if_pos hlt] at hends
    rw [if_pos (lt_of_lt_of_le hlt hstart), hends]
    split
    · rw [Option.filter_filter]
      congr 1
      funext e
      rw [Bool.and_eq_right_iff_imp]
      simp only [decide_eq_true_eq]
      omega
    · have hsame : start = c'.startsAtMs := by omega
      rw [hsame]

/-! ## One new reset -/

section
variable {ids : OpaqueIds} {w w' : World} {sourceRef identity : String} {s : QuotaCycleSource}
  {c : AccountQuotaCycle} {r : Reset}

theorem eventKey_right_inj {eventId eventId' : String}
    (h : eventKey sourceRef eventId = eventKey sourceRef eventId') : eventId = eventId' := by
  unfold eventKey at h
  exact (String.append_right_inj _).mp h

theorem sourceEntry_putSource {l : QuotaCycleLedger} {s' : QuotaCycleSource}
    (h : l.sourceEntry sourceRef = some (identity, s)) (href : s'.sourceRef = s.sourceRef) :
    (l.putSource identity s').sourceEntry sourceRef = some (identity, s') := by
  refine find?_insert_of_find? h ?_
  rw [decide_eq_true_eq, href]
  exact (sourceEntry_some h).2

section
variable (hentry : w.ledger.sourceEntry sourceRef = some (identity, s))
include hentry

theorem applyReset_rejected
    (hr : ¬r.Accepted s) : w.reset ids sourceRef r = w := by
  unfold reset applyReset
  split
  · rfl
  · rename_i hargs
    push Not at hargs
    rw [hentry]
    have hfence : s.fence ≠ r.fence := fun hfence =>
      hr ⟨⟨hargs.1, hargs.2.1, hargs.2.2.1, hargs.2.2.2⟩, hfence⟩
    dsimp only
    rw [if_pos hfence]

theorem applyReset_accepted
    (hcycle : s.cycle = some c) {fence : QuotaSourceFence} {eventId : String}
    {effectiveAtMs discoveredAtMs : ℤ} (basis : QuotaTimeBasis)
    (hargs : EventArgs eventId effectiveAtMs discoveredAtMs) (hfence : s.fence = fence) :
    w.applyReset ids sourceRef fence eventId effectiveAtMs discoveredAtMs basis =
      match w.ledger.events.get? (eventKey sourceRef eventId) with
      | some previous =>
        if previous.effectiveAtMs = effectiveAtMs then (.ok false, w)
        else w.correctEvent identity s c previous eventId effectiveAtMs discoveredAtMs basis
      | none => w.recordEvent ids identity s c eventId effectiveAtMs discoveredAtMs basis := by
  have hguard : ¬(eventId = "" ∨ 256 < eventId.utf8ByteSize ∨ effectiveAtMs < 0 ∨ discoveredAtMs < effectiveAtMs) := by
    push Not
    exact ⟨hargs.nonempty, hargs.short, hargs.nonneg, hargs.discovered⟩
  unfold applyReset
  rw [if_neg hguard, hentry]
  dsimp only
  rewrite [if_neg (not_not.mpr hfence), hcycle]
  cases w.ledger.events.get? (eventKey sourceRef eventId) with
  | none => rfl
  | some previous => rfl

end

/-- What a list of new resets leaves of a source whose cycle was `c`. -/
structure Brought (sourceRef identity : String) (s : QuotaCycleSource) (c : AccountQuotaCycle)
    (w w' : World) (resets : List Reset) (c' : AccountQuotaCycle) : Prop where
  entry : w'.ledger.sourceEntry sourceRef = some (identity, { s with cycle := some c' })
  start : c'.startsAtMs = latestStart s c.startsAtMs resets
  ends : c'.endsAtMs = endAfter c (latestStart s c.startsAtMs resets)
  sequence : c'.cycleSequence ≤ c.cycleSequence + laterResets s c.startsAtMs resets
  known : ∀ r ∈ resets, r.Accepted s → ∃ e,
    w'.ledger.events.get? (eventKey sourceRef r.eventId) = some e ∧ e.effectiveAtMs = r.effectiveAtMs
  kept : ∀ eventId, (∀ r ∈ resets, r.eventId ≠ eventId) →
    w'.ledger.events.get? (eventKey sourceRef eventId) = w.ledger.events.get? (eventKey sourceRef eventId)

namespace Brought
variable {resets : List Reset} {w₁ : World} {c₁ c' : AccountQuotaCycle}

section
variable (hentry : w.ledger.sourceEntry sourceRef = some (identity, { s with cycle := some c }))
include hentry

theorem nil :
    Brought sourceRef identity s c w w [] c :=
  { entry := hentry
    start := rfl
    ends := (if_neg (lt_irrefl _)).symm
    sequence := Nat.le_add_right _ _
    known := fun _ hr => absurd hr not_mem_nil
    kept := fun _ _ => rfl }

theorem rejected
    (hr : ¬r.Accepted s) : Brought sourceRef identity s c w (w.reset ids sourceRef r) [r] c := by
  have hsame : w.reset ids sourceRef r = w := applyReset_rejected hentry hr
  rw [hsame]
  exact
    { entry := hentry
      start := by
        rw [latestStart_cons_rejected hr]
        rfl
      ends := by
        rw [latestStart_cons_rejected hr]
        exact (if_neg (lt_irrefl _)).symm
      sequence := Nat.le_add_right _ _
      known := fun r' hr' haccepted => absurd (mem_singleton.mp hr' ▸ haccepted) hr
      kept := fun _ _ => rfl }

theorem advanced
    {event : QuotaResetEvent} (hlater : c.startsAtMs < event.effectiveAtMs) (hr : r.Accepted s)
    (hid : event.eventId = r.eventId) (heff : event.effectiveAtMs = r.effectiveAtMs) :
    ∃ c', Brought sourceRef identity s c w (w.advanceCycle ids identity { s with cycle := some c } c
      (c.cycleSequence + 1) event) [r] c' := by
  obtain ⟨-, href⟩ := sourceEntry_some hentry
  have hlatest : latestStart s c.startsAtMs [r] = event.effectiveAtMs := by
    rw [latestStart_cons_accepted hr, ← heff, max_eq_right hlater.le]
    rfl
  have hkey : eventKey s.sourceRef event.eventId = eventKey sourceRef r.eventId := by
    rw [href, hid]
  refine ⟨{ c with
    cycleId := ids.id w.drawn
    cycleSequence := c.cycleSequence + 1
    cycleRevision := 1
    startsAtMs := event.effectiveAtMs
    endsAtMs := c.endsAtMs.filter fun e => event.effectiveAtMs < e
    basis := event.basis
    observedAtMs := event.discoveredAtMs
    eventId := event.eventId }, ?_⟩
  constructor
  · exact sourceEntry_putSource hentry rfl
  · exact hlatest.symm
  · rw [hlatest]
    exact (if_pos hlater).symm
  · have hcount : laterResets s c.startsAtMs [r] = 1 := by
      rw [heff] at hlater
      simp [laterResets, hr, hlater]
    rw [hcount]
  · intro r' hr' _
    rw [mem_singleton.mp hr', ← hkey]
    exact ⟨{ event with cycleId := ids.id w.drawn }, get?_insert_self _ _ _, heff⟩
  · intro eventId hne
    refine get?_insert_of_ne _ _ fun heq => ?_
    rw [hkey] at heq
    exact hne r (mem_singleton_self r) (eventKey_right_inj heq)

theorem filed
    {event : QuotaResetEvent} (hlater : event.effectiveAtMs ≤ c.startsAtMs) (hr : r.Accepted s)
    (hkey : eventKey event.sourceRef event.eventId = eventKey sourceRef r.eventId)
    (heff : event.effectiveAtMs = r.effectiveAtMs) :
    Brought sourceRef identity s c w (w.fileEvent event) [r] c := by
  have hlatest : latestStart s c.startsAtMs [r] = c.startsAtMs := by
    rw [latestStart_cons_accepted hr, ← heff, max_eq_left hlater]
    rfl
  constructor
  · exact hentry
  · exact hlatest.symm
  · rw [hlatest]
    exact (if_neg (lt_irrefl _)).symm
  · exact Nat.le_add_right _ _
  · intro r' hr' _
    rw [mem_singleton.mp hr', ← hkey]
    exact ⟨event, get?_insert_self _ _ _, heff⟩
  · intro eventId hne
    refine get?_insert_of_ne _ _ fun heq => ?_
    rw [hkey] at heq
    exact hne r (mem_singleton_self r) (eventKey_right_inj heq)

end

theorem one (ids : OpaqueIds) (hentry : w.ledger.sourceEntry sourceRef = some (identity, { s with cycle := some c }))
    (hfresh : w.ledger.events.get? (eventKey sourceRef r.eventId) = none)
    (hroom : c.cycleSequence + laterResets s c.startsAtMs [r] ≤ u64Max) :
    ∃ c', Brought sourceRef identity s c w (w.reset ids sourceRef r) [r] c' := by
  by_cases hr : r.Accepted s
  · obtain ⟨-, href⟩ := sourceEntry_some hentry
    have hreset : w.reset ids sourceRef r = (w.recordEvent ids identity { s with cycle := some c } c
        r.eventId r.effectiveAtMs r.discoveredAtMs r.basis).2 := by
      unfold reset
      rw [applyReset_accepted hentry rfl r.basis hr.1 hr.2, hfresh]
    rw [hreset]
    unfold recordEvent
    by_cases hlater : c.startsAtMs < r.effectiveAtMs
    · have hcount : laterResets s c.startsAtMs [r] = 1 := by
        simp [laterResets, hr, hlater]
      rw [hcount] at hroom
      rw [if_pos hlater, checkedAddU64_eq_some.mpr ⟨hroom, rfl⟩]
      exact advanced hentry hlater hr rfl rfl
    · have hle : r.effectiveAtMs ≤ c.startsAtMs := not_lt.mp hlater
      rw [if_neg hlater]
      by_cases hearlier : r.effectiveAtMs < c.startsAtMs
      · rw [if_pos hearlier]
        exact ⟨c, filed hentry hle hr (by rw [href]) rfl⟩
      · rw [if_neg hearlier]
        exact ⟨c, filed hentry hle hr (by rw [href]) rfl⟩
  · exact ⟨c, rejected hentry hr⟩

theorem cons (h : Brought sourceRef identity s c w w₁ [r] c₁) (h' : Brought sourceRef identity s c₁ w₁ w' resets c')
    (hnew : ∀ r' ∈ resets, r'.eventId ≠ r.eventId) :
    Brought sourceRef identity s c w w' (r :: resets) c' := by
  have hmove : latestStart s c₁.startsAtMs resets = latestStart s c.startsAtMs (r :: resets) := by
    rw [h.start]
    by_cases hr : r.Accepted s
    · rw [latestStart_cons_accepted hr, latestStart_cons_accepted hr]
      rfl
    · rw [latestStart_cons_rejected hr, latestStart_cons_rejected hr]
      rfl
  have hle : c.startsAtMs ≤ c₁.startsAtMs := by
    rw [h.start]
    exact le_latestStart _ _ _
  constructor
  · exact h'.entry
  · rw [h'.start, hmove]
  · have hends := h.ends
    rw [← h.start] at hends
    rw [h'.ends, hmove]
    refine endAfter_trans hle hends ?_
    rw [← hmove]
    exact le_latestStart _ _ _
  · have hfirst := h.sequence
    have hrest := h'.sequence
    have hfewer := laterResets_mono (s := s) hle resets
    have hsplit := laterResets_cons s c.startsAtMs r resets
    omega
  · intro r' hr' haccepted
    rcases mem_cons.mp hr' with rfl | hr'
    · obtain ⟨e, he, heff⟩ := h.known r' (mem_singleton_self r') haccepted
      exact ⟨e, by rw [h'.kept _ hnew, he], heff⟩
    · exact h'.known r' hr' haccepted
  · intro eventId hne
    rw [h'.kept eventId fun r' hr' => hne r' (mem_cons_of_mem r hr'),
      h.kept eventId fun r' hr' => mem_singleton.mp hr' ▸ hne r mem_cons_self]

/-- New resets open the next cycle or are filed, one after the other. -/
theorem all (ids : OpaqueIds) {resets : List Reset} {w : World} {c : AccountQuotaCycle}
    (hentry : w.ledger.sourceEntry sourceRef = some (identity, { s with cycle := some c }))
    (hdistinct : (resets.map Reset.eventId).Nodup)
    (hfresh : ∀ r ∈ resets, w.ledger.events.get? (eventKey sourceRef r.eventId) = none)
    (hroom : c.cycleSequence + laterResets s c.startsAtMs resets ≤ u64Max) :
    ∃ c', Brought sourceRef identity s c w (run (reset ids sourceRef) w resets) resets c' := by
  induction resets generalizing w c with
  | nil => exact ⟨c, nil hentry⟩
  | cons r resets ih =>
    have hsplit := laterResets_cons s c.startsAtMs r resets
    rw [map_cons, nodup_cons] at hdistinct
    have hnew : ∀ r' ∈ resets, r'.eventId ≠ r.eventId := fun r' hr' heq =>
      hdistinct.1 (heq ▸ mem_map_of_mem hr')
    obtain ⟨c₁, h₁⟩ := one ids hentry (hfresh r mem_cons_self) (by omega)
    have hle : c.startsAtMs ≤ c₁.startsAtMs := by
      rw [h₁.start]
      exact le_latestStart _ _ _
    have hfresh₁ : ∀ r' ∈ resets,
        (w.reset ids sourceRef r).ledger.events.get? (eventKey sourceRef r'.eventId) = none := by
      intro r' hr'
      rw [h₁.kept, hfresh r' (mem_cons_of_mem r hr')]
      intro r'' hr'' heq
      rw [mem_singleton.mp hr''] at heq
      exact hnew r' hr' heq.symm
    have hroom₁ : c₁.cycleSequence + laterResets s c₁.startsAtMs resets ≤ u64Max := by
      have hfirst := h₁.sequence
      have hfewer := laterResets_mono (s := s) hle resets
      omega
    obtain ⟨c', h'⟩ := ih h₁.entry hdistinct.2 hfresh₁ hroom₁
    exact ⟨c', h₁.cons h' hnew⟩

end Brought

end

/-! ## The result -/

theorem sourceEntry_of_source {l : QuotaCycleLedger} {sourceRef : String} {s : QuotaCycleSource}
    (h : l.source sourceRef = some s) : ∃ identity, l.sourceEntry sourceRef = some (identity, s) := by
  unfold source values at h
  rw [find?_map, Option.map_eq_some_iff] at h
  obtain ⟨⟨identity, s'⟩, hentry, rfl⟩ := h
  exact ⟨identity, hentry⟩

theorem source_of_sourceEntry {l : QuotaCycleLedger} {sourceRef identity : String}
    {s : QuotaCycleSource} (h : l.sourceEntry sourceRef = some (identity, s)) :
    l.source sourceRef = some s := by
  unfold source values
  rw [find?_map, Option.map_eq_some_iff]
  exact ⟨(identity, s), h, rfl⟩

/-- New resets with distinct identifiers, in any order: the cycle starts at the latest of the old
start and the times that pass the checks, its end is the old one if that is later than a moved start,
and the announcement of such a reset a second time changes nothing. The counter of cycles must have
room for the resets after the old start. -/
theorem resets_commute (ids : OpaqueIds) (w : World) (sourceRef : String) (s : QuotaCycleSource)
    (c : AccountQuotaCycle) (resets order : List Reset)
    (hsource : w.ledger.source sourceRef = some s) (hcycle : s.cycle = some c)
    (hdistinct : (resets.map Reset.eventId).Nodup)
    (hfresh : ∀ r ∈ resets, w.ledger.events.get? (eventKey sourceRef r.eventId) = none)
    (hroom : c.cycleSequence + laterResets s c.startsAtMs resets ≤ u64Max) (horder : order.Perm resets) :
    (∃ c', (run (reset ids sourceRef) w order).ledger.source sourceRef =
        some { s with cycle := some c' } ∧ c'.startsAtMs = latestStart s c.startsAtMs resets ∧
      c'.endsAtMs = endAfter c (latestStart s c.startsAtMs resets)) ∧
    ∀ r ∈ resets, r.Accepted s → ∀ discoveredAtMs, r.effectiveAtMs ≤ discoveredAtMs → ∀ basis,
      (run (reset ids sourceRef) w order).applyReset ids sourceRef r.fence r.eventId
        r.effectiveAtMs discoveredAtMs basis = (.ok false, run (reset ids sourceRef) w order) := by
  obtain ⟨identity, hentry⟩ := sourceEntry_of_source hsource
  have hopen : s = { s with cycle := some c } := by rw [← hcycle]
  rw [hopen] at hentry
  have hcount : laterResets s c.startsAtMs order = laterResets s c.startsAtMs resets := horder.countP_eq _
  obtain ⟨c', h⟩ := Brought.all ids hentry
    ((horder.map _).nodup_iff.mpr hdistinct) (fun r hr => hfresh r (horder.mem_iff.mp hr))
    (by rw [hcount]; exact hroom)
  refine ⟨⟨c', source_of_sourceEntry h.entry, ?_, ?_⟩, fun r hr haccepted discoveredAtMs hlater basis => ?_⟩
  · rw [h.start, latestStart_perm horder]
  · rw [h.ends, latestStart_perm horder]
  · obtain ⟨e, he, heff⟩ := h.known r (horder.mem_iff.mpr hr) haccepted
    obtain ⟨hargs, hfence⟩ := haccepted
    rw [applyReset_accepted h.entry rfl basis ⟨hargs.nonempty, hargs.short, hargs.nonneg, hlater⟩ hfence, he]
    exact if_pos heff

/-! ### Two resets in both orders -/

def numberedCycle (sequence : ℕ) : AccountQuotaCycle where
  streamIncarnation := "x"
  sourceRef := "xx"
  sourceEpoch := 1
  bucketId := "shared_weekly"
  cycleId := "xxx"
  cycleSequence := sequence
  cycleRevision := 1
  startsAtMs := 1000
  endsAtMs := some 100000
  basis := .upstreamWindow
  observedAtMs := 2000
  eventId := "initial"

def numberedSource (sequence : ℕ) : QuotaCycleSource where
  sourceRef := "xx"
  sourceEpoch := 1
  providerType := "codex_oauth"
  bucketId := "shared_weekly"
  fence := {}
  cycle := some (numberedCycle sequence)
  nextBoundaryMs := some 100000
  lastObservedAtMs := 2000

def numberedWorld (sequence : ℕ) : World where
  ledger :=
    ((QuotaCycleLedger.default "x").putSource "identity" (numberedSource sequence)).putEvent
      (eventKey "xx" "initial")
      { eventId := "initial", sourceRef := "xx", bucketId := "shared_weekly", effectiveAtMs := 1000,
        discoveredAtMs := 2000, basis := .upstreamWindow, status := .committed, cycleId := "xxx" }
  drawn := 3
  replaced := []

def earlyReset : Reset := ⟨{}, "public:early", 4000, 9000, .publicAnnouncement⟩
def lateReset : Reset := ⟨{}, "public:late", 6000, 9000, .publicAnnouncement⟩

def futureReset : Reset := ⟨{}, "public:future", 9000, 8000, .publicAnnouncement⟩

theorem resets_commute_pair :
    (∃ c', (run (reset unaryIds "xx") (numberedWorld 1) [lateReset, earlyReset]).ledger.source
        "xx" = some { numberedSource 1 with cycle := some c' } ∧ c'.startsAtMs = 6000 ∧ c'.endsAtMs = some 100000) ∧
    (run (reset unaryIds "xx") (numberedWorld 1) [lateReset, earlyReset]).applyReset unaryIds
        "xx" {} "public:early" 4000 9500 .publicAnnouncement =
      (.ok false, run (reset unaryIds "xx") (numberedWorld 1) [lateReset, earlyReset]) := by
  have h := resets_commute unaryIds (numberedWorld 1) "xx" (numberedSource 1) (numberedCycle 1)
    [earlyReset, lateReset] [lateReset, earlyReset] rfl rfl (by decide) (by decide)
    (by decide) (List.Perm.swap _ _ _)
  exact ⟨h.1, h.2 earlyReset (by decide) (by decide) 9500 (by decide) _⟩

def World.currentStart (w : World) (sourceRef : String) : Option ℤ :=
  ((w.ledger.source sourceRef).bind QuotaCycleSource.cycle).map AccountQuotaCycle.startsAtMs

/-- With one cycle number left, the later of two resets opens the last cycle when it comes first and
is refused when it comes second. A reset that does not pass the checks never counts. -/
theorem resets_keep_an_order :
    (numberedWorld (u64Max - 1)).ledger.validate = .ok () ∧
    (numberedWorld (u64Max - 1)).currentStart "xx" = some 1000 ∧
    (∀ r ∈ [earlyReset, lateReset, futureReset], (numberedWorld (u64Max - 1)).ledger.events.get?
      (eventKey "xx" r.eventId) = none) ∧
    (run (reset unaryIds "xx") (numberedWorld (u64Max - 1)) [lateReset, earlyReset]).currentStart "xx" = some 6000 ∧
    (run (reset unaryIds "xx") (numberedWorld (u64Max - 1)) [earlyReset, lateReset]).currentStart "xx" = some 4000 ∧
    (run (reset unaryIds "xx") (numberedWorld (u64Max - 1)) [futureReset]).currentStart "xx" = some 1000 := by
  decide

end CcSwitchServer.QuotaCycle
