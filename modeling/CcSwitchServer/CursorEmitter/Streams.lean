import CcSwitchServer.CursorEmitter.Slots

/-! # Well-formed streams

The blocks of a Messages stream and the items of a Responses stream, over every list of events without an
error. An item states the text of the whole response.
-/

namespace CcSwitchServer.CursorEmitter
open Foundations Spans AgentSseWriter List OutputRef

variable {x : Externals} {rules : SpanRules} {s : AgentSseWriter} {sp : Spans} {n : ℕ}

theorem toNat_next {next : UInt32} (h : next = UInt32.ofNat n) (hn : n < 2 ^ 32) : next.toNat = n := by
  rw [h, UInt32.toNat_ofNat', Nat.mod_eq_of_lt hn]

theorem succ_next {next : UInt32} (h : next = UInt32.ofNat n) : next + 1 = UInt32.ofNat (n + 1) := by
  rw [h, UInt32.ofNat_add]
  rfl

/-! ## Blocks -/

section

/-- The open blocks are those of the writer. -/
structure Blocks (rules : SpanRules) (s : AgentSseWriter) (sp : Spans) (n : ℕ) : Prop where
  slots : Slots rules sp n (s.thinkingBlock.map UInt32.toNat) (s.textBlock.map UInt32.toNat) "" ""
  next : s.nextBlockIdx = UInt32.ofNat n

/-- Text and thinking do not follow each other without a close. -/
def Apart (s : AgentSseWriter) : AgentEvent → Prop
  | .text t => t ≠ "" → s.thinkingBlock = none
  | .thinking t => t ≠ "" → s.textBlock = none
  | _ => True

def Blocked (rules : SpanRules) (sp : Spans) (n : ℕ) (r : List Frame × AgentSseWriter) : Prop :=
  ∃ sp' n', run rules sp (r.1.flatMap blockMarks) = some sp' ∧ Blocks rules r.2 sp' n' ∧ n' ≤ n + 1

theorem openTextBlock_marks (text : String) (h : s.nextBlockIdx = UInt32.ofNat n) (hn : n < 2 ^ 32) :
    (s.openTextBlock.1 ++ [contentBlockDelta s.openTextBlock.2.1 "text_delta" "text" text]).flatMap blockMarks =
        (if s.textBlock.map UInt32.toNat = none then [.opened n] else []) ++
          [.wrote ((s.textBlock.map UInt32.toNat).getD n) text] ∧
      s.openTextBlock.2.2.textBlock.map UInt32.toNat = some ((s.textBlock.map UInt32.toNat).getD n) ∧
      s.openTextBlock.2.2.thinkingBlock = s.thinkingBlock ∧
      s.openTextBlock.2.2.nextBlockIdx = UInt32.ofNat (if s.textBlock.map UInt32.toNat = none then n + 1 else n) := by
  unfold openTextBlock
  cases htext : s.textBlock with
  | none =>
    have hnext := toNat_next h hn
    refine ⟨?_, congrArg some hnext, rfl, succ_next h⟩
    simp [hnext]
  | some i => exact ⟨by simp, by simp [htext], rfl, h⟩

theorem openThinkingBlock_marks (text : String) (h : s.nextBlockIdx = UInt32.ofNat n) (hn : n < 2 ^ 32) :
    (s.openThinkingBlock.1 ++ [contentBlockDelta s.openThinkingBlock.2.1 "thinking_delta" "thinking" text]).flatMap
        blockMarks =
        (if s.thinkingBlock.map UInt32.toNat = none then [.opened n] else []) ++
          [.wrote ((s.thinkingBlock.map UInt32.toNat).getD n) text] ∧
      s.openThinkingBlock.2.2.thinkingBlock.map UInt32.toNat = some ((s.thinkingBlock.map UInt32.toNat).getD n) ∧
      s.openThinkingBlock.2.2.textBlock = s.textBlock ∧
      s.openThinkingBlock.2.2.nextBlockIdx =
        UInt32.ofNat (if s.thinkingBlock.map UInt32.toNat = none then n + 1 else n) := by
  unfold openThinkingBlock
  cases hthinking : s.thinkingBlock with
  | none =>
    have hnext := toNat_next h hn
    refine ⟨?_, congrArg some hnext, rfl, succ_next h⟩
    simp [hnext]
  | some i => exact ⟨by simp, by simp [hthinking], rfl, h⟩

theorem map_eq_none {o : Option UInt32} (h : o = none) : o.map UInt32.toNat = none := by rw [h, Option.map_none]

theorem Blocks.sent (hrules : rules.stated = false) (h : Blocks rules s sp n) (hn : n < 2 ^ 32)
    (hformat : s.format = .anthropicMessages) {text : String} (hapart : rules.exclusive → s.thinkingBlock = none) :
    Blocked rules sp n (s.sendText x text) := by
  have hstated : ∀ {P : Prop}, rules.stated → P := fun hs => absurd (hrules ▸ hs) (by decide)
  obtain ⟨hmarks, htext, hthinking, hnext⟩ := openTextBlock_marks text h.next hn
  obtain ⟨sp', n', hrun, hslots, hn'⟩ :=
    h.slots.swap.sent (fun _ hex => map_eq_none (hapart hex)) (fun hs => hstated hs) text
  have hsend : s.sendText x text = (s.openTextBlock.1 ++
      [contentBlockDelta s.openTextBlock.2.1 "text_delta" "text" text], s.openTextBlock.2.2) := by
    unfold sendText
    rw [hformat]
  rw [hsend]
  refine ⟨sp', n', hmarks ▸ hrun, ⟨?_, hn' ▸ hnext⟩, by rw [hn']; split <;> omega⟩
  rw [htext, hthinking]
  exact hslots.swap.unstated hrules "" ""

theorem Blocks.thought (hrules : rules.stated = false) (h : Blocks rules s sp n) (hn : n < 2 ^ 32)
    (hformat : s.format = .anthropicMessages) {text : String} (hapart : rules.exclusive → s.textBlock = none) :
    Blocked rules sp n (s.sendThinking x text) := by
  have hstated : ∀ {P : Prop}, rules.stated → P := fun hs => absurd (hrules ▸ hs) (by decide)
  obtain ⟨hmarks, hthinking, htext, hnext⟩ := openThinkingBlock_marks text h.next hn
  obtain ⟨sp', n', hrun, hslots, hn'⟩ :=
    h.slots.sent (fun _ hex => map_eq_none (hapart hex)) (fun hs => hstated hs) text
  have hsend : s.sendThinking x text = (s.openThinkingBlock.1 ++
      [contentBlockDelta s.openThinkingBlock.2.1 "thinking_delta" "thinking" text], s.openThinkingBlock.2.2) := by
    unfold sendThinking
    rw [hformat]
  rw [hsend]
  refine ⟨sp', n', hmarks ▸ hrun, ⟨?_, hn' ▸ hnext⟩, by rw [hn']; split <;> omega⟩
  rw [hthinking, htext]
  exact hslots.unstated hrules "" ""

section
variable (h : Blocks rules s sp n)
include h

theorem Blocks.closeThinking (hformat : s.format = .anthropicMessages) :
    ∃ sp', run rules sp (s.closeThinking.1.flatMap blockMarks) = some sp' ∧
      Blocks rules s.closeThinking.2 sp' n ∧ s.closeThinking.2.thinkingBlock = none := by
  have hclose : s.closeThinking = s.closeThinkingBlock := by
    unfold AgentSseWriter.closeThinking
    rw [hformat]
  rw [hclose]
  unfold closeThinkingBlock
  have hslots := h.slots
  cases hthinking : s.thinkingBlock with
  | none =>
    rw [hthinking] at hslots
    exact ⟨sp, rfl, ⟨hslots, h.next⟩, rfl⟩
  | some i =>
    rw [hthinking] at hslots
    obtain ⟨sp', hclosed, hslots'⟩ := hslots.closed
    refine ⟨sp', ?_, ⟨hslots', h.next⟩, rfl⟩
    exact (run_cons_of hclosed).trans run_nil

theorem Blocks.flushText (hformat : s.format = .anthropicMessages) :
    ∃ sp', run rules sp (s.flushText.1.flatMap blockMarks) = some sp' ∧
      Blocks rules s.flushText.2 sp' n ∧ s.flushText.2.textBlock = none := by
  unfold AgentSseWriter.flushText
  dsimp only
  rw [hformat, if_pos rfl, if_neg (by decide), append_nil]
  have hslots := h.slots.swap
  cases htext : s.textBlock with
  | none =>
    rw [htext] at hslots
    exact ⟨sp, rfl, ⟨hslots.swap, h.next⟩, rfl⟩
  | some i =>
    rw [htext] at hslots
    obtain ⟨sp', hclosed, hslots'⟩ := hslots.closed
    refine ⟨sp', ?_, ⟨hslots'.swap, h.next⟩, rfl⟩
    exact (run_cons_of hclosed).trans run_nil

theorem Blocks.toolUse (hn : n < 2 ^ 32) (hthinking : s.thinkingBlock = none)
    (htext : s.textBlock = none) (tc : CapturedToolCall) : Blocked rules sp n (s.anthropicToolUse x tc) := by
  have hslots := h.slots
  rw [hthinking, htext] at hslots
  obtain ⟨sp', hrun, hslots'⟩ := hslots.passed (x.toText (parsedArguments x tc)) 0
  refine ⟨sp', n + 1, ?_, ⟨?_, succ_next h.next⟩, le_rfl⟩
  · have hnext := toNat_next h.next hn
    unfold anthropicToolUse
    simpa [hnext] using hrun
  · unfold anthropicToolUse
    rw [hthinking, htext]
    exact hslots'

theorem Blocks.toolCall (hn : n < 2 ^ 32) (hformat : s.format = .anthropicMessages)
    (tc : CapturedToolCall) : Blocked rules sp n (s.toolCall x tc) := by
  have hpushed : Blocks rules (s.pushCall tc) sp n := ⟨h.slots, h.next⟩
  obtain ⟨sp1, hrun1, hclosed, hthinking⟩ := hpushed.closeThinking hformat
  obtain ⟨hcontent, hadvanced⟩ := closeThinking_content (s.pushCall tc)
  have hformat1 : (s.pushCall tc).closeThinking.2.format = .anthropicMessages := hadvanced.format.trans hformat
  unfold AgentSseWriter.toolCall
  generalize (s.pushCall tc).closeThinking = closing at hrun1 hclosed hthinking hformat1 ⊢
  obtain ⟨sp2, hrun2, hflushed, htext⟩ := hclosed.flushText hformat1
  have hthinking2 : closing.2.flushText.2.thinkingBlock = none := hthinking
  have hformat2 : closing.2.flushText.2.format = .anthropicMessages := hformat1
  dsimp only
  generalize closing.2.flushText = flushed at hrun2 hflushed htext hthinking2 hformat2 ⊢
  obtain ⟨sp3, n', hrun3, hcalled, hle⟩ := hflushed.toolUse (x := x) hn hthinking2 htext tc
  have hsend : flushed.2.sendCall x tc = flushed.2.anthropicToolUse x tc := by
    unfold sendCall
    rw [hformat2]
  rw [hsend]
  refine ⟨sp3, n', ?_, hcalled, hle⟩
  rw [flatMap_append, flatMap_append, append_assoc, run_append_of hrun1, run_append_of hrun2, hrun3]

theorem Blocks.same {s' : AgentSseWriter} (hthinking : s'.thinkingBlock = s.thinkingBlock)
    (htext : s'.textBlock = s.textBlock) (hnext : s'.nextBlockIdx = s.nextBlockIdx) :
    Blocked rules sp n ([], s') := by
  refine ⟨sp, n, rfl, ⟨?_, hnext.trans h.next⟩, Nat.le_succ n⟩
  rw [hthinking, htext]
  exact h.slots

end

theorem Blocks.event (hrules : rules.stated = false) (h : Blocks rules s sp n) (hn : n < 2 ^ 32)
    (hformat : s.format = .anthropicMessages) {ev : AgentEvent} (hev : ∀ msg, ev ≠ .error msg)
    (hapart : rules.exclusive → Apart s ev) : Blocked rules sp n (s.event x ev) := by
  cases ev with
  | text t =>
    change Blocked rules sp n (s.textDelta x t)
    unfold textDelta
    split
    · exact h.same rfl rfl rfl
    · rename_i hne
      exact Blocks.sent (s := s.pushText x t) hrules ⟨h.slots, h.next⟩ hn hformat fun hex => hapart hex hne
  | thinking t =>
    change Blocked rules sp n (s.thinkingDelta x t)
    unfold thinkingDelta
    split
    · exact h.same rfl rfl rfl
    · rename_i hne
      exact Blocks.thought (s := s.pushThinking x t) hrules ⟨h.slots, h.next⟩ hn hformat fun hex => hapart hex hne
  | thinkingComplete =>
    obtain ⟨sp', hrun, hclosed, -⟩ := h.closeThinking hformat
    exact ⟨sp', n, hrun, hclosed, Nat.le_succ n⟩
  | toolCall tc => exact h.toolCall hn hformat tc
  | turnEnded => exact h.same rfl rfl rfl
  | usage input output =>
    change Blocked rules sp n ([], _)
    refine h.same ?_ ?_ ?_ <;> split <;> split <;> rfl
  | error msg => exact absurd rfl (hev msg)

def stepped (x : Externals) (s : AgentSseWriter) (ev : AgentEvent) : AgentSseWriter := (s.event x ev).2

/-- An invariant that every event keeps while it advances the count by at most one. -/
theorem run_events {marks : Frame → List Mark} {I : AgentSseWriter → Spans → ℕ → Prop} {P : Prop}
    {format : CursorResponseFormat}
    {Q : AgentSseWriter → AgentEvent → Prop}
    (hstep : ∀ {s sp n ev}, I s sp n → n < 2 ^ 32 → s.format = format → (∀ msg, ev ≠ .error msg) → (P → Q s ev) →
      ∃ sp' n', run rules sp ((s.event x ev).1.flatMap marks) = some sp' ∧ I (s.event x ev).2 sp' n' ∧ n' ≤ n + 1)
    (h : I s sp n) {events : List AgentEvent} (hn : n + events.length ≤ 2 ^ 32) (hformat : s.format = format)
    (hev : ∀ ev ∈ events, ∀ msg, ev ≠ .error msg) (hQ : P → EachStep (stepped x) Q s events) :
    ∃ sp' n', run rules sp ((eventsOf x s events).1.flatMap marks) = some sp' ∧ I (eventsOf x s events).2 sp' n' := by
  induction events generalizing s sp n with
  | nil => exact ⟨sp, n, rfl, h⟩
  | cons ev events ih =>
    rw [length_cons] at hn
    obtain ⟨sp1, n1, hrun1, hkept, hle⟩ := hstep h (by omega) hformat (hev ev mem_cons_self) fun hp => (hQ hp).1
    obtain ⟨-, hadvanced⟩ := event_content (x := x) s (hev ev mem_cons_self)
    obtain ⟨sp2, n2, hrun2, hlast⟩ := ih hkept (by omega) (hadvanced.format.trans hformat)
      (fun e he => hev e (mem_cons_of_mem _ he)) fun hp => (hQ hp).2
    refine ⟨sp2, n2, ?_, hlast⟩
    change run rules sp (((s.event x ev).1 ++ (eventsOf x (s.event x ev).2 events).1).flatMap marks) = _
    rw [flatMap_append, run_append_of hrun1, hrun2]

theorem Blocks.events (hrules : rules.stated = false) (h : Blocks rules s sp n) {events : List AgentEvent}
    (hn : n + events.length ≤ 2 ^ 32) (hformat : s.format = .anthropicMessages)
    (hev : ∀ ev ∈ events, ∀ msg, ev ≠ .error msg) (hapart : rules.exclusive → EachStep (stepped x) Apart s events) :
    ∃ sp' n', run rules sp ((eventsOf x s events).1.flatMap blockMarks) = some sp' ∧
      Blocks rules (eventsOf x s events).2 sp' n' :=
  run_events (fun h hn hformat hev hapart => h.event hrules hn hformat hev hapart) h hn hformat hev hapart

theorem Blocks.done (h : Blocks rules s sp n) : ∃ sp', run rules sp (s.anthropicDone.flatMap blockMarks) = some sp' ∧
    sp'.live.entries = [] := by
  have hclosing : ∀ {sp : Spans} {b : Option ℕ} (o : Option UInt32), Slots rules sp n (o.map UInt32.toNat) b "" "" →
      ∃ sp', run rules sp ((o.map contentBlockStop).toList.flatMap blockMarks) = some sp' ∧
        Slots rules sp' n none b "" "" := by
    intro sp b o hslots
    cases o with
    | none => exact ⟨sp, rfl, hslots⟩
    | some i =>
      obtain ⟨sp', hclosed, hslots'⟩ := hslots.closed
      exact ⟨sp', (run_cons_of hclosed).trans run_nil, hslots'⟩
  obtain ⟨sp1, hrun1, hslots1⟩ := hclosing s.thinkingBlock h.slots
  obtain ⟨sp2, hrun2, hslots2⟩ := hclosing s.textBlock hslots1.swap
  refine ⟨sp2, ?_, hslots2.entries_eq_nil⟩
  unfold anthropicDone
  rw [flatMap_append, flatMap_append, append_assoc, run_append_of hrun1, run_append_of hrun2]
  rfl

end

/-! ## Items -/

section

def OutputRef.number (r : OutputRef) : ℕ := r.index.toNat

/-- The open items are those of the writer, with the aggregated texts. -/
structure Items (rules : SpanRules) (s : AgentSseWriter) (sp : Spans) (n : ℕ) : Prop where
  slots : Slots rules sp n (s.reasoningItem.map number) (s.textItem.map number) s.aggregateReasoning s.aggregateText
  next : s.nextOutputIdx = UInt32.ofNat n

/-- A message item is opened for the first text, and a reasoning item for the first thinking. -/
def Fresh (s : AgentSseWriter) : AgentEvent → Prop
  | .text t => t ≠ "" → s.textItem = none → s.aggregateText = ""
  | .thinking t => t ≠ "" → s.reasoningItem = none → s.aggregateReasoning = ""
  | _ => True

def Itemised (rules : SpanRules) (sp : Spans) (n : ℕ) (r : List Frame × AgentSseWriter) : Prop :=
  ∃ sp' n', run rules sp (r.1.flatMap itemMarks) = some sp' ∧ Items rules r.2 sp' n' ∧ n' ≤ n + 1

theorem openTextItem_marks (text : String) (h : s.nextOutputIdx = UInt32.ofNat n) (hn : n < 2 ^ 32) :
    ((s.openTextItem x).1 ++ [outputTextDelta (s.openTextItem x).2.1.itemId (s.openTextItem x).2.1.index text]).flatMap
        itemMarks =
        (if s.textItem.map number = none then [.opened n] else []) ++ [.wrote ((s.textItem.map number).getD n) text] ∧
      (s.openTextItem x).2.2.textItem.map number = some ((s.textItem.map number).getD n) ∧
      (s.openTextItem x).2.2.nextOutputIdx = UInt32.ofNat (if s.textItem.map number = none then n + 1 else n) := by
  unfold openTextItem
  cases htext : s.textItem with
  | none =>
    have hnext := toNat_next h hn
    refine ⟨?_, congrArg some hnext, succ_next h⟩
    simp [hnext]
  | some r => exact ⟨by simp [number], by simp [htext], h⟩

theorem openReasoningItem_marks (text : String) (h : s.nextOutputIdx = UInt32.ofNat n) (hn : n < 2 ^ 32) :
    ((s.openReasoningItem x).1 ++ [reasoningSummaryTextDelta (s.openReasoningItem x).2.1.itemId
        (s.openReasoningItem x).2.1.index text]).flatMap itemMarks =
        (if s.reasoningItem.map number = none then [.opened n] else []) ++
          [.wrote ((s.reasoningItem.map number).getD n) text] ∧
      (s.openReasoningItem x).2.2.reasoningItem.map number = some ((s.reasoningItem.map number).getD n) ∧
      (s.openReasoningItem x).2.2.nextOutputIdx =
        UInt32.ofNat (if s.reasoningItem.map number = none then n + 1 else n) := by
  unfold openReasoningItem
  cases hreasoning : s.reasoningItem with
  | none =>
    have hnext := toNat_next h hn
    refine ⟨?_, congrArg some hnext, succ_next h⟩
    simp [hnext]
  | some r => exact ⟨by simp [number], by simp [hreasoning], h⟩

theorem openTextItem_rest (s : AgentSseWriter) : (s.openTextItem x).2.2.reasoningItem = s.reasoningItem ∧
    (s.openTextItem x).2.2.aggregateReasoning = s.aggregateReasoning ∧
    (s.openTextItem x).2.2.aggregateText = s.aggregateText := by
  unfold openTextItem
  split <;> exact ⟨rfl, rfl, rfl⟩

theorem openReasoningItem_rest (s : AgentSseWriter) : (s.openReasoningItem x).2.2.textItem = s.textItem ∧
    (s.openReasoningItem x).2.2.aggregateReasoning = s.aggregateReasoning ∧
    (s.openReasoningItem x).2.2.aggregateText = s.aggregateText := by
  unfold openReasoningItem
  split <;> exact ⟨rfl, rfl, rfl⟩

theorem map_number_eq_none {o : Option OutputRef} (h : o.map number = none) : o = none := Option.map_eq_none_iff.mp h

theorem Items.same {s' : AgentSseWriter} (h : Items rules s sp n) (hreasoning : s'.reasoningItem = s.reasoningItem)
    (htext : s'.textItem = s.textItem) (hnext : s'.nextOutputIdx = s.nextOutputIdx)
    (hthought : s'.aggregateReasoning = s.aggregateReasoning) (hsaid : s'.aggregateText = s.aggregateText) :
    Itemised rules sp n ([], s') := by
  refine ⟨sp, n, rfl, ⟨?_, hnext.trans h.next⟩, Nat.le_succ n⟩
  rw [hreasoning, htext, hthought, hsaid]
  exact h.slots

theorem Items.textDelta (hrules : rules.exclusive = false) (h : Items rules s sp n) (hn : n < 2 ^ 32)
    (hformat : s.format = .openAiResponses) {t : String} (hfresh : rules.stated → Fresh s (.text t)) :
    Itemised rules sp n (s.textDelta x t) := by
  unfold AgentSseWriter.textDelta
  split
  · exact h.same rfl rfl rfl rfl rfl
  · rename_i hne
    obtain ⟨hmarks, htext, hnext⟩ := openTextItem_marks (x := x) (s := s.pushText x t) t h.next hn
    obtain ⟨hreasoning, hthought, hsaid⟩ := openTextItem_rest (x := x) (s.pushText x t)
    obtain ⟨sp', n', hrun, hslots, hn'⟩ := h.slots.swap.sent (fun _ hex => absurd (hrules ▸ hex) (by decide))
      (fun hstated hnone => hfresh hstated hne (map_number_eq_none hnone)) t
    have hsend : (s.pushText x t).sendText x t = (((s.pushText x t).openTextItem x).1 ++
        [outputTextDelta ((s.pushText x t).openTextItem x).2.1.itemId ((s.pushText x t).openTextItem x).2.1.index t],
        ((s.pushText x t).openTextItem x).2.2) := by
      have hpushed : (s.pushText x t).format = .openAiResponses := hformat
      unfold sendText
      rw [hpushed]
    rw [hsend]
    refine ⟨sp', n', hmarks ▸ hrun, ⟨?_, hn' ▸ hnext⟩, by rw [hn']; split <;> omega⟩
    rw [htext, hreasoning, hthought, hsaid]
    exact hslots.swap

theorem Items.thinkingDelta (hrules : rules.exclusive = false) (h : Items rules s sp n) (hn : n < 2 ^ 32)
    (hformat : s.format = .openAiResponses) {t : String} (hfresh : rules.stated → Fresh s (.thinking t)) :
    Itemised rules sp n (s.thinkingDelta x t) := by
  unfold AgentSseWriter.thinkingDelta
  split
  · exact h.same rfl rfl rfl rfl rfl
  · rename_i hne
    obtain ⟨hmarks, hreasoning, hnext⟩ := openReasoningItem_marks (x := x) (s := s.pushThinking x t) t h.next hn
    obtain ⟨htext, hthought, hsaid⟩ := openReasoningItem_rest (x := x) (s.pushThinking x t)
    obtain ⟨sp', n', hrun, hslots, hn'⟩ := h.slots.sent (fun _ hex => absurd (hrules ▸ hex) (by decide))
      (fun hstated hnone => hfresh hstated hne (map_number_eq_none hnone)) t
    have hsend : (s.pushThinking x t).sendThinking x t = (((s.pushThinking x t).openReasoningItem x).1 ++
        [reasoningSummaryTextDelta ((s.pushThinking x t).openReasoningItem x).2.1.itemId
          ((s.pushThinking x t).openReasoningItem x).2.1.index t], ((s.pushThinking x t).openReasoningItem x).2.2) := by
      have hpushed : (s.pushThinking x t).format = .openAiResponses := hformat
      unfold sendThinking
      rw [hpushed]
    rw [hsend]
    refine ⟨sp', n', hmarks ▸ hrun, ⟨?_, hn' ▸ hnext⟩, by rw [hn']; split <;> omega⟩
    rw [htext, hreasoning, hthought, hsaid]
    exact hslots

theorem Items.closeThinking (h : Items rules s sp n) (hformat : s.format = .openAiResponses) :
    ∃ sp', run rules sp (s.closeThinking.1.flatMap itemMarks) = some sp' ∧
      Items rules s.closeThinking.2 sp' n ∧ s.closeThinking.2.reasoningItem = none := by
  have hclose : s.closeThinking = s.closeReasoningItem := by
    unfold AgentSseWriter.closeThinking
    rw [hformat]
  rw [hclose]
  unfold closeReasoningItem
  have hslots := h.slots
  cases hreasoning : s.reasoningItem with
  | none =>
    rw [hreasoning] at hslots
    exact ⟨sp, rfl, ⟨hslots, h.next⟩, rfl⟩
  | some r =>
    rw [hreasoning] at hslots
    obtain ⟨sp', hclosed, hslots'⟩ := hslots.closed
    refine ⟨sp', ?_, ⟨hslots', h.next⟩, rfl⟩
    have hmarks : [outputItemDone r.index (reasoningOutputItem r.itemId [s.aggregateReasoning])].flatMap itemMarks =
        [.stated r.number s.aggregateReasoning, .closed r.number] := by
      simp [number]
    change run rules sp ([outputItemDone r.index _].flatMap itemMarks) = some sp'
    rw [hmarks, Spans.run_cons_of (hslots.stated fun _ => rfl), Spans.run_cons_of hclosed, Spans.run_nil]

theorem Items.textItemDone {r : OutputRef} {a : Option ℕ} {ta : String}
    (h : Slots rules sp n (some r.number) a s.aggregateText ta) :
    ∃ sp', Spans.run rules sp ((s.textItemDone r).flatMap itemMarks) = some sp' ∧
      Slots rules sp' n none a s.aggregateText ta := by
  obtain ⟨sp', hclosed, hslots⟩ := h.closed
  have hmarks : (s.textItemDone r).flatMap itemMarks =
      [.stated r.number s.aggregateText, .stated r.number s.aggregateText, .closed r.number] := by
    unfold AgentSseWriter.textItemDone
    simp [OutputRef.number]
  refine ⟨sp', ?_, hslots⟩
  have hstated : Spans.step _ sp (.stated r.number s.aggregateText) = some sp := h.stated fun _ => rfl
  rw [hmarks, Spans.run_cons_of hstated, Spans.run_cons_of hstated, Spans.run_cons_of hclosed, Spans.run_nil]

theorem Items.flushText (h : Items rules s sp n) (hformat : s.format = .openAiResponses) :
    ∃ sp', run rules sp (s.flushText.1.flatMap itemMarks) = some sp' ∧
      Items rules s.flushText.2 sp' n ∧ s.flushText.2.textItem = none := by
  unfold AgentSseWriter.flushText
  dsimp only
  rw [hformat, if_neg (by decide), if_pos rfl, nil_append]
  have hslots := h.slots.swap
  cases htext : s.textItem with
  | none =>
    rw [htext] at hslots
    exact ⟨sp, rfl, ⟨hslots.swap, h.next⟩, rfl⟩
  | some r =>
    rw [htext] at hslots
    obtain ⟨sp', hrun, hslots'⟩ := Items.textItemDone hslots
    exact ⟨sp', hrun, ⟨hslots'.swap, h.next⟩, rfl⟩

theorem Items.toolItem (h : Items rules s sp n) (hn : n < 2 ^ 32) (hreasoning : s.reasoningItem = none)
    (htext : s.textItem = none) (tc : CapturedToolCall) : Itemised rules sp n (s.responsesToolItem x tc) := by
  have hnext := toNat_next h.next hn
  have hslots := h.slots
  rw [hreasoning, htext] at hslots
  have hmarks : ∃ text, (s.responsesToolItem x tc).1.flatMap itemMarks =
      [.opened n, .wrote n text] ++ replicate 2 (.stated n text) ++ [.closed n] := by
    unfold responsesToolItem
    dsimp only
    split
    · refine ⟨customToolInput x tc.argumentsJson, ?_⟩
      simp [hnext]
    · refine ⟨tc.argumentsJson, ?_⟩
      unfold responsesFunctionCallItem
      simp [hnext]
  obtain ⟨text, hmarks⟩ := hmarks
  obtain ⟨sp', hrun, hslots'⟩ := hslots.passed text 2
  refine ⟨sp', n + 1, hmarks ▸ hrun, ⟨?_, succ_next h.next⟩, le_rfl⟩
  unfold responsesToolItem
  rw [hreasoning, htext]
  exact hslots'

theorem Items.toolCall (h : Items rules s sp n) (hn : n < 2 ^ 32) (hformat : s.format = .openAiResponses)
    (tc : CapturedToolCall) : Itemised rules sp n (s.toolCall x tc) := by
  have hpushed : Items rules (s.pushCall tc) sp n := ⟨h.slots, h.next⟩
  obtain ⟨sp1, hrun1, hclosed, hreasoning⟩ := hpushed.closeThinking hformat
  obtain ⟨hcontent, hadvanced⟩ := closeThinking_content (s.pushCall tc)
  have hformat1 : (s.pushCall tc).closeThinking.2.format = .openAiResponses := hadvanced.format.trans hformat
  unfold AgentSseWriter.toolCall
  generalize (s.pushCall tc).closeThinking = closing at hrun1 hclosed hreasoning hformat1 ⊢
  obtain ⟨sp2, hrun2, hflushed, htext⟩ := hclosed.flushText hformat1
  have hreasoning2 : closing.2.flushText.2.reasoningItem = none := hreasoning
  have hformat2 : closing.2.flushText.2.format = .openAiResponses := hformat1
  dsimp only
  generalize closing.2.flushText = flushed at hrun2 hflushed htext hreasoning2 hformat2 ⊢
  obtain ⟨sp3, n', hrun3, hcalled, hle⟩ := hflushed.toolItem (x := x) hn hreasoning2 htext tc
  have hsend : flushed.2.sendCall x tc = flushed.2.responsesToolItem x tc := by
    unfold sendCall
    rw [hformat2]
  rw [hsend]
  refine ⟨sp3, n', ?_, hcalled, hle⟩
  rw [flatMap_append, flatMap_append, append_assoc, run_append_of hrun1, run_append_of hrun2, hrun3]

theorem Items.event (hrules : rules.exclusive = false) (h : Items rules s sp n) (hn : n < 2 ^ 32)
    (hformat : s.format = .openAiResponses) {ev : AgentEvent} (hev : ∀ msg, ev ≠ .error msg)
    (hfresh : rules.stated → Fresh s ev) : Itemised rules sp n (s.event x ev) := by
  cases ev with
  | text t => exact h.textDelta hrules hn hformat hfresh
  | thinking t => exact h.thinkingDelta hrules hn hformat hfresh
  | thinkingComplete =>
    obtain ⟨sp', hrun, hclosed, -⟩ := h.closeThinking hformat
    exact ⟨sp', n, hrun, hclosed, Nat.le_succ n⟩
  | toolCall tc => exact h.toolCall hn hformat tc
  | turnEnded => exact h.same rfl rfl rfl rfl rfl
  | usage input output =>
    change Itemised rules sp n ([], _)
    refine h.same ?_ ?_ ?_ ?_ ?_ <;> split <;> split <;> rfl
  | error msg => exact absurd rfl (hev msg)

theorem Items.events (hrules : rules.exclusive = false) (h : Items rules s sp n) {events : List AgentEvent}
    (hn : n + events.length ≤ 2 ^ 32) (hformat : s.format = .openAiResponses)
    (hev : ∀ ev ∈ events, ∀ msg, ev ≠ .error msg) (hfresh : rules.stated → EachStep (stepped x) Fresh s events) :
    ∃ sp' n', run rules sp ((eventsOf x s events).1.flatMap itemMarks) = some sp' ∧
      Items rules (eventsOf x s events).2 sp' n' :=
  run_events (fun h hn hformat hev hfresh => h.event hrules hn hformat hev hfresh) h hn hformat hev hfresh

theorem Items.done (h : Items rules s sp n) (herror : s.errorMode = false) (htools : s.toolItems = .empty)
    (hclosed : rules.stated → s.reasoningItem = none) :
    ∃ sp', run rules sp ((s.responsesDone x).flatMap itemMarks) = some sp' ∧ sp'.live.entries = [] := by
  have hreasoning : ∃ sp', run rules sp (((s.reasoningItem.map fun r =>
      outputItemDone r.index (reasoningOutputItem r.itemId [])).toList).flatMap itemMarks) = some sp' ∧
        Slots rules sp' n none (s.textItem.map number) s.aggregateReasoning s.aggregateText := by
    have hslots := h.slots
    cases hitem : s.reasoningItem with
    | none =>
      rw [hitem] at hslots
      exact ⟨sp, rfl, hslots⟩
    | some r =>
      rw [hitem] at hslots
      obtain ⟨sp', hclose, hslots'⟩ := hslots.closed
      refine ⟨sp', ?_, hslots'⟩
      have hstated : step rules sp (.stated r.number "") = some sp := hslots.stated fun hstated =>
        absurd (hitem.symm.trans (hclosed hstated)) (by intro heq; cases heq)
      change run rules sp [.stated r.number "", .closed r.number] = some sp'
      rw [Spans.run_cons_of hstated, Spans.run_cons_of hclose, Spans.run_nil]
  obtain ⟨sp1, hrun1, hslots1⟩ := hreasoning
  have htext : ∃ sp', run rules sp1 (((s.textItem.map s.textItemDone).getD []).flatMap itemMarks) = some sp' ∧
      Slots rules sp' n none none s.aggregateText s.aggregateReasoning := by
    cases hitem : s.textItem with
    | none =>
      rw [hitem] at hslots1
      exact ⟨sp1, rfl, hslots1.swap⟩
    | some r =>
      rw [hitem] at hslots1
      exact Items.textItemDone hslots1.swap
  obtain ⟨sp2, hrun2, hslots2⟩ := htext
  refine ⟨sp2, ?_, hslots2.entries_eq_nil⟩
  unfold responsesDone
  rw [herror, if_neg (by decide), htools]
  rw [flatMap_append, flatMap_append, flatMap_append, append_assoc, append_assoc,
    run_append_of hrun1, run_append_of hrun2]
  rfl

end

/-! ## Whole streams -/

/-- A writer before its first event. -/
structure Unused (s : AgentSseWriter) : Prop where
  textBlock : s.textBlock = none
  thinkingBlock : s.thinkingBlock = none
  nextBlockIdx : s.nextBlockIdx = 0
  reasoningItem : s.reasoningItem = none
  textItem : s.textItem = none
  nextOutputIdx : s.nextOutputIdx = 0

theorem startEvents_marks (s : AgentSseWriter) :
    s.startEvents.1.flatMap blockMarks = [] ∧ s.startEvents.1.flatMap itemMarks = [] := by
  unfold startEvents
  split
  · exact ⟨rfl, rfl⟩
  · dsimp only
    split <;> exact ⟨rfl, rfl⟩

theorem Unused.started (h : Unused s) : Unused s.startEvents.2 := by
  unfold startEvents
  split
  · exact h
  · exact ⟨h.textBlock, h.thinkingBlock, h.nextBlockIdx, h.reasoningItem, h.textItem, h.nextOutputIdx⟩

theorem Unused.blocks (h : Unused s) (rules : SpanRules) : Blocks rules s {} 0 := by
  refine ⟨?_, h.nextBlockIdx⟩
  rw [h.thinkingBlock, h.textBlock]
  exact Slots.start rules "" ""

theorem Unused.items (h : Unused s) (rules : SpanRules) : Items rules s {} 0 := by
  refine ⟨?_, h.nextOutputIdx⟩
  rw [h.reasoningItem, h.textItem]
  exact Slots.start rules _ _

theorem wellFormed_of_run {marks : List Mark} (h : run rules {} marks = some sp) (hlive : sp.live.entries = []) :
    Spans.WellFormed rules marks := by
  refine ⟨sp.count, h.trans (congrArg some ?_)⟩
  cases sp
  exact congrArg _ (OrderedMap.ext_entries hlive)

theorem stream_frames (x : Externals) (s : AgentSseWriter) (events : List AgentEvent) :
    (stream x s events).1 = s.startEvents.1 ++ (eventsOf x s.startEvents.2 events).1 ++
      ((eventsOf x s.startEvents.2 events).2.doneEvents x).1 := rfl

variable {events : List AgentEvent}

theorem stream_blocks (hs : Unused s) (hrules : rules.stated = false) (hformat : s.format = .anthropicMessages)
    (hev : ∀ ev ∈ events, ∀ msg, ev ≠ .error msg) (hn : events.length ≤ 2 ^ 32)
    (hapart : rules.exclusive → EachStep (stepped x) Apart s.startEvents.2 events) :
    Spans.WellFormed rules ((stream x s events).1.flatMap blockMarks) := by
  obtain ⟨-, hstarted⟩ := startEvents_content s
  obtain ⟨sp1, n1, hrun1, hblocks⟩ := (hs.started.blocks rules).events (x := x) hrules (by omega)
    (hstarted.format.trans hformat) hev hapart
  obtain ⟨-, hadvanced⟩ := eventsOf_content (x := x) s.startEvents.2 hev
  obtain ⟨sp2, hrun2, hlive⟩ := hblocks.done
  have hdone : ((eventsOf x s.startEvents.2 events).2.doneEvents x).1 =
      (eventsOf x s.startEvents.2 events).2.anthropicDone := by
    have hlast := (hadvanced.format.trans hstarted.format).trans hformat
    unfold doneEvents
    rw [hlast]
  refine wellFormed_of_run ?_ hlive
  rw [stream_frames, flatMap_append, flatMap_append, (startEvents_marks s).1, nil_append,
    run_append_of hrun1, hdone, hrun2]

theorem new_runs (s : AgentSseWriter) (hev : ∀ ev ∈ events, ∀ msg, ev ≠ .error msg) :
    Advanced s (eventsOf x s.startEvents.2 events).2 (said events) (thought events) (calledTools events) := by
  obtain ⟨-, hstarted⟩ := startEvents_content s
  obtain ⟨-, hadvanced⟩ := eventsOf_content (x := x) s.startEvents.2 hev
  have h := hstarted.trans hadvanced
  rwa [String.empty_append, String.empty_append, nil_append] at h

theorem stream_items (hs : Unused s) (hrules : rules.exclusive = false) (hformat : s.format = .openAiResponses)
    (herror : s.errorMode = false) (htools : s.toolItems = .empty) (hev : ∀ ev ∈ events, ∀ msg, ev ≠ .error msg)
    (hn : events.length ≤ 2 ^ 32) (hfresh : rules.stated → EachStep (stepped x) Fresh s.startEvents.2 events ∧
      (eventsOf x s.startEvents.2 events).2.reasoningItem = none) :
    Spans.WellFormed rules ((stream x s events).1.flatMap itemMarks) := by
  obtain ⟨-, hstarted⟩ := startEvents_content s
  obtain ⟨sp1, n1, hrun1, hitems⟩ := (hs.started.items rules).events (x := x) hrules (by omega)
    (hstarted.format.trans hformat) hev fun hstated => (hfresh hstated).1
  have hadvanced := new_runs (x := x) s hev
  obtain ⟨sp2, hrun2, hlive⟩ := hitems.done (x := x) (hadvanced.errorMode.trans herror) (hadvanced.toolItems htools)
    fun hstated => (hfresh hstated).2
  have hdone : ((eventsOf x s.startEvents.2 events).2.doneEvents x).1 =
      (eventsOf x s.startEvents.2 events).2.responsesDone x := by
    have hlast := hadvanced.format.trans hformat
    unfold doneEvents
    rw [hlast]
  refine wellFormed_of_run ?_ hlive
  rw [stream_frames, flatMap_append, flatMap_append, (startEvents_marks s).2, nil_append,
    run_append_of hrun1, hdone, hrun2]

theorem newWriter_unused (format : CursorResponseFormat) (model : String) (created : Number) (inputTokens : UInt32)
    (customToolNames : List String) (namespaces : OrderedMap String ResponseToolNamespace) :
    Unused (newWriter x format model created inputTokens customToolNames namespaces) :=
  ⟨rfl, rfl, rfl, rfl, rfl, rfl⟩

theorem stream_content (s : AgentSseWriter) (hev : ∀ ev ∈ events, ∀ msg, ev ≠ .error msg)
    (herror : s.errorMode = false) (htools : s.toolItems = .empty) :
    Content s.format (stream x s events).1 (said events ++ deferredText (eventsOf x s.startEvents.2 events).2)
      ((calledTools events).map (streamCall x s)) := by
  obtain ⟨hstart, hstarted⟩ := startEvents_content s
  obtain ⟨hevents, -⟩ := eventsOf_content (x := x) s.startEvents.2 hev
  have hadvanced := new_runs (x := x) s hev
  have hdone := doneEvents_content (x := x) _ (hadvanced.errorMode.trans herror) (hadvanced.toolItems htools)
  rw [hstarted.format, hstarted.streamCall_eq] at hevents
  rw [hadvanced.format] at hdone
  have h := (hstart.then hevents).append hdone
  rwa [append_nil] at h

theorem doneEvents_same (s : AgentSseWriter) : (s.doneEvents x).2.format = s.format ∧
    (s.doneEvents x).2.jsonResponse x = s.jsonResponse x := by
  unfold doneEvents
  split
  · exact ⟨rfl, rfl⟩
  · split <;> exact ⟨rfl, rfl⟩
  · exact ⟨rfl, rfl⟩
  · exact ⟨rfl, rfl⟩

theorem exact_total {u : ReadUsage} (h : u.Wrapped) (hlt : u.input + u.output < 2 ^ 32) :
    u.total = u.input + u.output :=
  h.trans (Nat.mod_eq_of_lt hlt)

end CcSwitchServer.CursorEmitter
