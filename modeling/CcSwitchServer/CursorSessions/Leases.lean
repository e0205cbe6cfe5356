import CcSwitchServer.CursorSessions.Registry

/-! # Sessions lent to one owner at a time

What the registry is for: an entry is running, parked or closed; owners are the entries lent out. A move lends
an entry, takes it back, or removes an entry that nobody owns. `Exclusive` says that the entries lent out are
exactly the running ones, each once and each registered. Every move keeps it.
-/

namespace CcSwitchServer.CursorSessions

structure Leases (κ : Type) where
  state : ℕ → Option SessionState
  keyOf : ℕ → Option κ
  registered : κ → Option ℕ
  owners : Multiset ℕ
  /-- The entries that their owner has closed and will unregister. -/
  closing : Multiset (κ × ℕ)
  acquisitions : ℕ → ℕ
  parkings : ℕ → ℕ

variable {κ : Type} [DecidableEq κ]

namespace Leases

open Function

/-- `released` is the entry that its owner is giving back. -/
inductive Move (released : Option ℕ) : Leases κ → Leases κ → Prop
  | keep (l : Leases κ) : Move released l l
  | enter (l : Leases κ) {key : κ} {e : ℕ} (hfree : l.registered key = none) (hfresh : l.state e = none) :
      Move released l
        { l with
          state := update l.state e (some .running)
          keyOf := update l.keyOf e (some key)
          registered := update l.registered key (some e)
          owners := e ::ₘ l.owners }
  | acquire (l : Leases κ) {key : κ} {e : ℕ} (hparked : l.state e = some .awaitingToolResult)
      (hkey : l.registered key = some e) :
      Move released l
        { l with
          state := update l.state e (some .running)
          owners := e ::ₘ l.owners
          acquisitions := update l.acquisitions e (l.acquisitions e + 1) }
  | park (l : Leases κ) {e : ℕ} (hreleased : released = some e) (howned : e ∈ l.owners) :
      Move released l
        { l with
          state := update l.state e (some .awaitingToolResult)
          owners := l.owners.erase e
          parkings := update l.parkings e (l.parkings e + 1) }
  | close (l : Leases κ) {key : κ} {e : ℕ} (hreleased : released = some e) (howned : e ∈ l.owners) :
      Move released l
        { l with
          state := update l.state e (some .closed)
          owners := l.owners.erase e
          closing := (key, e) ::ₘ l.closing }
  | evict (l : Leases κ) {key : κ} {e : ℕ} (hidle : l.state e ≠ some .running)
      (hkey : l.registered key = some e) :
      Move released l
        { l with
          state := update l.state e (some .closed)
          registered := update l.registered key none }
  | unregister (l : Leases κ) {key : κ} {e : ℕ} (hclosing : (key, e) ∈ l.closing)
      (hkey : l.registered key = some e) :
      Move released l
        { l with
          registered := update l.registered key none
          closing := l.closing.erase (key, e) }
  | gone (l : Leases κ) {key : κ} {e : ℕ} (hclosing : (key, e) ∈ l.closing) :
      Move released l { l with closing := l.closing.erase (key, e) }

/-- The entries lent out are the running ones, and a parking is acquired once. -/
structure Exclusive (l : Leases κ) : Prop where
  nodup : l.owners.Nodup
  running : ∀ e, e ∈ l.owners ↔ l.state e = some .running
  known : ∀ {k e}, l.registered k = some e → l.keyOf e = some k ∧ l.state e ≠ none
  held : ∀ {e}, l.state e = some .running → ∃ k, l.keyOf e = some k ∧ l.registered k = some e
  closing : ∀ {k e}, (k, e) ∈ l.closing → l.state e = some .closed
  parked : ∀ {e}, l.state e = some .awaitingToolResult → l.parkings e = l.acquisitions e + 1
  unparked : ∀ {e}, l.state e ≠ some .awaitingToolResult → l.state e ≠ some .closed → l.parkings e = l.acquisitions e
  bounds : ∀ e, l.acquisitions e ≤ l.parkings e ∧ l.parkings e ≤ l.acquisitions e + 1

variable {l l' : Leases κ}

omit [DecidableEq κ] in
theorem mem_erase_owners (h : Exclusive l) (e e' : ℕ) :
    e' ∈ l.owners.erase e ↔ e' ≠ e ∧ l.state e' = some .running := by
  rw [h.nodup.mem_erase_iff, h.running]

theorem Exclusive.enter (h : Exclusive l) {key : κ} {e : ℕ} (hfree : l.registered key = none)
    (hfresh : l.state e = none) :
    Exclusive { l with
        state := update l.state e (some .running)
        keyOf := update l.keyOf e (some key)
        registered := update l.registered key (some e)
        owners := e ::ₘ l.owners } where
  nodup := by
    refine Multiset.nodup_cons.mpr ⟨fun hmem => ?_, h.nodup⟩
    have hrun := (h.running e).mp hmem
    rw [hfresh] at hrun
    cases hrun
  running e' := by
    rw [Multiset.mem_cons, h.running]
    by_cases he : e' = e
    · simp [he]
    · simp [he]
  known := by
    intro k e' hk
    dsimp only at hk ⊢
    by_cases hkey : k = key
    · subst hkey
      rw [update_self] at hk
      cases hk
      simp
    · rw [update_of_ne hkey] at hk
      obtain ⟨hof, hsome⟩ := h.known hk
      have he : e' ≠ e := by
        rintro rfl
        exact hsome hfresh
      rw [update_of_ne he, update_of_ne he]
      exact ⟨hof, hsome⟩
  held := by
    intro e' hrun
    dsimp only at hrun ⊢
    by_cases he : e' = e
    · subst he
      exact ⟨key, by simp, by simp⟩
    · rw [update_of_ne he] at hrun
      obtain ⟨k, hof, hreg⟩ := h.held hrun
      have hkey : k ≠ key := by
        rintro rfl
        rw [hfree] at hreg
        cases hreg
      exact ⟨k, by rw [update_of_ne he, hof], by rw [update_of_ne hkey, hreg]⟩
  closing := by
    intro k e' hmem
    have hclosed := h.closing hmem
    have he : e' ≠ e := by
      rintro rfl
      rw [hfresh] at hclosed
      cases hclosed
    dsimp only
    rw [update_of_ne he, hclosed]
  parked := by
    intro e' hpark
    dsimp only at hpark
    by_cases he : e' = e
    · subst he
      simp at hpark
    · rw [update_of_ne he] at hpark
      exact h.parked hpark
  unparked := by
    intro e' hpark hclosed
    dsimp only at hpark hclosed
    by_cases he : e' = e
    · subst he
      exact h.unparked (by simp [hfresh]) (by simp [hfresh])
    · rw [update_of_ne he] at hpark hclosed
      exact h.unparked hpark hclosed
  bounds := h.bounds

omit [DecidableEq κ] in
theorem Exclusive.acquire (h : Exclusive l) {key : κ} {e : ℕ}
    (hparked : l.state e = some .awaitingToolResult) (hkey : l.registered key = some e) :
    Exclusive { l with
        state := update l.state e (some .running)
        owners := e ::ₘ l.owners
        acquisitions := update l.acquisitions e (l.acquisitions e + 1) } where
  nodup := by
    refine Multiset.nodup_cons.mpr ⟨fun hmem => ?_, h.nodup⟩
    have hrun := (h.running e).mp hmem
    rw [hparked] at hrun
    cases hrun
  running e' := by
    rw [Multiset.mem_cons, h.running]
    by_cases he : e' = e
    · simp [he]
    · simp [he]
  known := by
    intro k e' hk
    obtain ⟨hof, hsome⟩ := h.known hk
    refine ⟨hof, ?_⟩
    dsimp only
    by_cases he : e' = e
    · simp [he]
    · rwa [update_of_ne he]
  held := by
    intro e' hrun
    dsimp only at hrun
    by_cases he : e' = e
    · subst he
      exact ⟨key, (h.known hkey).1, hkey⟩
    · rw [update_of_ne he] at hrun
      exact h.held hrun
  closing := by
    intro k e' hmem
    have hclosed := h.closing hmem
    have he : e' ≠ e := by
      rintro rfl
      rw [hparked] at hclosed
      cases hclosed
    dsimp only
    rw [update_of_ne he, hclosed]
  parked := by
    intro e' hpark
    dsimp only at hpark ⊢
    by_cases he : e' = e
    · subst he
      simp at hpark
    · rw [update_of_ne he] at hpark ⊢
      exact h.parked hpark
  unparked := by
    intro e' hpark hclosed
    dsimp only at hpark hclosed ⊢
    by_cases he : e' = e
    · subst he
      rw [update_self]
      exact h.parked hparked
    · rw [update_of_ne he] at hpark hclosed ⊢
      exact h.unparked hpark hclosed
  bounds e' := by
    dsimp only
    by_cases he : e' = e
    · subst he
      rw [update_self, h.parked hparked]
      omega
    · rw [update_of_ne he]
      exact h.bounds e'

variable {e : ℕ} {released : Option ℕ}

section
variable (h : Exclusive l)
include h

omit [DecidableEq κ] in
theorem Exclusive.giveBack (howned : e ∈ l.owners) (state : SessionState)
    (hstate : state ≠ .running) (closing : Multiset (κ × ℕ))
    (hclosing : ∀ {k e'}, (k, e') ∈ closing → (k, e') ∈ l.closing ∨ e' = e ∧ state = .closed) :
    Exclusive { l with
        state := update l.state e (some state)
        owners := l.owners.erase e
        closing := closing
        parkings :=
          if state = .awaitingToolResult then update l.parkings e (l.parkings e + 1) else l.parkings } where
  nodup := h.nodup.erase e
  running e' := by
    rw [mem_erase_owners h]
    by_cases he : e' = e
    · subst he
      simp [hstate]
    · simp [he]
  known := by
    intro k e' hk
    obtain ⟨hof, hsome⟩ := h.known hk
    refine ⟨hof, ?_⟩
    dsimp only
    by_cases he : e' = e
    · simp [he]
    · rwa [update_of_ne he]
  held := by
    intro e' hrun
    dsimp only at hrun
    by_cases he : e' = e
    · subst he
      rw [update_self] at hrun
      exact absurd (Option.some.inj hrun) hstate
    · rw [update_of_ne he] at hrun
      exact h.held hrun
  closing := by
    intro k e' hmem
    dsimp only at hmem ⊢
    by_cases he : e' = e
    · subst he
      rcases hclosing hmem with hold | ⟨_, hst⟩
      · have hclosed := h.closing hold
        rw [(h.running e').mp howned] at hclosed
        cases hclosed
      · rw [update_self, hst]
    · rcases hclosing hmem with hold | ⟨heq, _⟩
      · rw [update_of_ne he]
        exact h.closing hold
      · exact absurd heq he
  parked := by
    intro e' hpark
    dsimp only at hpark ⊢
    have hrun := h.unparked (e := e) (by simp [(h.running e).mp howned]) (by simp [(h.running e).mp howned])
    by_cases he : e' = e
    · subst he
      rw [update_self] at hpark
      rw [if_pos (Option.some.inj hpark), update_self, hrun]
    · rw [update_of_ne he] at hpark
      split
      · rw [update_of_ne he]
        exact h.parked hpark
      · exact h.parked hpark
  unparked := by
    intro e' hpark hclosed
    dsimp only at hpark hclosed ⊢
    by_cases he : e' = e
    · subst he
      rw [update_self] at hpark hclosed
      cases state with
      | running => exact absurd rfl hstate
      | awaitingToolResult => exact absurd rfl hpark
      | closed => exact absurd rfl hclosed
    · rw [update_of_ne he] at hpark hclosed
      split
      · rw [update_of_ne he]
        exact h.unparked hpark hclosed
      · exact h.unparked hpark hclosed
  bounds e' := by
    dsimp only
    have hrun := h.unparked (e := e) (by simp [(h.running e).mp howned]) (by simp [(h.running e).mp howned])
    have hbounds := h.bounds e'
    split
    · by_cases he : e' = e
      · subst he
        rw [update_self]
        omega
      · rwa [update_of_ne he]
    · exact hbounds

theorem Exclusive.leave {key : κ} (hidle : l.state e ≠ some .running)
    (hkey : l.registered key = some e) :
    Exclusive { l with
        state := update l.state e (some .closed)
        registered := update l.registered key none } where
  nodup := h.nodup
  running e' := by
    dsimp only
    rw [h.running]
    by_cases he : e' = e
    · subst he
      simp [hidle]
    · rw [update_of_ne he]
  known := by
    intro k e' hk
    dsimp only at hk ⊢
    by_cases hkk : k = key
    · subst hkk
      simp at hk
    · rw [update_of_ne hkk] at hk
      obtain ⟨hof, hsome⟩ := h.known hk
      refine ⟨hof, ?_⟩
      by_cases he : e' = e
      · simp [he]
      · rwa [update_of_ne he]
  held := by
    intro e' hrun
    dsimp only at hrun ⊢
    by_cases he : e' = e
    · subst he
      simp at hrun
    · rw [update_of_ne he] at hrun
      obtain ⟨k, hof, hreg⟩ := h.held hrun
      have hkk : k ≠ key := by
        rintro rfl
        rw [hkey] at hreg
        exact he (Option.some.inj hreg).symm
      exact ⟨k, hof, by rw [update_of_ne hkk, hreg]⟩
  closing := by
    intro k e' hmem
    dsimp only
    by_cases he : e' = e
    · simp [he]
    · rw [update_of_ne he]
      exact h.closing hmem
  parked := by
    intro e' hpark
    dsimp only at hpark
    by_cases he : e' = e
    · subst he
      simp at hpark
    · rw [update_of_ne he] at hpark
      exact h.parked hpark
  unparked := by
    intro e' hpark hclosed
    dsimp only at hpark hclosed
    by_cases he : e' = e
    · subst he
      simp at hclosed
    · rw [update_of_ne he] at hpark hclosed
      exact h.unparked hpark hclosed
  bounds := h.bounds

theorem Exclusive.closingErased (p : κ × ℕ) : Exclusive { l with closing := l.closing.erase p } :=
  { h with closing := fun hmem => h.closing (Multiset.mem_of_mem_erase hmem) }

theorem Exclusive.move (hm : Move released l l') : Exclusive l' := by
  cases hm with
  | keep => exact h
  | enter hfree hfresh => exact h.enter hfree hfresh
  | acquire hparked hkey => exact h.acquire hparked hkey
  | park _ howned =>
    exact h.giveBack howned .awaitingToolResult (by decide) l.closing .inl
  | @close key e _ howned =>
    refine h.giveBack howned .closed (by decide) ((key, e) ::ₘ l.closing) ?_
    intro k e' hmem
    rcases Multiset.mem_cons.mp hmem with heq | hmem
    · cases heq
      exact .inr ⟨rfl, rfl⟩
    · exact .inl hmem
  | evict hidle hkey => exact h.leave hidle hkey
  | @unregister key e hclosing hkey =>
    have hclosed := h.closing hclosing
    have hleft := (h.leave (by rw [hclosed]; decide) hkey).closingErased (key, e)
    rw [← hclosed, update_eq_self] at hleft
    exact hleft
  | gone hclosing => exact h.closingErased _

end

theorem Move.stays_running (hm : Move released l l') (hrun : l.state e = some .running) :
    l'.state e = some .running ∨ released = some e := by
  cases hm with
  | keep => exact .inl hrun
  | @enter key e' _ hfresh =>
    have he : e ≠ e' := by
      rintro rfl
      rw [hfresh] at hrun
      cases hrun
    exact .inl ((update_of_ne he _ _).trans hrun)
  | @acquire key e' hparked =>
    have he : e ≠ e' := by
      rintro rfl
      rw [hparked] at hrun
      cases hrun
    exact .inl ((update_of_ne he _ _).trans hrun)
  | @park e' hreleased | @close key e' hreleased =>
    by_cases he : e = e'
    · exact .inr (he ▸ hreleased)
    · exact .inl ((update_of_ne he _ _).trans hrun)
  | @evict key e' hidle =>
    have he : e ≠ e' := by
      rintro rfl
      exact hidle hrun
    exact .inl ((update_of_ne he _ _).trans hrun)
  | unregister | gone => exact .inl hrun

theorem Exclusive.stays_closed (h : Exclusive l) (hm : Move released l l') (hclosed : l.state e = some .closed) :
    l'.state e = some .closed := by
  have howned : ∀ {e'}, e' ∈ l.owners → e ≠ e' := by
    rintro e' hmem rfl
    rw [(h.running e).mp hmem] at hclosed
    cases hclosed
  cases hm with
  | keep => exact hclosed
  | @enter key e' _ hfresh =>
    have he : e ≠ e' := by
      rintro rfl
      rw [hfresh] at hclosed
      cases hclosed
    exact (update_of_ne he _ _).trans hclosed
  | @acquire key e' hparked =>
    have he : e ≠ e' := by
      rintro rfl
      rw [hparked] at hclosed
      cases hclosed
    exact (update_of_ne he _ _).trans hclosed
  | park _ hmem | close _ hmem => exact (update_of_ne (howned hmem) _ _).trans hclosed
  | @evict key e' =>
    by_cases he : e = e'
    · subst he
      exact update_self _ _ _
    · exact (update_of_ne he _ _).trans hclosed
  | unregister | gone => exact hclosed

end Leases

end CcSwitchServer.CursorSessions
