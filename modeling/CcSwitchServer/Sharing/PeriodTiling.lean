import CcSwitchServer.Sharing.RebaseWindows

/-! # Token periods tile the time

The windows of a policy are the cells between its boundaries.
-/

namespace CcSwitchServer.Sharing
open Foundations Calendar

/-! ## Windows around an instant -/

def TokenPeriodWindow.Contains (w : TokenPeriodWindow) (t : ℤ) : Prop :=
  (∀ s ∈ w.startsAtMs, s ≤ t) ∧ ∀ e ∈ w.endsAtMs, t < e

/-- `w` is the window of `nowMs` and of all its instants, and the next one begins where it ends. -/
structure Tiles (policy : ShareUserPolicy) (nowMs : ℤ) (w : TokenPeriodWindow) : Prop where
  window : tokenPeriodWindow policy nowMs = .ok w
  contains : w.Contains nowMs
  bounded : policy.tokenPeriod ≠ .lifetime → ∃ s e, w = ⟨some s, some e⟩
  same : ∀ t, (policy.tokenPeriod = .lifetime → IsDate (t / dayMs)) → w.Contains t → tokenPeriodWindow policy t = .ok w
  next : ∀ e ∈ w.endsAtMs, ∃ w', tokenPeriodWindow policy e = .ok w' ∧ w'.startsAtMs = some e
  day : policy.tokenPeriod = .day → ∀ wall, w.startsAtMs = some (utcDayStartMs wall nowMs)
  week : policy.tokenPeriod = .week → ∀ wall, w.startsAtMs = some (utcWeekStartMs wall nowMs)
  calendarMonth : policy.tokenPeriod = .calendarMonth →
    ∀ wall, w.startsAtMs = some (utcCalendarMonthStartMs wall nowMs)

/-! ## Instants that have a window -/

/-- A fixed period has an anchor that is not ahead. -/
def AnchoredBy (policy : ShareUserPolicy) (t : ℤ) : Prop :=
  policy.tokenPeriod.requiresAnchor = true →
    ∃ anchor, policy.tokenPeriodAnchorAtMs = some anchor ∧ 0 ≤ anchor ∧ anchor ≤ t

variable {policy : ShareUserPolicy}

theorem anchoredBy_validated {validatedAtMs : ℤ}
    (hvalid : validateUserPolicy policy validatedAtMs = .ok ()) : AnchoredBy policy validatedAtMs := by
  intro hrequired
  unfold validateUserPolicy at hvalid
  rw [hrequired] at hvalid
  cases hstored : policy.tokenPeriodAnchorAtMs with
  | none =>
    rw [hstored] at hvalid
    dsimp only at hvalid
    split at hvalid
    · cases hvalid
    · obtain ⟨_, -, hvalid⟩ := bind_eq_ok.mp hvalid
      split at hvalid <;> cases hvalid
  | some anchor =>
    rw [hstored] at hvalid
    dsimp only at hvalid
    have hperiod : (do
        ensure (0 ≤ anchor) .negativeAnchor
        ensure (anchor % minuteMs = 0) .anchorPrecision
        ensure (anchor ≤ validatedAtMs) .futureAnchor : Except PeriodError Unit) = .ok () := by
      split at hvalid
      · exact hvalid
      · obtain ⟨_, -, hvalid⟩ := bind_eq_ok.mp hvalid
        split at hvalid
        · exact hvalid
        · cases hvalid
    obtain ⟨_, hnonneg, hperiod⟩ := bind_eq_ok.mp hperiod
    obtain ⟨_, -, hpast⟩ := bind_eq_ok.mp hperiod
    exact ⟨anchor, rfl, ensure_eq_ok.mp hnonneg, ensure_eq_ok.mp hpast⟩

theorem anchoredBy_of_valid {validatedAtMs nowMs : ℤ}
    (hvalid : validateUserPolicy policy validatedAtMs = .ok ())
    (hanchor : ∀ anchor ∈ policy.tokenPeriodAnchorAtMs, anchor ≤ nowMs) : AnchoredBy policy nowMs := by
  intro hrequired
  obtain ⟨anchor, hstored, hnonneg, -⟩ := anchoredBy_validated hvalid hrequired
  exact ⟨anchor, hstored, hnonneg, hanchor anchor hstored⟩

def Supported (t : ℤ) : Prop := -1000 ≤ t / dayMs ∧ t / dayMs ≤ 3000000

theorem isDate_of_bounds {day : ℤ} (hlow : -1100 ≤ day) (hhigh : day ≤ 3000100) : IsDate day := by
  unfold IsDate yearStart leapYears
  omega

theorem inI64_of_bounds {n : ℤ} (hlow : -(2 ^ 62) ≤ n) (hhigh : n ≤ 2 ^ 62) : InI64 n := by
  unfold InI64 i64Max
  omega

theorem inI128_of_bounds {n : ℤ} (hlow : -(2 ^ 62) ≤ n) (hhigh : n ≤ 2 ^ 62) : InI128 n := by
  unfold InI128 i128Max
  omega

theorem fixedWindow_succeeds {anchor duration t : ℤ} (hanchor : 0 ≤ anchor) (hle : anchor ≤ t)
    (hpos : 0 < duration) (hduration : duration ≤ 30 * dayMs) (ht : Supported t) :
    ∃ w, fixedWindow anchor duration t = .ok w := by
  have hdiv := Int.mul_ediv_add_emod (t - anchor) duration
  have hnonneg := Int.emod_nonneg (t - anchor) hpos.ne'
  have hlt := Int.emod_lt_of_pos (t - anchor) hpos
  rw [mul_comm] at hdiv
  unfold Supported dayMs minuteMs at ht
  unfold dayMs minuteMs at hduration
  unfold fixedWindow
  dsimp only
  generalize (t - anchor) / duration * duration = length at *
  rw [ensure_of (inI128_of_bounds (by omega) (by omega)), ok_bind,
    ensure_of (inI128_of_bounds (by omega) (by omega)), ok_bind,
    ensure_of (inI128_of_bounds (by omega) (by omega)), ok_bind,
    ensure_of (inI64_of_bounds (by omega) (by omega)), ok_bind,
    ensure_of (inI64_of_bounds (by omega) (by omega)), ok_bind]
  exact ⟨_, rfl⟩

/-- Every instant of the supported range has its window. -/
theorem tokenPeriodWindow_succeeds {t : ℤ}
    (hcycle : policy.tokenPeriod ≠ .accountReset) (hanchored : AnchoredBy policy t) (ht : Supported t) :
    ∃ w, tokenPeriodWindow policy t = .ok w := by
  unfold tokenPeriodWindow
  have hdate : IsDate (t / dayMs) := by
    unfold Supported at ht
    exact isDate_of_bounds (by omega) (by omega)
  have hday := ht
  unfold Supported at hday
  dsimp only
  rw [ensure_of hdate, ok_bind]
  cases hperiod : policy.tokenPeriod with
  | accountReset => exact absurd hperiod hcycle
  | lifetime => exact ⟨_, rfl⟩
  | day => exact ⟨_, rfl⟩
  | week =>
    have hbounds := daysFromMonday_bounds (t / dayMs)
    rw [ensure_of (isDate_of_bounds (by omega) (by omega)), ok_bind]
    exact ⟨_, rfl⟩
  | calendarMonth =>
    have hmonth := monthOf_bounds (t / dayMs)
    have hstart := monthStart_bounds (monthOf (t / dayMs))
    have hnext := monthStart_bounds (monthOf (t / dayMs) + 1)
    dsimp only
    rw [ensure_of (isDate_of_bounds (by omega) (by omega)), ok_bind,
      ensure_of (isDate_of_bounds (by omega) (by omega)), ok_bind]
    exact ⟨_, rfl⟩
  | sevenDays =>
    obtain ⟨anchor, hanchor, hnonneg, hle⟩ := hanchored (by rw [hperiod]; rfl)
    rw [hanchor]
    exact fixedWindow_succeeds hnonneg hle (by decide) (by decide) ht
  | thirtyDays =>
    obtain ⟨anchor, hanchor, hnonneg, hle⟩ := hanchored (by rw [hperiod]; rfl)
    rw [hanchor]
    exact fixedWindow_succeeds hnonneg hle (by decide) (by decide) ht

/-! ## Cells -/

section
variable {policy : ShareUserPolicy}

theorem window_of_cell (hp : Renewing policy) {t i : ℤ} (hanchored : AnchoredBy policy t)
    (ht : Supported t) (hlow : boundary policy i ≤ t) (hhigh : t < boundary policy (i + 1)) :
    tokenPeriodWindow policy t = .ok ⟨some (boundary policy i), some (boundary policy (i + 1))⟩ := by
  obtain ⟨w, hw⟩ := tokenPeriodWindow_succeeds hp.2 hanchored ht
  obtain ⟨i', rfl, hlow', hhigh'⟩ := window_cell hp hw
  have hmono := boundary_strictMono policy
  have hle : i < i' + 1 := hmono.lt_iff_lt.mp (by omega)
  have hge : i' < i + 1 := hmono.lt_iff_lt.mp (by omega)
  have heq : i' = i := by omega
  rw [hw, heq]

theorem boundary_succ_le (hp : Renewing policy) (i : ℤ) :
    boundary policy (i + 1) ≤ boundary policy i + 44 * dayMs := by
  have hstart := monthStart_bounds i
  have hnext := monthStart_bounds (i + 1)
  unfold boundary dayMs minuteMs
  cases hperiod : policy.tokenPeriod with
  | accountReset => exact absurd hperiod hp.2
  | lifetime => exact absurd hperiod hp.1
  | day | week | calendarMonth | sevenDays | thirtyDays => dsimp only; omega

theorem anchor_le_boundary {anchor i t : ℤ} (hrequired : policy.tokenPeriod.requiresAnchor = true)
    (hanchor : policy.tokenPeriodAnchorAtMs = some anchor) (hle : anchor ≤ t)
    (hhigh : t < boundary policy (i + 1)) : anchor ≤ boundary policy i := by
  unfold boundary dayMs minuteMs at *
  rw [hanchor] at hhigh ⊢
  cases hperiod : policy.tokenPeriod with
  | sevenDays | thirtyDays =>
    rw [hperiod] at hhigh
    dsimp only [Option.getD_some] at hhigh ⊢
    omega
  | accountReset | lifetime | day | week | calendarMonth =>
    rw [hperiod] at hrequired
    cases hrequired

end

/-! ## The tiling -/

section
variable {policy : ShareUserPolicy} {nowMs : ℤ} {w : TokenPeriodWindow}

theorem tiles_lifetime (hlifetime : policy.tokenPeriod = .lifetime)
    (hw : tokenPeriodWindow policy nowMs = .ok w) : Tiles policy nowMs w := by
  have hall : ∀ t, IsDate (t / dayMs) → tokenPeriodWindow policy t = .ok ⟨none, none⟩ := by
    intro t ht
    unfold tokenPeriodWindow
    dsimp only
    rw [ensure_of ht, ok_bind, hlifetime]
    rfl
  have hnow : IsDate (nowMs / dayMs) := by
    obtain ⟨_, hdate, -⟩ := bind_eq_ok.mp hw
    exact ensure_eq_ok.mp hdate
  have hunbounded : w = ⟨none, none⟩ := by
    rw [hall nowMs hnow] at hw
    cases hw
    rfl
  subst hunbounded
  refine ⟨hw, ⟨(fun _ h => nomatch h), (fun _ h => nomatch h)⟩, fun h => absurd hlifetime h,
    fun t ht _ => hall t (ht hlifetime), (fun _ h => nomatch h), fun h wall => day_start h hw,
    fun h wall => week_start_ms h hw, fun h wall => calendarMonth_start h hw⟩

/-- Every instant of a cell has it as its window, and the next cell begins where it ends. -/
theorem tiles_renewing (hp : Renewing policy) (hanchored : AnchoredBy policy nowMs)
    (hlow : 0 ≤ nowMs / dayMs) (hhigh : nowMs / dayMs ≤ 2940000)
    (hw : tokenPeriodWindow policy nowMs = .ok w) : Tiles policy nowMs w := by
  obtain ⟨i, rfl, hstart, hend⟩ := window_cell hp hw
  have hlength := boundary_succ_le hp i
  have hnext := boundary_lt policy (i + 1)
  have hafter : ∀ t, boundary policy i ≤ t → AnchoredBy policy t := by
    intro t ht hrequired
    obtain ⟨anchor, hanchor, hnonneg, hle⟩ := hanchored hrequired
    exact ⟨anchor, hanchor, hnonneg, (anchor_le_boundary hrequired hanchor hle hend).trans ht⟩
  have hsupported : ∀ t, boundary policy i ≤ t → t ≤ boundary policy (i + 1) → Supported t := by
    intro t ht ht'
    unfold Supported dayMs minuteMs at *
    omega
  refine ⟨hw, ⟨?_, ?_⟩, fun _ => ⟨_, _, rfl⟩, ?_, ?_, fun h wall => day_start h hw,
    fun h wall => week_start_ms h hw, fun h wall => calendarMonth_start h hw⟩
  · rintro s ⟨⟩
    exact hstart
  · rintro e ⟨⟩
    exact hend
  · rintro t - ⟨hfrom, hto⟩
    have hge := hfrom _ rfl
    have hlt := hto _ rfl
    exact window_of_cell hp (hafter t hge) (hsupported t hge hlt.le) hge hlt
  · rintro e ⟨⟩
    have hge := (boundary_lt policy i).le
    exact ⟨_, window_of_cell hp (hafter _ hge) (hsupported _ hge (le_refl _)) (le_refl _) hnext, rfl⟩

end

/-- Every accepted policy that is not counted by an account's cycle tiles the time from its anchor to the
year 10000. -/
theorem token_period_windows_tile {policy : ShareUserPolicy} {validatedAtMs nowMs : ℤ}
    (hvalid : validateUserPolicy policy validatedAtMs = .ok ())
    (hcycle : policy.tokenPeriod ≠ .accountReset) (hnow : 0 ≤ nowMs) (hyear : nowMs / dayMs < yearStart 10000)
    (hanchor : ∀ anchor ∈ policy.tokenPeriodAnchorAtMs, anchor ≤ nowMs) :
    ∃ w, Tiles policy nowMs w := by
  have hanchored := anchoredBy_of_valid hvalid hanchor
  have hday : 0 ≤ nowMs / dayMs ∧ nowMs / dayMs ≤ 2940000 := by
    unfold yearStart leapYears at hyear
    unfold dayMs minuteMs at *
    omega
  have hsupported : Supported nowMs := by
    unfold Supported
    omega
  obtain ⟨w, hw⟩ := tokenPeriodWindow_succeeds hcycle hanchored hsupported
  by_cases hlifetime : policy.tokenPeriod = .lifetime
  · exact ⟨w, tiles_lifetime hlifetime hw⟩
  · exact ⟨w, tiles_renewing ⟨hlifetime, hcycle⟩ hanchored hday.1 hday.2 hw⟩

/-- The last day of February 2024. -/
theorem token_period_windows_tile_leap_day : ∃ w, Tiles { tokenPeriod := .calendarMonth } 1709164800000 w :=
  @token_period_windows_tile _ 0 _ rfl (by decide) (by decide) (by decide) (fun _ h => nomatch h)

/-- An account's cycle is accepted and has no window here; a lifetime has one without bounds. -/
theorem token_period_windows_not_tiled :
    (∃ (policy : ShareUserPolicy) (nowMs : ℤ), validateUserPolicy policy nowMs = .ok () ∧ 0 ≤ nowMs ∧
        nowMs / dayMs < yearStart 10000 ∧ (∀ anchor ∈ policy.tokenPeriodAnchorAtMs, anchor ≤ nowMs) ∧
        ¬∃ w, Tiles policy nowMs w) ∧
      tokenPeriodWindow { tokenPeriod := .lifetime } 0 = .ok ⟨none, none⟩ := by
  refine ⟨⟨{ tokenPeriod := .accountReset }, 0, rfl, le_refl 0, by decide, (fun _ h => nomatch h), ?_⟩, rfl⟩
  rintro ⟨w, htiles⟩
  have herror : tokenPeriodWindow { tokenPeriod := .accountReset } 0 = .error .accountReset := rfl
  have hwindow := herror.symm.trans htiles.window
  cases hwindow

end CcSwitchServer.Sharing
