import CcSwitchServer.Foundations.Calendar
import CcSwitchServer.ValuePricing.Identity

/-! # Token periods (`src/domain/sharing/token_period.rs`)

The dates of the `chrono` crate run from January of year -262143 to December of year 262142.
-/

namespace CcSwitchServer.Sharing
open Foundations Calendar

inductive AppKind
  | claude
  | codex
  | gemini
deriving DecidableEq, Repr

inductive ShareTokenPeriod
  | lifetime
  | day
  | week
  | sevenDays
  | calendarMonth
  | thirtyDays
  | accountReset
deriving DecidableEq, Repr

/-- The limits of a user and the period that they are counted in. -/
structure ShareUserPolicy where
  parallelLimit : Option ℕ := none
  tokenLimit : Option ℕ := none
  valueQuota : Option ValuePricing.ValueQuota := none
  tokenPeriod : ShareTokenPeriod := .lifetime
  tokenPeriodAnchorAtMs : Option ℤ := none
  expiresAt : Option ℤ := none
  allowedApps : List AppKind := []
deriving DecidableEq, Repr

def minuteMs : ℤ := 60000
def dayMs : ℤ := 24 * 60 * minuteMs

structure TokenPeriodWindow where
  startsAtMs : Option ℤ
  endsAtMs : Option ℤ
deriving DecidableEq, Repr

inductive PeriodError
  | exclusiveLimits
  | value (error : ValuePricing.ValueError)
  | fixedAnchorRequired
  | anchorNotAllowed
  | negativeAnchor
  | anchorPrecision
  | futureAnchor
  | unsupportedTime
  | accountReset
  | anchorRequired
  | multiplicationOverflow
  | startOverflow
  | endOverflow
  | startOutOfRange
  | endOutOfRange
  | panic
deriving DecidableEq, Repr

namespace ShareTokenPeriod

def requiresAnchor (p : ShareTokenPeriod) : Bool := p = .sevenDays ∨ p = .thirtyDays

def durationMs : ShareTokenPeriod → Option ℤ
  | .sevenDays => some (7 * dayMs)
  | .thirtyDays => some (30 * dayMs)
  | _ => none

end ShareTokenPeriod

variable (policy : ShareUserPolicy)

def validateUserPolicy (nowMs : ℤ) : Except PeriodError Unit := do
  match policy.valueQuota with
  | none => pure ()
  | some quota =>
    ensure (policy.tokenLimit = none) .exclusiveLimits
    match quota.limitPicos with
    | .ok _ => pure ()
    | .error e => .error (.value e)
  match policy.tokenPeriod.requiresAnchor, policy.tokenPeriodAnchorAtMs with
  | true, none => .error .fixedAnchorRequired
  | false, some _ => .error .anchorNotAllowed
  | true, some anchor => do
    ensure (0 ≤ anchor) .negativeAnchor
    ensure (anchor % minuteMs = 0) .anchorPrecision
    ensure (anchor ≤ nowMs) .futureAnchor
  | false, none => pure ()

/-- The days that are dates of `chrono`. -/
def IsDate (day : ℤ) : Prop := yearStart (-262143) ≤ day ∧ day < yearStart 262143

instance (day : ℤ) : Decidable (IsDate day) := inferInstanceAs (Decidable (_ ∧ _))

def InI64 (n : ℤ) : Prop := -i64Max - 1 ≤ n ∧ n ≤ i64Max

instance (n : ℤ) : Decidable (InI64 n) := inferInstanceAs (Decidable (_ ∧ _))

def InI128 (n : ℤ) : Prop := -(i128Max : ℤ) - 1 ≤ n ∧ n ≤ i128Max

instance (n : ℤ) : Decidable (InI128 n) := inferInstanceAs (Decidable (_ ∧ _))

/-- The window of `duration` from the anchor that contains the instant. -/
def fixedWindow (anchor duration nowMs : ℤ) : Except PeriodError TokenPeriodWindow := do
  let index := (nowMs - anchor) / duration
  ensure (InI128 (index * duration)) .multiplicationOverflow
  ensure (InI128 (anchor + index * duration)) .startOverflow
  let start := anchor + index * duration
  ensure (InI128 (start + duration)) .endOverflow
  ensure (InI64 start) .startOutOfRange
  ensure (InI64 (start + duration)) .endOutOfRange
  pure ⟨some start, some (start + duration)⟩

def calendarWindow (start stop : ℤ) : TokenPeriodWindow := ⟨some (start * dayMs), some (stop * dayMs)⟩

/-- A date outside of the calendar is an error, or a panic where the code expects a date. -/
def tokenPeriodWindow (nowMs : ℤ) : Except PeriodError TokenPeriodWindow := do
  let day := nowMs / dayMs
  ensure (IsDate day) .unsupportedTime
  match policy.tokenPeriod with
  | .accountReset => .error .accountReset
  | .lifetime => pure ⟨none, none⟩
  | .day => pure (calendarWindow day (day + 1))
  | .week => do
    let start := day - daysFromMonday day
    ensure (IsDate start) .panic
    pure (calendarWindow start (start + 7))
  | .calendarMonth => do
    let month := monthOf day
    ensure (IsDate (monthStart month)) .panic
    ensure (IsDate (monthStart (month + 1))) .panic
    pure (calendarWindow (monthStart month) (monthStart (month + 1)))
  | .sevenDays => do
    let anchor ← context policy.tokenPeriodAnchorAtMs .anchorRequired
    fixedWindow anchor (7 * dayMs) nowMs
  | .thirtyDays => do
    let anchor ← context policy.tokenPeriodAnchorAtMs .anchorRequired
    fixedWindow anchor (30 * dayMs) nowMs

/-! ## Windows are the cells of a grid -/

/-- Where the windows of a policy begin: the start of the `i`-th one. -/
def boundary (i : ℤ) : ℤ :=
  match policy.tokenPeriod with
  | .day => i * dayMs
  | .week => (7 * i - 3) * dayMs
  | .calendarMonth => monthStart i * dayMs
  | .sevenDays => policy.tokenPeriodAnchorAtMs.getD 0 + i * (7 * dayMs)
  | .thirtyDays => policy.tokenPeriodAnchorAtMs.getD 0 + i * (30 * dayMs)
  | .lifetime | .accountReset => i

theorem boundary_lt (i : ℤ) : boundary policy i < boundary policy (i + 1) := by
  unfold boundary dayMs minuteMs
  split
  · omega
  · omega
  · have hmonth := monthStart_succ i
    omega
  · omega
  · omega
  · omega
  · omega

theorem boundary_mono : Monotone (boundary policy) := monotone_int_of_le_succ fun i => (boundary_lt policy i).le

theorem fixedWindow_cell {anchor duration nowMs : ℤ} {w : TokenPeriodWindow} (hpos : 0 < duration)
    (h : fixedWindow anchor duration nowMs = .ok w) :
    ∃ i : ℤ, w = ⟨some (anchor + i * duration), some (anchor + (i + 1) * duration)⟩ ∧
      anchor + i * duration ≤ nowMs ∧ nowMs < anchor + (i + 1) * duration := by
  simp only [fixedWindow, bind_eq_ok, ensure_eq_ok, pure_eq_ok] at h
  obtain ⟨-, -, -, -, -, -, -, -, -, -, rfl⟩ := h
  have hdiv := Int.mul_ediv_add_emod (nowMs - anchor) duration
  have hnonneg := Int.emod_nonneg (nowMs - anchor) hpos.ne'
  have hlt := Int.emod_lt_of_pos (nowMs - anchor) hpos
  rw [mul_comm] at hdiv
  refine ⟨(nowMs - anchor) / duration, ?_, by omega, ?_⟩
  · rw [add_mul, one_mul, add_assoc]
  · rw [add_mul, one_mul]
    omega

/-- A window begins at or before its instant and ends behind it. -/
theorem tokenPeriodWindow_cell {policy : ShareUserPolicy} {nowMs : ℤ} {w : TokenPeriodWindow}
    (h : tokenPeriodWindow policy nowMs = .ok w) :
    policy.tokenPeriod = .lifetime ∧ w = ⟨none, none⟩ ∨
      policy.tokenPeriod ≠ .lifetime ∧ ∃ i, w = ⟨some (boundary policy i), some (boundary policy (i + 1))⟩ ∧
        boundary policy i ≤ nowMs ∧ nowMs < boundary policy (i + 1) := by
  have hday : nowMs / dayMs * dayMs ≤ nowMs ∧ nowMs < (nowMs / dayMs + 1) * dayMs := by
    unfold dayMs minuteMs
    omega
  unfold tokenPeriodWindow at h
  obtain ⟨-, -, h⟩ := bind_eq_ok.mp h
  unfold boundary
  cases hperiod : policy.tokenPeriod with
  | accountReset =>
    rw [hperiod] at h
    cases h
  | lifetime =>
    rw [hperiod] at h
    cases h
    exact .inl ⟨rfl, rfl⟩
  | day =>
    rw [hperiod] at h
    cases h
    exact .inr ⟨by decide, nowMs / dayMs, rfl, hday.1, hday.2⟩
  | week =>
    rw [hperiod] at h
    simp only [bind_eq_ok, ensure_eq_ok, pure_eq_ok] at h
    obtain ⟨-, -, rfl⟩ := h
    have hbounds := daysFromMonday_bounds (nowMs / dayMs)
    have hstart := week_start (nowMs / dayMs)
    refine .inr ⟨by decide, (nowMs / dayMs + 3) / 7, ?_, ?_, ?_⟩
    · unfold calendarWindow
      dsimp only
      rw [hstart]
      congr 2
      ring
    · dsimp only
      rw [← hstart]
      unfold dayMs minuteMs at *
      omega
    · dsimp only
      unfold dayMs minuteMs at *
      omega
  | calendarMonth =>
    rw [hperiod] at h
    simp only [bind_eq_ok, ensure_eq_ok, pure_eq_ok] at h
    obtain ⟨-, -, -, -, rfl⟩ := h
    have hmonth := monthOf_bounds (nowMs / dayMs)
    refine .inr ⟨by decide, monthOf (nowMs / dayMs), rfl, ?_, ?_⟩
    · dsimp only
      unfold dayMs minuteMs at *
      omega
    · dsimp only
      unfold dayMs minuteMs at *
      omega
  | sevenDays =>
    rw [hperiod] at h
    obtain ⟨anchor, hanchor, h⟩ := bind_eq_ok.mp h
    rw [context_eq_ok.mp hanchor]
    exact .inr ⟨by decide, fixedWindow_cell (by decide) h⟩
  | thirtyDays =>
    rw [hperiod] at h
    obtain ⟨anchor, hanchor, h⟩ := bind_eq_ok.mp h
    rw [context_eq_ok.mp hanchor]
    exact .inr ⟨by decide, fixedWindow_cell (by decide) h⟩

end CcSwitchServer.Sharing
