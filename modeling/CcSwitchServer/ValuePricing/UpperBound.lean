import CcSwitchServer.ValuePricing.Tariff

/-! # Cache writes of unknown lifetime are priced from above

Cache writes of unknown lifetime are priced by the dearer of the two rates.
-/

namespace CcSwitchServer.ValuePricing
open Foundations Std ExecutionRates List ValueTokens ExecutionModelPrice

/-! ## Exact sums -/

/-- The same tokens with the unknown cache writes split into two known lifetimes. -/
def ValueTokens.split (t : ValueTokens) (a b : ℕ) : ValueTokens :=
  { t with
    cacheWrite5m := t.cacheWrite5m + a
    cacheWrite1h := t.cacheWrite1h + b
    cacheWriteUnknown := 0 }

namespace ExecutionRates

/-- The rate that a text states; one that is absent, or not a rate, adds nothing. -/
def picosPerToken (raw : Option String) : ℕ :=
  match rate raw with
  | .ok (some value) => value
  | _ => 0

/-- The dearer rate, where both are possible. -/
def unknownPicosPerToken (r : ExecutionRates) : ℕ :=
  match r.cacheWritePolicy with
  | .unavailable => 0
  | .fiveMinutesOnly => picosPerToken r.cacheWrite5m
  | .oneHourOnly => picosPerToken r.cacheWrite1h
  | .both => max (picosPerToken r.cacheWrite5m) (picosPerToken r.cacheWrite1h)

def exactPicos (r : ExecutionRates) (t : ValueTokens) : ℕ :=
  t.freshInput * picosPerToken r.input + t.output * picosPerToken r.output +
    t.cacheRead * picosPerToken r.cacheRead + t.cacheWrite5m * picosPerToken r.cacheWrite5m +
    t.cacheWrite1h * picosPerToken r.cacheWrite1h + t.cacheWriteUnknown * r.unknownPicosPerToken

def summands (r : ExecutionRates) (t : ValueTokens) : List (ℕ × Except ValueError (Option ℕ)) :=
  [(t.freshInput, rate r.input), (t.output, rate r.output), (t.cacheRead, rate r.cacheRead),
    (t.cacheWrite5m, rate r.cacheWrite5m), (t.cacheWrite1h, rate r.cacheWrite1h), (t.cacheWriteUnknown, r.unknownRate)]

def addSummand (total : ℕ) (x : ℕ × Except ValueError (Option ℕ)) : Except ValueError ℕ := x.2 >>= add total x.1

def summandAmount (x : ℕ × Except ValueError (Option ℕ)) : ℕ :=
  match x.2 with
  | .ok (some value) => x.1 * value
  | _ => 0

section
variable {r : ExecutionRates} {t : ValueTokens} {total next count : ℕ} {p : PricedValue}

theorem price_eq_sum (r : ExecutionRates) (t : ValueTokens) :
    r.price t = r.validate >>= fun _ => (r.summands t).foldlM addSummand 0 >>= fun total =>
      .ok { usagePicos := total, conservativeCacheTtl := 0 < t.cacheWriteUnknown && r.cacheWritePolicy == .both } := by
  unfold price summands addSummand
  simp only [foldlM_cons, foldlM_nil, bind_assoc, pure_bind]

theorem add_none (total : ℕ) (hcount : count ≠ 0) : add total count none = .error .priceUnavailable := by
  unfold add
  rw [if_neg hcount]
  rfl

theorem add_some (total value : ℕ) (hcount : count ≠ 0) : add total count (some value) =
    (context (checkedMul count value) .overflow >>= fun product =>
      context (checkedAdd total product) .overflow) := by
  unfold add
  rw [if_neg hcount]
  rfl

theorem addSummand_ok (total : ℕ) (x : ℕ × Except ValueError (Option ℕ)) (next : ℕ)
    (h : addSummand total x = .ok next) : next = total + summandAmount x := by
  obtain ⟨count, res⟩ := x
  obtain ⟨rate, hres, hadd⟩ := bind_eq_ok.mp h
  unfold summandAmount
  rw [hres]
  by_cases hcount : count = 0
  · unfold add at hadd
    rw [if_pos hcount] at hadd
    cases hadd
    cases rate with
    | none => rfl
    | some value => simp [hcount]
  · cases rate with
    | none =>
      rw [add_none total hcount] at hadd
      cases hadd
    | some value =>
      rw [add_some total value hcount] at hadd
      obtain ⟨product, hproduct, hsum⟩ := bind_eq_ok.mp hadd
      rw [context_eq_ok, checkedMul_eq_some] at hproduct
      rw [context_eq_ok, checkedAdd_eq_some] at hsum
      rw [hsum.2, hproduct.2]

theorem addSummand_overflow (total : ℕ) (x : ℕ × Except ValueError (Option ℕ))
    (hparsed : x.2 ≠ .error .overflow) (h : addSummand total x = .error .overflow) :
    i128Max < total + summandAmount x := by
  obtain ⟨count, res⟩ := x
  obtain hres | ⟨rate, hres, hadd⟩ := bind_eq_error.mp h
  · exact absurd hres hparsed
  unfold summandAmount
  rw [hres]
  by_cases hcount : count = 0
  · unfold add at hadd
    rw [if_pos hcount] at hadd
    cases hadd
  · cases rate with
    | none =>
      rw [add_none total hcount] at hadd
      cases hadd
    | some value =>
      rw [add_some total value hcount] at hadd
      dsimp only
      obtain hproduct | ⟨product, hproduct, hsum⟩ := bind_eq_error.mp hadd
      · rw [context_eq_error] at hproduct
        unfold checkedMul at hproduct
        have hlarge : ¬count * value ≤ i128Max := by simpa using hproduct.1
        omega
      · rw [context_eq_ok, checkedMul_eq_some] at hproduct
        rw [context_eq_error] at hsum
        unfold checkedAdd at hsum
        have hlarge : ¬total + product ≤ i128Max := by simpa using hsum.1
        rw [hproduct.2] at hlarge
        omega

/-! ## What a valid row says -/

theorem rate_ne_overflow (raw : Option String) : rate raw ≠ .error .overflow := by
  intro h
  cases raw with
  | none => cases h
  | some raw =>
    unfold rate at h
    obtain hparse | ⟨value, -, hrange⟩ := bind_eq_error.mp h
    · unfold unsignedDecimal at hparse
      dsimp only at hparse
      split at hparse
      · cases hparse
      · split at hparse
        · cases hparse
        · cases hparse
    · split at hrange
      · cases hrange
      · cases hrange

theorem unknownRate_ne_overflow (r : ExecutionRates) : r.unknownRate ≠ .error .overflow := by
  unfold unknownRate
  split
  · intro h
    cases h
  · exact rate_ne_overflow _
  · exact rate_ne_overflow _
  · intro h
    obtain herr | ⟨short, -, h⟩ := bind_eq_error.mp h
    · exact rate_ne_overflow _ herr
    obtain herr | ⟨short', -, h⟩ := bind_eq_error.mp h
    · rw [context_eq_error] at herr
      exact nomatch herr.2
    obtain herr | ⟨long, -, h⟩ := bind_eq_error.mp h
    · exact rate_ne_overflow _ herr
    obtain herr | ⟨long', -, h⟩ := bind_eq_error.mp h
    · rw [context_eq_error] at herr
      exact nomatch herr.2
    · cases h

/-- The row states the rates that its policy needs and no others. -/
structure Stated (r : ExecutionRates) : Prop where
  parsed : ∀ raw ∈ [r.input, r.output, r.cacheRead, r.cacheWrite5m, r.cacheWrite1h], ∃ value, rate raw = .ok value
  unavailable : r.cacheWritePolicy = .unavailable → r.cacheWrite5m = none ∧ r.cacheWrite1h = none
  fiveMinutesOnly : r.cacheWritePolicy = .fiveMinutesOnly → r.cacheWrite1h = none
  oneHourOnly : r.cacheWritePolicy = .oneHourOnly → r.cacheWrite5m = none
  both : r.cacheWritePolicy = .both → r.cacheWrite5m.isSome ∧ r.cacheWrite1h.isSome

theorem stated_of_validate (h : r.validate = .ok ()) : r.Stated := by
  unfold validate at h
  obtain ⟨_, hparsed, h⟩ := bind_eq_ok.mp h
  obtain ⟨_, _, hpolicy⟩ := bind_eq_ok.mp h
  refine ⟨fun raw hraw => ?_, ?_, ?_, ?_, ?_⟩
  · simp only [forIn_cons, forIn_nil, bind_assoc, pure_bind] at hparsed
    obtain ⟨_, hinput, hparsed⟩ := bind_eq_ok.mp hparsed
    obtain ⟨_, houtput, hparsed⟩ := bind_eq_ok.mp hparsed
    obtain ⟨_, hread, hparsed⟩ := bind_eq_ok.mp hparsed
    obtain ⟨_, hshort, hparsed⟩ := bind_eq_ok.mp hparsed
    obtain ⟨_, hlong, -⟩ := bind_eq_ok.mp hparsed
    simp only [mem_cons, not_mem_nil, or_false] at hraw
    obtain rfl | rfl | rfl | rfl | rfl := hraw
    · exact ⟨_, hinput⟩
    · exact ⟨_, houtput⟩
    · exact ⟨_, hread⟩
    · exact ⟨_, hshort⟩
    · exact ⟨_, hlong⟩
  · intro hp
    rw [hp] at hpolicy
    exact ensure_eq_ok.mp hpolicy
  · intro hp
    rw [hp] at hpolicy
    exact (ensure_eq_ok.mp hpolicy).2
  · intro hp
    rw [hp] at hpolicy
    exact (ensure_eq_ok.mp hpolicy).2
  · intro hp
    rw [hp] at hpolicy
    exact ensure_eq_ok.mp hpolicy

theorem validate_ne_overflow (r : ExecutionRates) : r.validate ≠ .error .overflow := by
  intro h
  unfold validate at h
  obtain hparse | ⟨_, -, h⟩ := bind_eq_error.mp h
  · simp only [forIn_cons, forIn_nil, bind_assoc, pure_bind] at hparse
    obtain herr | ⟨_, -, hparse⟩ := bind_eq_error.mp hparse
    · exact rate_ne_overflow _ herr
    obtain herr | ⟨_, -, hparse⟩ := bind_eq_error.mp hparse
    · exact rate_ne_overflow _ herr
    obtain herr | ⟨_, -, hparse⟩ := bind_eq_error.mp hparse
    · exact rate_ne_overflow _ herr
    obtain herr | ⟨_, -, hparse⟩ := bind_eq_error.mp hparse
    · exact rate_ne_overflow _ herr
    obtain herr | ⟨_, -, hparse⟩ := bind_eq_error.mp hparse
    · exact rate_ne_overflow _ herr
    · cases hparse
  · obtain herr | ⟨_, -, h⟩ := bind_eq_error.mp h
    · rw [ensure_eq_error] at herr
      exact nomatch herr.2
    · split at h
      all_goals
        rw [ensure_eq_error] at h
        exact nomatch h.2

/-! ## Prices are exact sums -/

theorem summandAmount_rate (count : ℕ) (raw : Option String) :
    summandAmount (count, rate raw) = count * picosPerToken raw := by
  unfold summandAmount picosPerToken
  dsimp only
  split
  · rfl
  · rfl

theorem rate_some {raw : Option String} {value : Option ℕ} (hraw : raw.isSome = true)
    (h : rate raw = .ok value) : ∃ n, value = some n := by
  cases raw with
  | none => cases hraw
  | some raw =>
    obtain ⟨n, -, h⟩ := bind_eq_ok.mp h
    split at h
    · cases h
    · cases h
      exact ⟨n, rfl⟩

theorem summandAmount_unknown (h : r.Stated) (count : ℕ) :
    summandAmount (count, r.unknownRate) = count * r.unknownPicosPerToken := by
  unfold unknownRate unknownPicosPerToken
  cases hpolicy : r.cacheWritePolicy with
  | unavailable => rfl
  | fiveMinutesOnly => exact summandAmount_rate _ _
  | oneHourOnly => exact summandAmount_rate _ _
  | both =>
    obtain ⟨hshort, hlong⟩ := h.both hpolicy
    obtain ⟨short, hshort'⟩ := h.parsed r.cacheWrite5m (by simp)
    obtain ⟨long, hlong'⟩ := h.parsed r.cacheWrite1h (by simp)
    obtain ⟨short, rfl⟩ := rate_some hshort hshort'
    obtain ⟨long, rfl⟩ := rate_some hlong hlong'
    unfold summandAmount picosPerToken
    rw [hshort', hlong']
    rfl

theorem sum_summands (h : r.Stated) (t : ValueTokens) : ((r.summands t).map summandAmount).sum = r.exactPicos t := by
  unfold summands exactPicos
  simp only [map_cons, map_nil, sum_cons, sum_nil, summandAmount_rate, summandAmount_unknown h]
  omega

theorem price_ok (h : r.price t = .ok p) : r.Stated ∧ p.usagePicos = r.exactPicos t := by
  rw [price_eq_sum] at h
  obtain ⟨_, hvalid, h⟩ := bind_eq_ok.mp h
  obtain ⟨total, htotal, h⟩ := bind_eq_ok.mp h
  have hstated := stated_of_validate hvalid
  have hsum := foldlM_sum addSummand_ok htotal
  rw [Nat.zero_add, sum_summands hstated] at hsum
  cases h
  exact ⟨hstated, hsum⟩

theorem price_overflow (h : r.price t = .error .overflow) : i128Max < r.exactPicos t := by
  rw [price_eq_sum] at h
  obtain herr | ⟨_, hvalid, h⟩ := bind_eq_error.mp h
  · exact absurd herr r.validate_ne_overflow
  obtain herr | ⟨total, -, h⟩ := bind_eq_error.mp h
  · have hstated := stated_of_validate hvalid
    have hparsed : ∀ x ∈ r.summands t, x.2 ≠ .error .overflow := by
      intro x hx
      simp only [summands, mem_cons, not_mem_nil, or_false] at hx
      obtain rfl | rfl | rfl | rfl | rfl | rfl := hx
      · exact rate_ne_overflow _
      · exact rate_ne_overflow _
      · exact rate_ne_overflow _
      · exact rate_ne_overflow _
      · exact rate_ne_overflow _
      · exact unknownRate_ne_overflow r
    have hexceeds := foldlM_sum_exceeds addSummand_ok
      (fun total x hx => addSummand_overflow total x (hparsed x hx)) herr
    rw [Nat.zero_add, sum_summands hstated] at hexceeds
    exact hexceeds
  · cases h

/-! ## The split -/

theorem summands_rated (h : r.price t = .ok p) : ∀ x ∈ r.summands t, x.1 ≠ 0 → x.2 ≠ .ok none := by
  rw [price_eq_sum] at h
  obtain ⟨_, -, h⟩ := bind_eq_ok.mp h
  obtain ⟨total, htotal, -⟩ := bind_eq_ok.mp h
  have hloop : ∀ {xs : List (ℕ × Except ValueError (Option ℕ))} {total next : ℕ},
      xs.foldlM addSummand total = .ok next → ∀ x ∈ xs, x.1 ≠ 0 → x.2 ≠ .ok none := by
    intro xs
    induction xs with
    | nil => exact fun _ x hx => nomatch hx
    | cons y ys ih =>
      intro total next hfold x hx hcount hnone
      rw [foldlM_cons] at hfold
      obtain ⟨middle, hmiddle, hrest⟩ := bind_eq_ok.mp hfold
      obtain rfl | hx := mem_cons.mp hx
      · unfold addSummand at hmiddle
        rw [hnone, ok_bind, add_none total hcount] at hmiddle
        cases hmiddle
      · exact ih hrest x hx hcount hnone
  exact hloop htotal

/-- However the unknown tokens are split, the price of the split is not more. -/
theorem split_le (r : ExecutionRates) (t : ValueTokens) {a b : ℕ} {q : PricedValue}
    (hsplit : a + b = t.cacheWriteUnknown) (hq : r.price (t.split a b) = .ok q) :
    r.exactPicos (t.split a b) ≤ r.exactPicos t ∧
      (r.cacheWritePolicy = .fiveMinutesOnly ∨ r.cacheWritePolicy = .oneHourOnly →
        r.exactPicos (t.split a b) = r.exactPicos t) := by
  have hstated := (price_ok hq).1
  have hrated := summands_rated hq
  have hshort : r.cacheWrite5m = none → t.cacheWrite5m + a = 0 := by
    intro hnone
    by_contra hcount
    exact hrated (t.cacheWrite5m + a, rate r.cacheWrite5m) (by simp [summands, split]) hcount (by rw [hnone]; rfl)
  have hlong : r.cacheWrite1h = none → t.cacheWrite1h + b = 0 := by
    intro hnone
    by_contra hcount
    exact hrated (t.cacheWrite1h + b, rate r.cacheWrite1h) (by simp [summands, split]) hcount (by rw [hnone]; rfl)
  unfold exactPicos split unknownPicosPerToken
  simp only [← hsplit, Nat.zero_mul, Nat.add_zero, Nat.add_mul]
  cases hpolicy : r.cacheWritePolicy with
  | unavailable =>
    obtain ⟨hnone5m, hnone1h⟩ := hstated.unavailable hpolicy
    have ha : a = 0 := by
      have hsum := hshort hnone5m
      omega
    have hb : b = 0 := by
      have hsum := hlong hnone1h
      omega
    simp [ha, hb]
  | fiveMinutesOnly =>
    have hb : b = 0 := by
      have hsum := hlong (hstated.fiveMinutesOnly hpolicy)
      omega
    rw [hb]
    dsimp only
    refine ⟨?_, fun _ => ?_⟩ <;> omega
  | oneHourOnly =>
    have ha : a = 0 := by
      have hsum := hshort (hstated.oneHourOnly hpolicy)
      omega
    rw [ha]
    dsimp only
    refine ⟨?_, fun _ => ?_⟩ <;> omega
  | both =>
    dsimp only
    have hleft : a * picosPerToken r.cacheWrite5m ≤
        a * max (picosPerToken r.cacheWrite5m) (picosPerToken r.cacheWrite1h) :=
      Nat.mul_le_mul_left a (le_max_left _ _)
    have hright : b * picosPerToken r.cacheWrite1h ≤
        b * max (picosPerToken r.cacheWrite5m) (picosPerToken r.cacheWrite1h) :=
      Nat.mul_le_mul_left b (le_max_right _ _)
    refine ⟨?_, ?_⟩
    · omega
    · rintro (hne | hne)
      · cases hne
      · cases hne

end
end ExecutionRates

/-! ## The row of the tariff -/

namespace ExecutionModelPrice

/-- The same row applies to every split. -/
def rowKey (m : ExecutionModelPrice) (effectiveTier : String) (t : ValueTokens) : Except ValueError String := do
  let input ← m.contextInput t
  pure (effectiveTier ++ "/" ++ if m.isLong input then "long" else "base")

def Selects (m : ExecutionModelPrice) (effectiveTier : String) (t : ValueTokens)
    (r : ExecutionRates) : Prop :=
  ∃ key, m.rowKey effectiveTier t = .ok key ∧ m.rates[key]? = some r

section
variable {m : ExecutionModelPrice} {effectiveTier : String} {t : ValueTokens} {r r' : ExecutionRates} {p : PricedValue}

theorem Selects.unique (h : m.Selects effectiveTier t r) (h' : m.Selects effectiveTier t r') : r = r' := by
  obtain ⟨key, hkey, hr⟩ := h
  obtain ⟨key', hkey', hr'⟩ := h'
  rw [hkey] at hkey'
  cases hkey'
  rw [hr] at hr'
  exact Option.some.inj hr'

theorem price_selects (h : m.price effectiveTier t = .ok p) :
    ∃ r, m.Selects effectiveTier t r ∧ r.price t = .ok p := by
  unfold price at h
  obtain ⟨_, -, h⟩ := bind_eq_ok.mp h
  obtain ⟨input, hinput, h⟩ := bind_eq_ok.mp h
  obtain ⟨r, hr, hprice⟩ := bind_eq_ok.mp h
  rw [context_eq_ok] at hr
  refine ⟨r, ⟨_, ?_, hr⟩, hprice⟩
  unfold rowKey
  rw [hinput]
  rfl

theorem price_overflow (h : m.price effectiveTier t = .error .overflow) :
    m.contextInput t = .error .overflow ∨ ∃ r, m.Selects effectiveTier t r ∧ i128Max < r.exactPicos t := by
  unfold price at h
  obtain htier | ⟨_, -, h⟩ := bind_eq_error.mp h
  · rw [ensure_eq_error] at htier
    exact nomatch htier.2
  obtain hinput | ⟨input, hinput, h⟩ := bind_eq_error.mp h
  · exact .inl hinput
  obtain hmissing | ⟨r, hr, hprice⟩ := bind_eq_error.mp h
  · rw [context_eq_error] at hmissing
    exact nomatch hmissing.2
  rw [context_eq_ok] at hr
  refine .inr ⟨r, ⟨_, ?_, hr⟩, ExecutionRates.price_overflow hprice⟩
  unfold rowKey
  rw [hinput]
  rfl

theorem rawInput_ok {input : ℕ} (h : t.rawInput = .ok input) :
    input = t.freshInput + t.cacheRead + t.cacheWrite5m + t.cacheWrite1h + t.cacheWriteUnknown := by
  have hadds : ∀ total count next : ℕ, context (checkedAddU64 total count) ValueError.overflow =
      .ok next → next = total + id count := by
    intro total count next hnext
    rw [context_eq_ok, checkedAddU64_eq_some] at hnext
    exact hnext.2
  have hsum := foldlM_sum hadds h
  simpa [Nat.add_assoc] using hsum

theorem contextInput_split {a b input input' : ℕ} (hsplit : a + b = t.cacheWriteUnknown)
    (h : m.contextInput t = .ok input) (h' : m.contextInput (t.split a b) = .ok input') :
    input' = input := by
  unfold contextInput at h h'
  cases hbasis : m.contextInputBasis with
  | freshInput =>
    rw [hbasis] at h h'
    cases h
    cases h'
    rfl
  | rawInput =>
    rw [hbasis] at h h'
    rw [rawInput_ok h, rawInput_ok h']
    unfold split
    dsimp only
    omega

end
end ExecutionModelPrice

/-! ## The result -/

/-- Where both calls give a price, they read the same row, and the price with the unknown tokens is
the price of the split or more; with one possible lifetime it is the same. Each is the exact sum, and the
`i128` arithmetic fails only when that sum is out of its range. -/
theorem unknown_ttl_priced_from_above (m : ExecutionModelPrice) (effectiveTier : String)
    (t : ValueTokens) (a b : ℕ) (hsplit : a + b = t.cacheWriteUnknown) :
    (∀ p q, m.price effectiveTier t = .ok p → m.price effectiveTier (t.split a b) = .ok q →
      m.rowKey effectiveTier t = m.rowKey effectiveTier (t.split a b) ∧
      ∃ r, m.Selects effectiveTier t r ∧ m.Selects effectiveTier (t.split a b) r ∧
        p.usagePicos = r.exactPicos t ∧ q.usagePicos = r.exactPicos (t.split a b) ∧ q.usagePicos ≤ p.usagePicos ∧
        (r.cacheWritePolicy = .fiveMinutesOnly ∨ r.cacheWritePolicy = .oneHourOnly → q.usagePicos = p.usagePicos)) ∧
    ∀ t', (∀ p, m.price effectiveTier t' = .ok p →
        ∃ r, m.Selects effectiveTier t' r ∧ p.usagePicos = r.exactPicos t') ∧
      (m.price effectiveTier t' = .error .overflow → m.contextInput t' = .error .overflow ∨
        ∃ r, m.Selects effectiveTier t' r ∧ i128Max < r.exactPicos t') := by
  refine ⟨fun p q hp hq => ?_, fun t' => ⟨fun p hp => ?_, price_overflow⟩⟩
  · obtain ⟨r, hselects, hprice⟩ := price_selects hp
    obtain ⟨r', hselects', hprice'⟩ := price_selects hq
    have hrow : m.rowKey effectiveTier t = m.rowKey effectiveTier (t.split a b) := by
      obtain ⟨key, hkey, -⟩ := hselects
      obtain ⟨key', hkey', -⟩ := hselects'
      obtain ⟨input, hinput, hpure⟩ := bind_eq_ok.mp hkey
      obtain ⟨input', hinput', hpure'⟩ := bind_eq_ok.mp hkey'
      have hsame := contextInput_split hsplit hinput hinput'
      rw [hkey, hkey', ← hpure, ← hpure', hsame]
    have hselects'' : m.Selects effectiveTier t r' := by
      obtain ⟨key, hkey, hr⟩ := hselects'
      exact ⟨key, hrow.trans hkey, hr⟩
    have hsame := hselects.unique hselects''
    subst hsame
    obtain ⟨hle, heq⟩ := r.split_le t hsplit hprice'
    have hsum := (price_ok hprice).2
    have hsum' := (price_ok hprice').2
    refine ⟨hrow, r, hselects, hselects', hsum, hsum', ?_, fun hpolicy => ?_⟩
    · rw [hsum, hsum']
      exact hle
    · rw [hsum, hsum']
      exact heq hpolicy
  · obtain ⟨r, hselects, hprice⟩ := price_selects hp
    exact ⟨r, hselects, (price_ok hprice).2⟩

def sampleRates : ExecutionRates := ⟨some "10", some "50", some "1", some "12", some "20", .both⟩

def samplePrice : ExecutionModelPrice := ⟨.rawInput, none, false, ExtTreeMap.ofList [("standard/base", sampleRates)]⟩

/-- A hundred fresh tokens and three unknown cache writes, of which one is kept for an hour. -/
theorem unknown_ttl_priced_from_above_both :
    let t : ValueTokens := { freshInput := 100, cacheWriteUnknown := 3 }
    samplePrice.price "standard" t = .ok ⟨1060, true⟩ ∧
      samplePrice.price "standard" (t.split 2 1) = .ok ⟨1044, false⟩ ∧
      samplePrice.rowKey "standard" t = samplePrice.rowKey "standard" (t.split 2 1) := by
  intro t
  have hwhole : samplePrice.price "standard" t = .ok ⟨1060, true⟩ := by decide
  have hparts : samplePrice.price "standard" (t.split 2 1) = .ok ⟨1044, false⟩ := by decide
  have hresult := unknown_ttl_priced_from_above samplePrice "standard" t 2 1 rfl
  exact ⟨hwhole, hparts, (hresult.1 _ _ hwhole hparts).1⟩

end CcSwitchServer.ValuePricing
