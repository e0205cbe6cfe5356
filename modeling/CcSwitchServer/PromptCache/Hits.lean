import CcSwitchServer.PromptCache.Origins

/-! # No phantom hits

What a call reports as read was written by an earlier call behind blocks that the request begins with.
-/

namespace CcSwitchServer.PromptCache
open Foundations List

variable {x : Externals}

/-! ## Breakpoints and windows -/

theorem explicitBreakpoints_index {index : ℕ} {blocks : List PromptBlock} {found : List Breakpoint}
    (h : explicitBreakpoints index blocks = .ok found) :
    ∀ breakpoint ∈ found, breakpoint.blockIndex < index + blocks.length := by
  induction blocks generalizing index found with
  | nil =>
    cases h
    exact fun _ hmem => absurd hmem not_mem_nil
  | cons block blocks ih =>
    rw [explicitBreakpoints] at h
    have hlater : ∀ {rest : List Breakpoint}, explicitBreakpoints (index + 1) blocks = .ok rest →
        ∀ breakpoint ∈ rest, breakpoint.blockIndex < index + (block :: blocks).length := by
      intro rest hrest breakpoint hmem
      have := ih hrest breakpoint hmem
      rw [length_cons]
      omega
    split at h
    · split at h
      · cases h
      · split at h
        · obtain ⟨ttl, -, hrest⟩ := bind_eq_ok.mp h
          obtain ⟨rest, hfound, hdone⟩ := bind_eq_ok.mp hrest
          cases hdone
          intro breakpoint hmem
          rcases mem_cons.mp hmem with rfl | hold
          · rw [length_cons]
            dsimp only
            omega
          · exact hlater hfound breakpoint hold
        · cases h
    · exact hlater h

theorem rposition_lt {p : PromptBlock → Bool} {blocks : List PromptBlock} {i : ℕ}
    (h : rposition p blocks = some i) : i < blocks.length := by
  unfold rposition at h
  obtain ⟨j, hj, rfl⟩ := Option.map_eq_some_iff.mp h
  have hlt := (findIdx?_eq_some_iff_findIdx_eq.mp hj).1
  rw [length_reverse] at hlt
  omega

theorem autoTarget_lt {blocks : List PromptBlock} {i : ℕ} (h : autoTarget blocks = some i) : i < blocks.length := by
  unfold autoTarget at h
  rcases Option.or_eq_some_iff.mp h with hfirst | ⟨-, hsecond⟩
  · exact rposition_lt hfirst
  · exact rposition_lt hsecond

theorem withAuto_index {blocks : List PromptBlock} {control : Option Json} {found all : List Breakpoint}
    (h : withAuto blocks control found = .ok all)
    (hfound : ∀ breakpoint ∈ found, breakpoint.blockIndex < blocks.length) :
    ∀ breakpoint ∈ all, breakpoint.blockIndex < blocks.length := by
  unfold withAuto at h
  split at h
  · cases h
    exact hfound
  · obtain ⟨ttl, -, hrest⟩ := bind_eq_ok.mp h
    split at hrest
    · cases hrest
    · rename_i target htarget
      split at hrest
      · split at hrest
        · cases hrest
          exact hfound
        · cases hrest
      · cases hrest
        intro breakpoint hmem
        rcases mem_append.mp hmem with hold | hnew
        · exact hfound breakpoint hold
        · rw [mem_singleton.mp hnew]
          exact autoTarget_lt htarget

theorem resolveBreakpoints_index (blocks : List PromptBlock) (control : Option Json) :
    ∀ breakpoint ∈ (resolveBreakpoints blocks control).1, breakpoint.blockIndex < blocks.length := by
  unfold resolveBreakpoints
  cases hr : requestedBreakpoints blocks control with
  | error decision => exact fun _ hmem => absurd hmem not_mem_nil
  | ok resolved =>
    unfold requestedBreakpoints at hr
    split at hr
    · cases hr
    · obtain ⟨found, hfound, hrest⟩ := bind_eq_ok.mp hr
      obtain ⟨all, hall, hlast⟩ := bind_eq_ok.mp hrest
      have hindex := explicitBreakpoints_index hfound
      rw [Nat.zero_add] at hindex
      have hbounds := withAuto_index hall hindex
      have hsorted : resolved.1 = all.insertionSort fun a b => a.blockIndex ≤ b.blockIndex := by
        dsimp only at hlast
        split at hlast
        · cases hlast
        · split at hlast
          · cases hlast
          · split at hlast
            · cases hlast
            · cases hlast
              rfl
      intro breakpoint hmem
      rw [hsorted] at hmem
      exact hbounds breakpoint ((perm_insertionSort _ _).mem_iff.mp hmem)

theorem breakpoint_lt (namespace_ : Str) (body : Json) {breakpoint : Breakpoint}
    (h : breakpoint ∈ (prepare x body namespace_).breakpoints) : breakpoint.blockIndex < (keys body).length := by
  rw [← length_extractBlocks x]
  exact resolveBreakpoints_index _ _ breakpoint h

theorem mem_lookback {blocks : List PromptBlock} {breakpoint : Breakpoint} {i : ℕ}
    (h : i ∈ lookback blocks breakpoint) :
    lookbackStartIndex blocks breakpoint.blockIndex ≤ i ∧ i ≤ breakpoint.blockIndex := by
  unfold lookback at h
  rw [mem_reverse, mem_range'_1] at h
  omega

/-! ## Calls of a run -/

abbrev Call := Str × Json

def calls : List Event → List Call
  | [] => []
  | .computeUsage body namespace_ _ _ :: events => (namespace_, body) :: calls events
  | _ :: events => calls events

theorem calls_append (events events' : List Event) : calls (events ++ events') = calls events ++ calls events' := by
  induction events with
  | nil => rfl
  | cons event events ih => cases event <;> simp [calls, ih]

variable (x)

def inputs (cs : List Call) : List (List UInt8) :=
  cs.flatMap fun call => (range (keys call.2).length).map fun i =>
    prefixInput x call.1 call.2 ((keys call.2).take (i + 1))

def canonicalValues (cs : List Call) : List Json :=
  cs.flatMap fun call => contextValue call.2 :: (keys call.2).map Key.value

/-- SHA-256, cut to 64 bits, tells the inputs apart, and from the hashes of the legacy file. -/
structure HashesApart (x : Externals) (legacy : Option (OrderedMap ℕ CacheEntry)) (cs : List Call) : Prop where
  inputs : ∀ a ∈ inputs x cs, ∀ b ∈ inputs x cs, shortHash x a = shortHash x b → a = b
  legacy : ∀ l, legacy = some l → ∀ a ∈ PromptCache.inputs x cs, l.get? (shortHash x a) = none

/-- JSON text tells the values of the run apart. -/
def TextsApart (cs : List Call) : Prop :=
  ∀ v ∈ canonicalValues cs, ∀ w ∈ canonicalValues cs, (x.jsonText v).text = (x.jsonText w).text → v = w

/-- The call has a breakpoint with this hash and estimate. -/
def Wrote (call : Call) (hash tokens : ℕ) : Prop :=
  ∃ breakpoint ∈ (prepare x call.2 call.1).breakpoints,
    tokens = prefixTokens x ((keys call.2).take (breakpoint.blockIndex + 1)) ∧
      hash = shortHash x (prefixInput x call.1 call.2 ((keys call.2).take (breakpoint.blockIndex + 1)))

/-- The entry was written by a call or is of the legacy file. -/
def Origin (legacy : Option (OrderedMap ℕ CacheEntry)) (cs : List Call) (hash tokens : ℕ) : Prop :=
  (∃ l e, legacy = some l ∧ l.get? hash = some e) ∨ ∃ call ∈ cs, Wrote x call hash tokens

theorem request_at (namespace_ : Str) (body : Json) {i : ℕ} (hi : i < (keys body).length) :
    (prepare x body namespace_).cumulative.getD i (0, 0) =
      (prefixTokens x ((keys body).take (i + 1)),
        shortHash x (prefixInput x namespace_ body ((keys body).take (i + 1)))) :=
  cumulativePrompt_get x namespace_ body hi

variable {x}

theorem writes_origin (legacy : Option (OrderedMap ℕ CacheEntry)) {cs : List Call} {body : Json} {namespace_ : Str}
    (hcall : (namespace_, body) ∈ cs) :
    ∀ write ∈ (prepare x body namespace_).request.writes, Origin x legacy cs write.1 write.2.1 := by
  intro write hmem
  obtain ⟨breakpoint, hbreakpoint, rfl⟩ := mem_map.mp hmem
  have hat := request_at x namespace_ body (breakpoint_lt namespace_ body hbreakpoint)
  refine .inr ⟨_, hcall, breakpoint, hbreakpoint, ?_, ?_⟩
  · exact congrArg Prod.fst hat
  · exact congrArg Prod.snd hat

/-! ## Runs -/

def started (x : Externals) (legacy : Option (OrderedMap ℕ CacheEntry)) (now : ℤ) (startup : Startup)
    (events : List Event) : System :=
  run (System.step x) (System.start { legacy := legacy } now startup) events

theorem started_known (x : Externals) (legacy : Option (OrderedMap ℕ CacheEntry)) (now : ℤ) (startup : Startup)
    (events : List Event) :
    AllKnown (Origin x legacy (calls events)) (started x legacy now startup events) := by
  induction events using reverseRecOn with
  | nil =>
    refine known_start (fun hash row hget => ?_) (fun l hl hash e hget => .inl ⟨l, e, hl, hget⟩) now startup
    cases hget
  | append_singleton events event ih =>
    have hmono : ∀ hash tokens, Origin x legacy (calls events) hash tokens →
        Origin x legacy (calls (events ++ [event])) hash tokens := by
      intro hash tokens horigin
      rw [calls_append]
      exact horigin.imp id fun ⟨call, hmem, hwrote⟩ => ⟨call, mem_append_left _ hmem, hwrote⟩
    unfold started at ih ⊢
    rw [run_append_singleton]
    refine (ih.mono hmono).step fun body namespace_ now grants heq => ?_
    subst heq
    refine writes_origin legacy ?_
    rw [calls_append]
    exact mem_append_right _ mem_cons_self

/-! ## Hits -/

/-- An earlier call of the same namespace and context had a breakpoint behind blocks that the request begins
with, within the look-back of one of its own, and the entry for them is alive. -/
def Earned (x : Externals) (s : System) (cs : List Call) (body : Json) (namespace_ : Str) (now : ℤ)
    (tokens : ℕ) : Prop :=
  ∃ call ∈ cs, call.1.text = namespace_.text ∧ contextValue call.2 = contextValue body ∧
    ∃ written ∈ (prepare x call.2 call.1).breakpoints, ∃ breakpoint ∈ (prepare x body namespace_).breakpoints,
      ∃ i, lookbackStartIndex (extractBlocks x body) breakpoint.blockIndex ≤ i ∧ i ≤ breakpoint.blockIndex ∧
        (keys call.2).take (written.blockIndex + 1) = (keys body).take (i + 1) ∧
        tokens ≤ prefixTokens x ((keys body).take (i + 1)) ∧
        ∃ e, s.cache.entries.get? (shortHash x (prefixInput x namespace_ body ((keys body).take (i + 1)))) =
          some e ∧ now < e.expiresAt

theorem deepestRead_mem {found : List (ℕ × CacheEntry)} (h : 0 < deepestRead found) :
    ∃ hit ∈ found, deepestRead found = hit.2.tokens := by
  have hgeneral : ∀ (found : List (ℕ × CacheEntry)) (start : ℕ),
      found.foldl (fun deepest hit => max deepest hit.2.tokens) start = start ∨
        ∃ hit ∈ found, found.foldl (fun deepest hit => max deepest hit.2.tokens) start = hit.2.tokens := by
    intro found
    induction found with
    | nil => exact fun start => .inl rfl
    | cons hit found ih =>
      intro start
      rw [foldl_cons]
      rcases ih (max start hit.2.tokens) with heq | ⟨hit', hmem, heq⟩
      · rcases max_choice start hit.2.tokens with hold | hnew
        · exact .inl (heq.trans hold)
        · exact .inr ⟨hit, mem_cons_self, heq.trans hnew⟩
      · exact .inr ⟨hit', mem_cons_of_mem _ hmem, heq⟩
  rcases hgeneral found 0 with heq | hhit
  · unfold deepestRead at h
    omega
  · exact hhit

theorem keys_of_texts {cs : List Call} (htexts : TextsApart x cs) {ks ks' : List Key}
    (hks : ∀ key ∈ ks, key.value ∈ canonicalValues cs) (hks' : ∀ key ∈ ks', key.value ∈ canonicalValues cs)
    (h : (ks.map fun key => (x.jsonText key.value).text) = ks'.map fun key => (x.jsonText key.value).text) :
    ks = ks' := by
  induction ks generalizing ks' with
  | nil =>
    cases ks' with
    | nil => rfl
    | cons key' ks' => cases h
  | cons key ks ih =>
    cases ks' with
    | nil => cases h
    | cons key' ks' =>
      rw [map_cons, map_cons, cons.injEq] at h
      have hvalue := htexts _ (hks key mem_cons_self) _ (hks' key' mem_cons_self) h.1
      have hkey : key = key' := by
        obtain ⟨section_, role, content⟩ := key
        obtain ⟨section', role', content'⟩ := key'
        unfold Key.value at hvalue
        simp only [Json.object.injEq, cons.injEq, Prod.mk.injEq, true_and, and_true, Json.string.injEq] at hvalue
        obtain ⟨hsection, hrole, hcontent⟩ := hvalue
        have hroles : role = role' := by
          cases role with
          | none => cases role' <;> simp_all
          | some r => cases role' <;> simp_all
        rw [hsection, hroles, hcontent]
      rw [hkey, ih (fun k hk => hks k (mem_cons_of_mem _ hk)) (fun k hk => hks' k (mem_cons_of_mem _ hk)) h.2]

theorem mem_inputs {cs : List Call} {call : Call} (hcall : call ∈ cs) {i : ℕ} (hi : i < (keys call.2).length) :
    prefixInput x call.1 call.2 ((keys call.2).take (i + 1)) ∈ inputs x cs :=
  mem_flatMap.mpr ⟨call, hcall, mem_map.mpr ⟨i, mem_range.mpr hi, rfl⟩⟩

theorem mem_canonicalValues {cs : List Call} {call : Call} (hcall : call ∈ cs) :
    contextValue call.2 ∈ canonicalValues cs ∧ ∀ n, ∀ key ∈ (keys call.2).take n, key.value ∈ canonicalValues cs := by
  refine ⟨mem_flatMap.mpr ⟨call, hcall, mem_cons_self⟩, fun n key hkey => ?_⟩
  refine mem_flatMap.mpr ⟨call, hcall, mem_cons_of_mem _ (mem_map.mpr ⟨key, ?_, rfl⟩)⟩
  exact mem_of_mem_take hkey

/-- A hit is on blocks that the earlier request had. -/
theorem earned_of_hit {legacy : Option (OrderedMap ℕ CacheEntry)} {s : System} {cs : List Call} {body : Json}
    {namespace_ : Str} {now : ℤ} (hknown : AllKnown (Origin x legacy cs) s)
    (hhashes : HashesApart x legacy (cs ++ [(namespace_, body)]))
    (htexts : TextsApart x (cs ++ [(namespace_, body)])) {hash : ℕ} {e : CacheEntry}
    (hhit : (hash, e) ∈ hits s.cache.entries now (prepare x body namespace_).request) :
    Earned x s cs body namespace_ now e.tokens := by
  obtain ⟨⟨window, hwindow, hmem⟩, hentry, hlive⟩ := hits_spec hhit
  obtain ⟨breakpoint, hbreakpoint, rfl⟩ := mem_map.mp hwindow
  obtain ⟨i, hi, hat⟩ := mem_map.mp hmem
  obtain ⟨hstart, hle⟩ := mem_lookback hi
  have hindex : i < (keys body).length := hle.trans_lt (breakpoint_lt namespace_ body hbreakpoint)
  have hself : (namespace_, body) ∈ cs ++ [(namespace_, body)] := mem_append_right _ mem_cons_self
  have hinput : prefixInput x namespace_ body ((keys body).take (i + 1)) ∈ inputs x (cs ++ [(namespace_, body)]) :=
    mem_inputs hself hindex
  have hhash : hash = shortHash x (prefixInput x namespace_ body ((keys body).take (i + 1))) :=
    hat.symm.trans (congrArg Prod.snd (request_at x namespace_ body hindex))
  rcases hknown.entries hash e hentry with ⟨l, e', hl, hget⟩ | ⟨call, hcall, written, hwritten, htokens, hwrote⟩
  · rw [hhash, hhashes.legacy l hl _ hinput] at hget
    cases hget
  · have hmemCall : call ∈ cs ++ [(namespace_, body)] := mem_append_left _ hcall
    have hwrittenLt := breakpoint_lt call.1 call.2 hwritten
    have hsame := hhashes.inputs _ (mem_inputs hmemCall hwrittenLt) _ hinput (hwrote.symm.trans hhash)
    obtain ⟨hnamespace, hcontext, hkeys⟩ := prefixInput_inj hsame
    obtain ⟨hcontextMem, hkeysMem⟩ := mem_canonicalValues hmemCall
    obtain ⟨hcontextMem', hkeysMem'⟩ := mem_canonicalValues hself
    have hprefix := keys_of_texts htexts (hkeysMem _) (hkeysMem' _) hkeys
    refine ⟨call, hcall, hnamespace, htexts _ hcontextMem _ hcontextMem' hcontext, written, hwritten, breakpoint,
      hbreakpoint, i, hstart, hle, hprefix, ?_, e, hhash ▸ hentry, hlive⟩
    rw [htokens, hprefix]

theorem Earned.mono {s : System} {cs : List Call} {body : Json} {namespace_ : Str} {now : ℤ} {r tokens : ℕ}
    (h : Earned x s cs body namespace_ now tokens) (hle : r ≤ tokens) : Earned x s cs body namespace_ now r := by
  obtain ⟨call, hcall, hnamespace, hcontext, written, hwritten, breakpoint, hbreakpoint, i, hstart, hend, hkeys,
    htokens, hrest⟩ := h
  exact ⟨call, hcall, hnamespace, hcontext, written, hwritten, breakpoint, hbreakpoint, i, hstart, hend, hkeys,
    hle.trans htokens, hrest⟩

/-! ## Bounds -/

theorem covered_le (namespace_ : Str) (body : Json) :
    (prepare x body namespace_).request.covered ≤ (prepare x body namespace_).total := by
  change (((prepare x body namespace_).breakpoints.getLast?.map fun breakpoint =>
    ((prepare x body namespace_).cumulative.getD breakpoint.blockIndex (0, 0)).1).getD 0) ≤ _
  cases hlast : (prepare x body namespace_).breakpoints.getLast? with
  | none => exact Nat.zero_le _
  | some breakpoint =>
    have hlt := breakpoint_lt namespace_ body (mem_of_getLast? hlast)
    rw [Option.map_some, Option.getD_some, request_at x namespace_ body hlt, total_eq]
    exact prefixTokens_take_le x _ _

theorem computeUsage_bounds (x : Externals) (cache : CacheState) (body : Json) (namespace_ : Str) (now : ℤ)
    (grants : Grants) :
    (computeUsage x cache body namespace_ now grants).1.cacheReadEstimate ≤
        (computeUsage x cache body namespace_ now grants).1.cacheCoveredEstimate ∧
      (computeUsage x cache body namespace_ now grants).1.cacheCoveredEstimate ≤
        (computeUsage x cache body namespace_ now grants).1.promptTotalEstimate := by
  unfold computeUsage
  dsimp only
  split
  · exact ⟨le_rfl, Nat.zero_le _⟩
  · rcases lockedUsage_cases cache now grants (prepare x body namespace_).request with heq | ⟨slotsUsed, heq⟩
    · rw [heq]
      exact ⟨le_rfl, Nat.zero_le _⟩
    · rw [heq]
      exact ⟨min_le_right _ _, covered_le namespace_ body⟩

theorem splitAgainstTotal_sum (usage : PromptCacheUsage) {total : ℤ} (h : total ≤ i32Max) :
    (((usage.splitAgainstTotal total).1 + (usage.splitAgainstTotal total).2.1 +
      (usage.splitAgainstTotal total).2.2 : ℕ) : ℤ) = max total 0 := by
  unfold PromptCacheUsage.splitAgainstTotal
  dsimp only
  split
  · dsimp only
    omega
  · generalize roundedRatio total.toNat _ _ = cacheTotal
    generalize roundedRatio _ _ _ = cacheRead
    dsimp only
    omega

/-! ## Scopes -/

structure PromptCacheScope where
  app : String
  providerId : String
  providerRevision : UInt64
  runtimeFingerprint : String
  accountId : String
  accountOwnerId : String
  authIdentityGeneration : UInt64
  tokenRefreshGeneration : UInt64
  requestIdentity : String
  shareId : String
  signedUser : String
  route : String
  runtimeRegion : String
  session : String

def PromptCacheScope.value (s : PromptCacheScope) : Json :=
  .object [("app", .string s.app), ("providerId", .string s.providerId),
    ("providerRevision", .number (.posInt s.providerRevision)),
    ("runtimeFingerprint", .string s.runtimeFingerprint), ("accountId", .string s.accountId),
    ("accountOwnerId", .string s.accountOwnerId),
    ("authIdentityGeneration", .number (.posInt s.authIdentityGeneration)),
    ("tokenRefreshGeneration", .number (.posInt s.tokenRefreshGeneration)),
    ("requestIdentity", .string s.requestIdentity), ("shareId", .string s.shareId),
    ("signedUser", .string s.signedUser), ("route", .string s.route),
    ("runtimeRegion", .string s.runtimeRegion), ("session", .string s.session)]

def PromptCacheScope.namespace_ (x : Externals) (s : PromptCacheScope) : Str := x.jsonText s.value

theorem scope_of_namespace {s s' : PromptCacheScope}
    (htexts : (x.jsonText s.value).text = (x.jsonText s'.value).text → s.value = s'.value)
    (h : (s.namespace_ x).text = (s'.namespace_ x).text) : s = s' := by
  have hvalue := htexts h
  unfold PromptCacheScope.value at hvalue
  simp only [Json.object.injEq, cons.injEq, Prod.mk.injEq, true_and, and_true, Json.string.injEq,
    Json.number.injEq, Number.posInt.injEq] at hvalue
  obtain ⟨h1, h2, h3, h4, h5, h6, h7, h8, h9, h10, h11, h12, h13, h14⟩ := hvalue
  cases s
  cases s'
  simp_all

/-- In every run, with any starts, a call that reports a read has earned it, what it reports is bounded, and
a call of one scope earns nothing from a call of another. -/
theorem no_phantom_hits (x : Externals) (legacy : Option (OrderedMap ℕ CacheEntry)) (opened : ℤ)
    (startup : Startup) (events : List Event) (body : Json) (namespace_ : Str) (now : ℤ) (grants : Grants)
    (hhashes : HashesApart x legacy (calls events ++ [(namespace_, body)]))
    (htexts : TextsApart x (calls events ++ [(namespace_, body)])) :
    let s := started x legacy opened startup events
    let usage := (computeUsage x s.cache body namespace_ now grants).1
    (0 < usage.cacheReadEstimate → Earned x s (calls events) body namespace_ now usage.cacheReadEstimate) ∧
      usage.cacheReadEstimate ≤ usage.cacheCoveredEstimate ∧
      usage.cacheCoveredEstimate ≤ usage.promptTotalEstimate ∧
      (∀ (usage : PromptCacheUsage) (total : ℤ), total ≤ i32Max →
        (((usage.splitAgainstTotal total).1 + (usage.splitAgainstTotal total).2.1 +
          (usage.splitAgainstTotal total).2.2 : ℕ) : ℤ) = max total 0) ∧
      ∀ scope scope' : PromptCacheScope,
        ((x.jsonText scope.value).text = (x.jsonText scope'.value).text → scope.value = scope'.value) →
          (scope.namespace_ x).text = (scope'.namespace_ x).text → scope = scope' := by
  intro s usage
  obtain ⟨hread, hcovered⟩ := computeUsage_bounds x s.cache body namespace_ now grants
  refine ⟨fun hpos => ?_, hread, hcovered, fun usage total h => splitAgainstTotal_sum usage h,
    fun scope scope' htext h => scope_of_namespace htext h⟩
  have hknown := started_known x legacy opened startup events
  have husage : usage = (computeUsage x s.cache body namespace_ now grants).1 := rfl
  clear_value usage
  subst husage
  unfold computeUsage at hpos ⊢
  dsimp only at hpos ⊢
  split at hpos
  · exact absurd hpos (lt_irrefl _)
  · rename_i hskipped
    rw [if_neg hskipped]
    rcases lockedUsage_cases s.cache now grants (prepare x body namespace_).request with heq | ⟨slotsUsed, heq⟩
    · rw [heq] at hpos
      exact absurd hpos (lt_irrefl _)
    · rw [heq] at hpos ⊢
      obtain ⟨hit, hmem, hdeepest⟩ := deepestRead_mem (hpos.trans_le (min_le_left _ _))
      refine Earned.mono (earned_of_hit hknown hhashes htexts hmem) ?_
      rw [← hdeepest]
      exact min_le_left _ _

theorem stable_texts (names : List Str) : TextsApart stableExternals (names.map fun name => (name, stablePrompt)) := by
  have hcanonical : ∀ v ∈ canonicalValues (names.map fun name => (name, stablePrompt)),
      v = contextValue stablePrompt ∨ v ∈ (keys stablePrompt).map Key.value := by
    intro v hv
    obtain ⟨call, hcall, hmem⟩ := mem_flatMap.mp hv
    obtain ⟨name, -, rfl⟩ := mem_map.mp hcall
    exact mem_cons.mp hmem
  have hkeys : (keys stablePrompt).map Key.value = [((keys stablePrompt).map Key.value).headD .null] := by rfl
  have htext : (stableExternals.jsonText (contextValue stablePrompt)).text ≠
      (stableExternals.jsonText (((keys stablePrompt).map Key.value).headD .null)).text := by
    decide
  intro v hv w hw heq
  have hv' := hcanonical v hv
  have hw' := hcanonical w hw
  rw [hkeys, mem_singleton] at hv' hw'
  rcases hv' with rfl | rfl <;> rcases hw' with rfl | rfl
  · rfl
  · exact absurd heq htext
  · exact absurd heq.symm htext
  · rfl

/-- The second call of a namespace reads what the first one wrote. -/
theorem no_phantom_hits_again :
    let s := started stableExternals none 0 .full [.computeUsage stablePrompt alice 0 granted]
    (computeUsage stableExternals s.cache stablePrompt alice 1 granted).1.cacheReadEstimate = 5 ∧
      Earned stableExternals s [(alice, stablePrompt)] stablePrompt alice 1 5 := by
  have hread : (computeUsage stableExternals
      (started stableExternals none 0 .full [.computeUsage stablePrompt alice 0 granted]).cache
      stablePrompt alice 1 granted).1.cacheReadEstimate = 5 := by
    decide +kernel
  have hearned := (no_phantom_hits stableExternals none 0 .full [.computeUsage stablePrompt alice 0 granted]
    stablePrompt alice 1 granted ⟨by decide +kernel, fun _ hlegacy => nomatch hlegacy⟩ (stable_texts [alice, alice])).1
  rw [hread] at hearned
  exact ⟨hread, hearned (by decide)⟩

end CcSwitchServer.PromptCache
