import CcSwitchServer.ClaudeThread.Cache

/-! # What a thread reads back (`ClaudeThreadAliasCache`)

What a run of saves and lookups keeps of an entry.
-/

namespace CcSwitchServer.ClaudeThread
open Foundations ClaudeTools Cache OrderedMap List

section
variable {σ : Type} [LinearOrder σ] {c : Cache σ} {key : Key σ} {e : Entry}

/-! ## One save -/

def Cache.counted (c : Cache σ) (now : ℤ) : Cache σ := { c.expire now with sequence := saturatingAdd c.sequence 1 }

/-- What a save does to the entries. -/
inductive Saved (c : Cache σ) (key : Key σ) (aliases : Names) (now : ℤ) : Bool × Cache σ → Prop
  | refused (h : ∀ e, c.entries.get? key = some e → now < e.expiresAtMs → e.conflicted = true) :
      Saved c key aliases now (false, c.counted now)
  | poisoned (e : Entry) (hget : (c.counted now).entries.get? key = some e)
      (hne : e.aliases.entries ≠ aliases.entries) :
      Saved c key aliases now (false, { c.counted now with
        entries := (c.counted now).entries.insert key { e with conflicted := true } })
  | renewed (e : Entry) (hget : (c.counted now).entries.get? key = some e) (hready : e.conflicted = false)
      (heq : e.aliases.entries = aliases.entries) :
      Saved c key aliases now (true, { c.counted now with
        entries := (c.counted now).entries.insert key
          { e with expiresAtMs := deadline now, sequence := (c.counted now).sequence } })
  | created (bytes : ℕ) (hget : (c.counted now).entries.get? key = none) (hbytes : bytes ≤ maxEntryBytes) :
      Saved c key aliases now (true, evict ((c.counted now).entries.insert key
          ⟨aliases, false, bytes, deadline now, (c.counted now).sequence⟩).size { c.counted now with
          bytes := saturatingAdd (c.counted now).bytes bytes
          entries := (c.counted now).entries.insert key
            ⟨aliases, false, bytes, deadline now, (c.counted now).sequence⟩ })

theorem save_invalid {messageId : String} (h : validMessageId messageId = false) (c : Cache σ) (scope : σ)
    (aliases : Names) (now : ℤ) (overhead : ℕ) (granted : Bool) :
    c.save scope messageId aliases now overhead granted = (false, c.expire now) := by
  unfold save
  rw [h, if_pos (by rfl)]

theorem saved_save {messageId : String} (h : validMessageId messageId = true) (c : Cache σ) (scope : σ)
    (aliases : Names) (now : ℤ) (overhead : ℕ) (granted : Bool) :
    Saved c (keyOf scope messageId) aliases now (c.save scope messageId aliases now overhead granted) := by
  unfold save
  dsimp only
  split
  · rename_i hinvalid
    rw [h] at hinvalid
    cases hinvalid
  · split
    · rename_i existing hget
      have hold := get?_expire.mp hget
      split
      · rename_i hconflicted
        refine .refused fun e he _ => ?_
        rw [hold.1] at he
        cases he
        exact hconflicted
      · rename_i hready
        split
        · rename_i hne
          exact .poisoned existing hget hne
        · rename_i heq
          exact .renewed existing hget (by simpa using hready) (not_not.mp heq)
    · rename_i hget
      change (c.counted now).entries.get? _ = _ at hget
      unfold insertNew
      dsimp only
      split
      · refine .refused fun e he hlive => ?_
        have hlive' := get?_expire.mpr ⟨he, hlive⟩
        change (c.counted now).entries.get? _ = _ at hlive'
        rw [hget] at hlive'
        cases hlive'
      · rename_i hfits
        rw [not_or, not_or] at hfits
        exact .created _ hget (Nat.le_of_not_lt hfits.2.1)

variable {now : ℤ} {e' : Entry} {aliases : Names} {r : Bool × Cache σ}

theorem get?_counted : (c.counted now).entries.get? key = some e ↔
    c.entries.get? key = some e ∧ now < e.expiresAtMs := get?_expire

/-! ## Counters -/

theorem Sound.empty : Sound ({} : Cache σ) where
  bytes := rfl
  entry _ _ h := by cases h
  sequence := Nat.zero_le _
  size := Nat.zero_le _
  total := Nat.zero_le _

theorem le_saturatingAdd_one {a b : ℕ} (h : a ≤ b) (hb : b ≤ u64Max) : a ≤ saturatingAdd b 1 := by
  unfold saturatingAdd
  omega

section
variable (h : Sound c)
include h

theorem Sound.counted (now : ℤ) : Sound (c.counted now) := by
  have hexpired := h.expire now
  refine ⟨⟨hexpired.bytes, fun k e he => ?_, min_le_right _ _⟩, hexpired.size, hexpired.total⟩
  obtain ⟨hbytes, hsequence⟩ := hexpired.entry k e he
  exact ⟨hbytes, le_saturatingAdd_one hsequence h.sequence⟩

theorem Sound.replace (hget : c.entries.get? key = some e) (hbytes : e'.bytes = e.bytes)
    (hsequence : e'.sequence ≤ c.sequence) : Sound { c with entries := c.entries.insert key e' } := by
  have hsum := sum_values_update Entry.bytes e' hget
  have hcounter := h.bytes
  refine ⟨⟨?_, fun k x hx => ?_, h.sequence⟩, ?_, h.total⟩
  · unfold bytesSum at hcounter ⊢
    dsimp only
    omega
  · dsimp only at hx ⊢
    rw [get?_insert] at hx
    split at hx
    · cases hx
      exact ⟨hbytes ▸ (h.entry key e hget).1, hsequence⟩
    · exact h.entry k x hx
  · dsimp only
    rw [size_insert_of_get? _ hget]
    exact h.size

theorem Counted.insert (hget : c.entries.get? key = none) {e : Entry}
    (hbytes : e.bytes ≤ maxEntryBytes) (hsequence : e.sequence ≤ c.sequence) :
    Counted { c with bytes := saturatingAdd c.bytes e.bytes, entries := c.entries.insert key e } := by
  refine ⟨?_, fun k x hx => ?_, h.sequence⟩
  · have hsum := sum_values_insert Entry.bytes c.entries key e
    rw [hget] at hsum
    have hcounter := h.bytes
    have htotal := h.total
    have hroom : maxBytes + maxEntryBytes ≤ u64Max := by decide
    have hexact : saturatingAdd c.bytes e.bytes = c.bytes + e.bytes := min_eq_left (by omega)
    unfold bytesSum at hcounter ⊢
    dsimp only
    rw [hexact]
    change _ + 0 = _ at hsum
    omega
  · dsimp only at hx ⊢
    rw [get?_insert] at hx
    split at hx
    · cases hx
      exact ⟨hbytes, hsequence⟩
    · exact h.entry k x hx

theorem Sound.save (hsaved : Saved c key aliases now r) : Sound r.2 := by
  cases hsaved with
  | refused _ => exact h.counted now
  | poisoned e hget hne =>
    exact (h.counted now).replace hget rfl ((h.counted now).entry key e hget).2
  | renewed e hget hready heq => exact (h.counted now).replace hget rfl le_rfl
  | created bytes hget hbytes =>
    have hcounted := Counted.insert (h.counted now) hget
      (e := ⟨aliases, false, bytes, deadline now, (c.counted now).sequence⟩) hbytes le_rfl
    have hover := hcounted.not_over le_rfl
    unfold Cache.Over at hover
    rw [not_or] at hover
    exact ⟨hcounted.evict _, Nat.le_of_not_lt hover.1, Nat.le_of_not_lt hover.2⟩

theorem Sound.step (o : Call σ) : Sound (c.step o) := by
  cases o with
  | lookup scope messageId now granted =>
    change Sound (c.lookupWith scope messageId now granted).2
    rw [lookupWith_cache]
    exact h.expire now
  | save scope messageId aliases now overhead granted =>
    change Sound (c.save scope messageId aliases now overhead granted).2
    cases hvalid : validMessageId messageId with
    | true => exact h.save (saved_save hvalid c scope aliases now overhead granted)
    | false =>
      rw [save_invalid hvalid]
      exact h.expire now

end

variable (calls : List (Call σ))

theorem sound_after : Sound (after calls) :=
  run_invariant (fun _ o h _ => h.step o) Sound.empty (.of_forall (fun _ _ => trivial) _ calls)

/-! ## The entry of a key -/

/-- The key has an entry before its deadline. -/
def Live (c : Cache σ) (key : Key σ) (now : ℤ) : Prop := ∃ e, c.entries.get? key = some e ∧ now < e.expiresAtMs

variable {scope : σ} {messageId : String}

theorem Saved.other {key' : Key σ} (h : Saved c key' aliases now r) (hne : key' ≠ key)
    (hget : r.2.entries.get? key = some e) : c.entries.get? key = some e ∧ now < e.expiresAtMs := by
  cases h with
  | refused _ => exact get?_counted.mp hget
  | poisoned _ _ _ =>
    rw [get?_insert_of_ne _ _ hne] at hget
    exact get?_counted.mp hget
  | renewed _ _ _ _ =>
    rw [get?_insert_of_ne _ _ hne] at hget
    exact get?_counted.mp hget
  | created _ _ _ =>
    have hget' := evict_get hget
    rw [get?_insert_of_ne _ _ hne] at hget'
    exact get?_counted.mp hget'

theorem Saved.same (h : Saved c key aliases now r) (hget : r.2.entries.get? key = some e') :
    (∃ e, c.entries.get? key = some e ∧ now < e.expiresAtMs ∧ e'.aliases = e.aliases ∧
      (e.conflicted = true → e'.conflicted = true) ∧ (aliases = e'.aliases ∨ e'.conflicted = true)) ∨
    (¬Live c key now ∧ aliases = e'.aliases) := by
  cases h with
  | refused hrefused =>
    obtain ⟨hold, hlive⟩ := get?_counted.mp hget
    exact .inl ⟨e', hold, hlive, rfl, id, .inr (hrefused e' hold hlive)⟩
  | poisoned e he hne =>
    rw [get?_insert_self] at hget
    cases hget
    obtain ⟨hold, hlive⟩ := get?_counted.mp he
    exact .inl ⟨e, hold, hlive, rfl, fun _ => rfl, .inr rfl⟩
  | renewed e he hready heq =>
    rw [get?_insert_self] at hget
    cases hget
    obtain ⟨hold, hlive⟩ := get?_counted.mp he
    exact .inl ⟨e, hold, hlive, rfl, id, .inl (ext_entries heq.symm)⟩
  | created bytes hnone hbytes =>
    have hget' := evict_get hget
    rw [get?_insert_self] at hget'
    cases hget'
    refine .inr ⟨?_, rfl⟩
    rintro ⟨e, he, hlive⟩
    rw [get?_counted.mpr ⟨he, hlive⟩] at hnone
    cases hnone

end

end CcSwitchServer.ClaudeThread
