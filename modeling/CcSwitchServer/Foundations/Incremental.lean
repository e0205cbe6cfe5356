import CcSwitchServer.Foundations.Checked

/-! # Incremental decoders

A decoder keeps the bytes that are not decoded yet; the cuts between the chunks leave no trace.
-/

namespace CcSwitchServer.Foundations

/-- What a step does with the buffer. -/
inductive Next (σ ε α β : Type)
  | more
  | fail (e : ε)
  | take (rest : List β) (out : List α) (s : σ)

/-- One step asks for more, fails, or takes bytes off the front of the buffer. -/
structure Decoder (σ ε α β : Type) where
  next : σ → List β → Next σ ε α β
  shrinks : ∀ {s buffer rest out s'}, next s buffer = .take rest out s' → rest.length < buffer.length

namespace Decoder
variable {σ ε α β : Type}

/-- The step is repeated until it asks for more. -/
def drain (d : Decoder σ ε α β) (s : σ) (buffer : List β) : Except ε (List α × σ × List β) :=
  match h : d.next s buffer with
  | .more => .ok ([], s, buffer)
  | .fail e => .error e
  | .take rest out s' => do
    have := d.shrinks h
    let r ← d.drain s' rest
    pure (out ++ r.1, r.2)
termination_by buffer.length

section
variable {d : Decoder σ ε α β} {s s' : σ} {buffer rest : List β} {out : List α}

theorem drain_more (h : d.next s buffer = .more) : d.drain s buffer = .ok ([], s, buffer) := by
  rw [drain]
  split
  · rfl
  · rename_i heq
    rw [h] at heq
    cases heq
  · rename_i heq
    rw [h] at heq
    cases heq

theorem drain_fail {e : ε} (h : d.next s buffer = .fail e) : d.drain s buffer = .error e := by
  rw [drain]
  split
  · rename_i heq
    rw [h] at heq
    cases heq
  · rename_i heq
    rw [h] at heq
    cases heq
    rfl
  · rename_i heq
    rw [h] at heq
    cases heq

theorem drain_take (h : d.next s buffer = .take rest out s') :
    d.drain s buffer = (do
      let r ← d.drain s' rest
      pure (out ++ r.1, r.2)) := by
  rw [drain]
  split
  · rename_i heq
    rw [h] at heq
    cases heq
  · rename_i heq
    rw [h] at heq
    cases heq
  · rename_i heq
    rw [h] at heq
    cases heq
    rfl

end

variable {d : Decoder σ ε α β}

theorem drain_induction {motive : σ → List β → Prop} (hmore : ∀ {s buffer}, d.next s buffer = .more → motive s buffer)
    (hfail : ∀ {s buffer e}, d.next s buffer = .fail e → motive s buffer)
    (htake : ∀ {s buffer rest out s'}, d.next s buffer = .take rest out s' → motive s' rest → motive s buffer)
    (s : σ) (buffer : List β) : motive s buffer := by
  induction hn : buffer.length using Nat.strongRecOn generalizing s buffer with
  | ind n ih =>
    cases h : d.next s buffer with
    | more => exact hmore h
    | fail e => exact hfail h
    | take rest out s' => exact htake h (ih rest.length (hn ▸ d.shrinks h) s' rest rfl)

variable {rest : List β}

theorem drain_idle {s s' : σ} {buffer : List β} {out : List α} (h : d.drain s buffer = .ok (out, s', rest)) :
    d.next s' rest = .more := by
  induction s, buffer using drain_induction (d := d) generalizing out with
  | hmore hnext =>
    rw [drain_more hnext] at h
    cases h
    exact hnext
  | hfail hnext =>
    rw [drain_fail hnext] at h
    cases h
  | htake hnext ih =>
    rw [drain_take hnext] at h
    obtain ⟨⟨out', s'', rest'⟩, hr, h⟩ := bind_eq_ok.mp h
    cases h
    exact ih hr

/-! ## Bytes behind the buffer -/

/-- What `d` decides, `d'` decides in the same way with more bytes behind the buffer. -/
structure Continues (d d' : Decoder σ ε α β) : Prop where
  take : ∀ {s buffer rest out s'}, d.next s buffer = .take rest out s' →
    ∀ behind, d'.next s (buffer ++ behind) = .take (rest ++ behind) out s'
  fail : ∀ {s buffer e}, d.next s buffer = .fail e → ∀ behind, d'.next s (buffer ++ behind) = .fail e

theorem drain_append {d' : Decoder σ ε α β} (h : Continues d d') (s : σ) (buffer behind : List β) :
    d'.drain s (buffer ++ behind) = (do
      let r ← d.drain s buffer
      let r' ← d'.drain r.2.1 (r.2.2 ++ behind)
      pure (r.1 ++ r'.1, r'.2)) := by
  induction s, buffer using drain_induction (d := d) with
  | hmore hnext =>
    rw [drain_more hnext, ok_bind]
    cases d'.drain _ _ with
    | error e => rfl
    | ok r => rfl
  | hfail hnext =>
    rw [drain_fail hnext, drain_fail (h.fail hnext behind)]
    rfl
  | htake hnext ih =>
    rw [drain_take hnext, drain_take (h.take hnext behind), ih]
    simp only [bind_assoc, pure_bind, List.append_assoc]

/-! ## What was decoded before a failure -/

/-- The outputs up to the point where the loop stops, and how it stops there. -/
def trail (d : Decoder σ ε α β) (s : σ) (buffer : List β) : List α × Except ε (σ × List β) :=
  match h : d.next s buffer with
  | .more => ([], .ok (s, buffer))
  | .fail e => ([], .error e)
  | .take rest out s' =>
    have := d.shrinks h
    let r := d.trail s' rest
    (out ++ r.1, r.2)
termination_by buffer.length

section
variable {d : Decoder σ ε α β} {s s' : σ} {buffer rest : List β} {out : List α}

theorem trail_more (h : d.next s buffer = .more) : d.trail s buffer = ([], .ok (s, buffer)) := by
  rw [trail]
  split
  · rfl
  · rename_i heq
    rw [h] at heq
    cases heq
  · rename_i heq
    rw [h] at heq
    cases heq

theorem trail_fail {e : ε} (h : d.next s buffer = .fail e) : d.trail s buffer = ([], .error e) := by
  rw [trail]
  split
  · rename_i heq
    rw [h] at heq
    cases heq
  · rename_i heq
    rw [h] at heq
    cases heq
    rfl
  · rename_i heq
    rw [h] at heq
    cases heq

theorem trail_take (h : d.next s buffer = .take rest out s') :
    d.trail s buffer = (out ++ (d.trail s' rest).1, (d.trail s' rest).2) := by
  rw [trail]
  split
  · rename_i heq
    rw [h] at heq
    cases heq
  · rename_i heq
    rw [h] at heq
    cases heq
  · rename_i heq
    rw [h] at heq
    cases heq
    rfl

end

variable {d : Decoder σ ε α β} {s : σ} {buffer : List β}

theorem trail_idle {s' : σ} (h : (d.trail s buffer).2 = .ok (s', rest)) : d.next s' rest = .more := by
  induction s, buffer using drain_induction (d := d) with
  | hmore hnext =>
    rw [trail_more hnext] at h
    cases h
    exact hnext
  | hfail hnext =>
    rw [trail_fail hnext] at h
    cases h
  | htake hnext ih =>
    rw [trail_take hnext] at h
    exact ih h

theorem trail_append_ok (hd : Continues d d) {s' : σ} (h : (d.trail s buffer).2 = .ok (s', rest))
    (behind : List β) :
    d.trail s (buffer ++ behind) =
      ((d.trail s buffer).1 ++ (d.trail s' (rest ++ behind)).1, (d.trail s' (rest ++ behind)).2) := by
  induction s, buffer using drain_induction (d := d) with
  | hmore hnext =>
    rw [trail_more hnext] at h ⊢
    cases h
    rfl
  | hfail hnext =>
    rw [trail_fail hnext] at h
    cases h
  | htake hnext ih =>
    rw [trail_take hnext] at h ⊢
    rw [trail_take (hd.take hnext behind), ih h, List.append_assoc]

theorem trail_append_error (hd : Continues d d) {e : ε} (h : (d.trail s buffer).2 = .error e) (behind : List β) :
    d.trail s (buffer ++ behind) = d.trail s buffer := by
  induction s, buffer using drain_induction (d := d) with
  | hmore hnext =>
    rw [trail_more hnext] at h
    cases h
  | hfail hnext => rw [trail_fail hnext, trail_fail (hd.fail hnext behind)]
  | htake hnext ih =>
    rw [trail_take hnext] at h ⊢
    rw [trail_take (hd.take hnext behind), ih h]

end Decoder

end CcSwitchServer.Foundations
