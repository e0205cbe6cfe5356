import CcSwitchServer.ServerSqlite.WalWriter

/-! # The tail of a log

What is valid in a log whose last append was cut off, when frames with other salts lie behind it.
-/

namespace CcSwitchServer.ServerSqlite
open Foundations List

/-! ## Lists of chunks of one length -/

section
variable {α : Type} {chunks : List (List α)} {n : ℕ}

variable (h : ∀ c ∈ chunks, c.length = n)
include h

theorem length_flatten_of_chunks : chunks.flatten.length = chunks.length * n := by
  induction chunks with
  | nil => rw [flatten_nil, length_nil, length_nil, Nat.zero_mul]
  | cons c chunks ih =>
    rw [flatten_cons, length_append, h c mem_cons_self, length_cons, Nat.succ_mul,
      ih fun x hx => h x (mem_cons_of_mem _ hx)]
    omega

theorem drop_flatten_of_chunks (j : ℕ) :
    chunks.flatten.drop (j * n) = (chunks.drop j).flatten := by
  induction j generalizing chunks with
  | zero => rw [Nat.zero_mul]; rfl
  | succ j ih =>
    cases chunks with
    | nil => rw [flatten_nil, drop_nil, drop_nil]; rfl
    | cons c chunks =>
      rw [flatten_cons, drop_succ_cons, Nat.succ_mul, Nat.add_comm, ← drop_drop,
        drop_left' (h c mem_cons_self), ih fun x hx => h x (mem_cons_of_mem _ hx)]

theorem prefix_flatten_of_chunks {front : List α}
    (hfront : front <+: chunks.flatten) :
    front.length / n ≤ chunks.length ∧ ∃ part, front = (chunks.take (front.length / n)).flatten ++ part ∧
      part.length = front.length % n := by
  have hle := hfront.length_le
  rw [length_flatten_of_chunks h] at hle
  have hj : front.length / n ≤ chunks.length := Nat.div_le_of_le_mul (by rw [Nat.mul_comm]; exact hle)
  have hdivmod : front.length = front.length / n * n + front.length % n := by
    rw [Nat.mul_comm]
    exact (Nat.div_add_mod front.length n).symm
  have htake : ((chunks.take (front.length / n)).flatten).length = front.length / n * n := by
    rw [length_flatten_of_chunks fun c hc => h c (mem_of_mem_take hc), length_take, Nat.min_eq_left hj]
  have hsplit : chunks.flatten = (chunks.take (front.length / n)).flatten ++ (chunks.drop (front.length / n)).flatten := by
    rw [← flatten_append, take_append_drop]
  refine ⟨hj, ((chunks.drop (front.length / n)).flatten).take (front.length % n), ?_, ?_⟩
  · have hfront' := prefix_iff_eq_take.mp hfront
    rw [hsplit, take_append, htake] at hfront'
    rw [take_of_length_le (by rw [htake]; omega)] at hfront'
    rw [show front.length - front.length / n * n = front.length % n by omega] at hfront'
    exact hfront'
  · rw [length_take, length_flatten_of_chunks fun c hc => h c (mem_of_mem_drop hc), length_drop,
      Nat.mul_sub_right_distrib]
    omega

end

/-! ## Frames with other salts -/

/-- Frames that have other salts than the header. -/
def LeftOver (h : Header) (tail : List (List UInt8)) : Prop :=
  ∀ c ∈ tail, c.length = frameLength h.pageSize ∧ slice c 8 16 ≠ h.salt

namespace Header
variable {h : Header} {tail : List (List UInt8)} {sum : Sum}

variable {count : ℕ}

theorem chain_leftOver (htail : LeftOver h tail) (hcount : count ≤ tail.length) :
    h.chain count sum tail.flatten = [] := by
  cases tail with
  | nil =>
    rw [Nat.le_zero.mp hcount]
    rfl
  | cons c tail =>
    obtain ⟨hlength, hsalt⟩ := htail c mem_cons_self
    apply chain_of_other_salt
    rw [flatten_cons, take_left' hlength]
    exact hsalt

theorem leftOver_drop (htail : LeftOver h tail) (j : ℕ) : LeftOver h (tail.drop j) :=
  fun c hc => htail c (mem_of_mem_drop hc)

theorem chain_part (htail : LeftOver h tail) {part : List UInt8} (hpart : part.length < frameLength h.pageSize)
    (hcount : count = (part.length + (tail.flatten.drop part.length).length) / frameLength h.pageSize) :
    (h.chain count sum (part ++ tail.flatten.drop part.length)).length ≤ 1 ∧
      (part = [] ∨ tail = [] → h.chain count sum (part ++ tail.flatten.drop part.length) = []) := by
  have hpos : 0 < frameLength h.pageSize := by unfold frameLength; omega
  have htotal := length_flatten_of_chunks (fun c hc => (htail c hc).1)
  cases tail with
  | nil =>
    have hzero : count = 0 := by
      rw [hcount, flatten_nil, drop_nil, length_nil, Nat.add_zero]
      exact Nat.div_eq_of_lt hpart
    rw [hzero]
    exact ⟨Nat.zero_le _, fun _ => rfl⟩
  | cons c rest =>
    have hcount' : count = rest.length + 1 := by
      rw [length_drop, htotal, length_cons, Nat.succ_mul] at hcount
      rw [hcount, show part.length + (rest.length * frameLength h.pageSize + frameLength h.pageSize - part.length) =
        (rest.length + 1) * frameLength h.pageSize by rw [Nat.succ_mul]; omega]
      exact Nat.mul_div_cancel _ hpos
    constructor
    · rw [hcount', chain]
      split
      · have hdrop : (part ++ (c :: rest).flatten.drop part.length).drop (frameLength h.pageSize) = rest.flatten := by
          rw [drop_append, drop_eq_nil_of_le hpart.le, nil_append, drop_drop, Nat.add_sub_cancel' hpart.le]
          have h' := drop_flatten_of_chunks (fun c hc => (htail c hc).1) 1
          rwa [Nat.one_mul] at h'
        have hrest : LeftOver h rest := leftOver_drop htail 1
        rw [hdrop, chain_leftOver hrest (Nat.le_refl _)]
        exact Nat.le_refl _
      · exact Nat.zero_le _
    · rintro (rfl | hnil)
      · rw [hcount']
        exact chain_leftOver htail (Nat.le_refl _)
      · cases hnil

/-! ## A log that was cut off -/

variable {done new : List Frame}

theorem chain_laid (hsalt : h.salt.length = 8) (hdone : ∀ f ∈ done, f.data.length = h.pageSize)
    (hnew : ∀ f ∈ new, f.data.length = h.pageSize) (htail : LeftOver h tail) {written : List UInt8}
    (hwritten : written <+: (h.encodeFrames (h.sumAfter sum done) new).flatten)
    (hcount : count = ((h.encodeFrames sum done).flatten ++
      (written ++ tail.flatten.drop written.length)).length / frameLength h.pageSize) :
    written.length / frameLength h.pageSize ≤ new.length ∧
    ∃ torn, h.chain count sum ((h.encodeFrames sum done).flatten ++ (written ++ tail.flatten.drop written.length)) =
      h.encodeFrames sum (done ++ new.take (written.length / frameLength h.pageSize)) ++ torn ∧
      torn.length ≤ 1 ∧ (written.length % frameLength h.pageSize = 0 ∨
        tail.length * frameLength h.pageSize ≤ written.length → torn = []) := by
  have hpos : 0 < frameLength h.pageSize := by unfold frameLength; omega
  have hchunks : ∀ c ∈ h.encodeFrames (h.sumAfter sum done) new, c.length = frameLength h.pageSize :=
    fun c hc => length_of_mem_encodeFrames hsalt hnew hc
  obtain ⟨hj, part, hsplit, hpart⟩ := prefix_flatten_of_chunks hchunks hwritten
  rw [length_encodeFrames] at hj
  generalize hjdef : written.length / frameLength h.pageSize = j at hj hsplit ⊢
  have hpartlt : part.length < frameLength h.pageSize := hpart ▸ Nat.mod_lt _ hpos
  have htake : (h.encodeFrames (h.sumAfter sum done) new).take j =
      h.encodeFrames (h.sumAfter sum done) (new.take j) := by
    have happend := h.encodeFrames_append (h.sumAfter sum done) (new.take j) (new.drop j)
    rw [take_append_drop] at happend
    rw [happend]
    exact take_left' (by rw [length_encodeFrames, length_take, Nat.min_eq_left hj])
  have hwlength : written.length = j * frameLength h.pageSize + part.length := by
    rw [hpart, ← hjdef, Nat.mul_comm]
    exact (Nat.div_add_mod _ _).symm
  have hfront : ∀ f ∈ done ++ new.take j, f.data.length = h.pageSize := by
    intro f hf
    rcases mem_append.mp hf with hf | hf
    · exact hdone f hf
    · exact hnew f (mem_of_mem_take hf)
  have hdroptail : tail.flatten.drop written.length = (tail.drop j).flatten.drop part.length := by
    rw [hwlength, ← drop_drop, drop_flatten_of_chunks fun c hc => (htail c hc).1]
  have hfile : (h.encodeFrames sum done).flatten ++ (written ++ tail.flatten.drop written.length) =
      (h.encodeFrames sum (done ++ new.take j)).flatten ++ (part ++ (tail.drop j).flatten.drop part.length) := by
    have hglue : ∀ behind, written ++ behind =
        ((h.encodeFrames (h.sumAfter sum done) new).take j).flatten ++ (part ++ behind) := by
      intro behind
      rw [← append_assoc, ← hsplit]
    rw [hdroptail, hglue, encodeFrames_append, flatten_append, ← htake, append_assoc]
  have hfrontlength : ((h.encodeFrames sum (done ++ new.take j)).flatten).length =
      (done ++ new.take j).length * frameLength h.pageSize := by
    rw [length_flatten_of_chunks fun c hc => length_of_mem_encodeFrames hsalt hfront hc, length_encodeFrames]
  obtain ⟨rest, hrest⟩ : ∃ rest,
      rest = (part.length + ((tail.drop j).flatten.drop part.length).length) / frameLength h.pageSize := ⟨_, rfl⟩
  have hcount' : count = (done ++ new.take j).length + rest := by
    rw [hcount, hfile, length_append, hfrontlength, Nat.add_comm, Nat.add_mul_div_right _ _ hpos, hrest,
      ← @length_append _ part, Nat.add_comm]
  refine ⟨hj, h.chain rest (h.sumAfter sum (done ++ new.take j)) (part ++ (tail.drop j).flatten.drop part.length),
    ?_, ?_, ?_⟩
  · rw [hfile, hcount', chain_encodeFrames hsalt hfront]
  · exact (chain_part (leftOver_drop htail j) hpartlt hrest).1
  · intro hwhole
    refine (chain_part (leftOver_drop htail j) hpartlt hrest).2 ?_
    rcases hwhole with hmod | hcovered
    · exact .inl (length_eq_zero_iff.mp (hpart.trans hmod))
    · by_cases hle : tail.length ≤ j
      · exact .inr (drop_eq_nil_of_le hle)
      · have hlt : (j + 1) * frameLength h.pageSize ≤ tail.length * frameLength h.pageSize :=
          Nat.mul_le_mul_right _ (Nat.lt_of_not_le hle)
        rw [Nat.succ_mul] at hlt
        omega

end Header

end CcSwitchServer.ServerSqlite
