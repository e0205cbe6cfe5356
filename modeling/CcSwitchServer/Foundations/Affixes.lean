import CcSwitchServer.Foundations.Text

/-! # What the affix operations take away

Each operation that cuts a text gives back the pieces; here the text is put together again.
-/

namespace CcSwitchServer.Foundations.Text
open List String

variable {sep : Char} {cs pat rest a b : List Char} {n : ℕ}

/-! ## Cuts -/

theorem stripPrefix_some (h : stripPrefix pat cs = some rest) : cs = pat ++ rest := by
  unfold stripPrefix at h
  split at h
  · rename_i hpre
    cases h
    obtain ⟨tail, rfl⟩ := isPrefixOf_iff_prefix.mp hpre
    rw [drop_left]
  · cases h

theorem stripSuffix_some (h : stripSuffix pat cs = some rest) : cs = rest ++ pat := by
  unfold stripSuffix at h
  split at h
  · rename_i hsuf
    cases h
    obtain ⟨front, rfl⟩ := isSuffixOf_iff_suffix.mp hsuf
    rw [List.length_append, Nat.add_sub_cancel, List.take_left]
  · cases h

theorem splitOnce_some (h : splitOnce sep cs = some (a, b)) : cs = a ++ sep :: b ∧ sep ∉ a := by
  induction cs generalizing a with
  | nil => cases h
  | cons c cs ih =>
    unfold splitOnce at h
    split at h
    · rename_i hc
      cases h
      exact ⟨by rw [hc, nil_append], not_mem_nil⟩
    · rename_i hc
      obtain ⟨⟨a', b'⟩, hsplit, heq⟩ := Option.map_eq_some_iff.mp h
      cases heq
      obtain ⟨rfl, hnone⟩ := ih hsplit
      refine ⟨rfl, fun hmem => ?_⟩
      obtain rfl | hmem := mem_cons.mp hmem
      · exact hc rfl
      · exact hnone hmem

theorem find_some (h : find pat cs = some n) : pat <+: cs.drop n ∧ n ≤ cs.length := by
  induction cs generalizing n with
  | nil =>
    unfold find at h
    split at h
    · rename_i hpat
      cases h
      rw [hpat]
      exact ⟨ nil_prefix, Nat.le_refl _⟩
    · cases h
  | cons c cs ih =>
    unfold find at h
    split at h
    · rename_i hpre
      cases h
      exact ⟨ isPrefixOf_iff_prefix.mp hpre, Nat.zero_le _⟩
    · obtain ⟨m, hm, rfl⟩ := Option.map_eq_some_iff.mp h
      obtain ⟨hpre, hle⟩ := ih hm
      exact ⟨hpre, Nat.succ_le_succ hle⟩

theorem rsplitOnce_some (h : rsplitOnce pat cs = some (a, b)) : cs = a ++ pat ++ b := by
  obtain ⟨m, hm, heq⟩ := Option.map_eq_some_iff.mp h
  cases heq
  obtain ⟨⟨front, hfront⟩, hle⟩ := find_some hm
  rw [List.length_reverse] at hle
  have hreverse : cs = front.reverse ++ pat ++ (cs.reverse.take m).reverse := by
    have hcut := List.take_append_drop m cs.reverse
    rw [← hfront] at hcut
    have hback := congrArg List.reverse hcut
    rw [List.reverse_reverse, List.reverse_append, List.reverse_append, List.reverse_reverse] at hback
    exact hback.symm
  have hlength : (cs.reverse.take m).reverse.length = m := by
    rw [List.length_reverse, List.length_take, List.length_reverse, Nat.min_eq_left hle]
  have htotal := congrArg List.length hreverse
  rw [List.length_append, List.length_append, hlength] at htotal
  have htake : cs.take (cs.length - m - pat.length) = front.reverse := by
    rw [htotal, Nat.add_sub_cancel, Nat.add_sub_cancel, hreverse, List.append_assoc, List.take_left]
  have hdrop : cs.drop (cs.length - m) = (cs.reverse.take m).reverse := by
    rw [htotal, Nat.add_sub_cancel]
    nth_rewrite 1 [hreverse]
    rw [← List.length_append, List.drop_left]
  rw [htake, hdrop]
  exact hreverse

theorem splitOn_ne_nil (sep : Char) (cs : List Char) : splitOn sep cs ≠ [] := by
  induction cs with
  | nil => exact cons_ne_nil _ _
  | cons c cs ih =>
    unfold splitOn
    split
    · exact cons_ne_nil _ _
    · split
      · exact cons_ne_nil _ _
      · exact cons_ne_nil _ _

theorem splitOn_last (sep : Char) (cs : List Char) :
    ∃ front, cs = front ++ (splitOn sep cs).getLastD [] ∧ sep ∉ (splitOn sep cs).getLastD [] ∧
      ((splitOn sep cs).tail = [] ∧ front = [] ∨ (splitOn sep cs).tail ≠ [] ∧ ∃ front', front = front' ++ [sep]) := by
  induction cs with
  | nil => exact ⟨[], rfl, not_mem_nil, .inl ⟨rfl, rfl⟩⟩
  | cons c cs ih =>
    obtain ⟨front, hcs, hnone, hfront⟩ := ih
    unfold splitOn
    cases hparts : splitOn sep cs with
    | nil => exact absurd hparts (splitOn_ne_nil sep cs)
    | cons part parts =>
      rw [hparts] at hcs hnone hfront
      dsimp only
      split
      · rename_i hc
        refine ⟨c :: front, ?_, ?_, .inr ⟨cons_ne_nil _ _, ?_⟩⟩
        · rw [getLastD_cons, cons_append]
          congr 1
        · rw [getLastD_cons]
          exact hnone
        · obtain ⟨-, rfl⟩ | ⟨-, front', rfl⟩ := hfront
          · exact ⟨[], by rw [hc, nil_append]⟩
          · exact ⟨c :: front', rfl⟩
      · rename_i hc
        cases parts with
        | nil =>
          obtain ⟨-, rfl⟩ | ⟨hmore, -⟩ := hfront
          · refine ⟨[], ?_, ?_, .inl ⟨rfl, rfl⟩⟩
            · rw [hcs]
              rfl
            · intro hmem
              obtain rfl | hmem := mem_cons.mp hmem
              · exact hc rfl
              · exact hnone hmem
          · exact absurd rfl hmore
        | cons part' parts =>
          obtain ⟨hone, -⟩ | ⟨-, front', rfl⟩ := hfront
          · cases hone
          · refine ⟨c :: (front' ++ [sep]), ?_, hnone, .inr ⟨cons_ne_nil _ _, c :: front', rfl⟩⟩
            rw [hcs]
            rfl

theorem trimChars_infix (cs : List Char) : ∃ front back, cs = front ++ trimChars cs ++ back ∧
    (∀ c ∈ front, isWhiteSpace c) ∧ ∀ c ∈ back, isWhiteSpace c := by
  refine ⟨cs.takeWhile isWhiteSpace, (cs.dropWhile isWhiteSpace).rtakeWhile isWhiteSpace, ?_, ?_, ?_⟩
  · have hback := rdropWhile_append_rtakeWhile (p := isWhiteSpace) (l := cs.dropWhile isWhiteSpace)
    rw [List.append_assoc]
    show cs = cs.takeWhile isWhiteSpace ++ ((cs.dropWhile isWhiteSpace).rdropWhile isWhiteSpace ++ _)
    rw [hback, List.takeWhile_append_dropWhile]
  · exact fun c hc => mem_takeWhile_imp hc
  · exact fun c hc => mem_rtakeWhile_imp hc

/-! ## Byte offsets -/

/-- The text before and after a byte offset; none where the offset is not a character boundary, at
which slicing panics. -/
def splitAtByte : ℕ → List Char → Option (List Char × List Char)
  | 0, cs => some ([], cs)
  | _ + 1, [] => none
  | n + 1, c :: cs =>
    if c.utf8Size ≤ n + 1 then
      (splitAtByte (n + 1 - c.utf8Size) cs).map fun p => (c :: p.1, p.2)
    else none

def encoded (cs : List Char) : List UInt8 := cs.flatMap utf8EncodeChar

theorem splitAtByte_utf8Len (a b : List Char) : splitAtByte (utf8Len a) (a ++ b) = some (a, b) := by
  induction a with
  | nil => cases b <;> rfl
  | cons c a ih =>
    have hpos := c.utf8Size_pos
    obtain ⟨m, hm⟩ : ∃ m, utf8Len (c :: a) = m + 1 := Nat.exists_eq_succ_of_ne_zero (by rw [utf8Len_cons]; omega)
    rw [hm, cons_append, splitAtByte]
    rw [utf8Len_cons] at hm
    have hrest : m + 1 - c.utf8Size = utf8Len a := by omega
    rw [if_pos (by omega), hrest, ih]
    rfl

theorem length_encoded (cs : List Char) : (encoded cs).length = utf8Len cs := by
  induction cs with
  | nil => rfl
  | cons c cs ih =>
    have hcons : encoded (c :: cs) = utf8EncodeChar c ++ encoded cs := rfl
    rw [hcons, List.length_append, ih, String.length_utf8EncodeChar, String.utf8Len_cons, Nat.add_comm]

theorem last_byte_dot (c : Char) : (String.utf8EncodeChar c)[c.utf8Size - 1]? = some 0x2E ↔ c = '.' := by
  constructor
  · intro h
    obtain ⟨hlt, hbyte⟩ := List.getElem?_eq_some_iff.mp h
    have hfirst : c.utf8Size - 1 = 0 := by
      have hbegins : (String.utf8EncodeChar c)[c.utf8Size - 1].IsUTF8FirstByte := by
        rw [hbyte]
        decide
      exact UInt8.isUTF8FirstByte_getElem_utf8EncodeChar.mp hbegins
    have hpos := c.utf8Size_pos
    have hsize : c.utf8Size = 1 := by omega
    simp only [String.utf8EncodeChar_eq_singleton hsize, hsize, Nat.sub_self, List.getElem?_cons_zero,
      Option.some.injEq] at h
    have hval := congrArg UInt8.toNat h
    rw [UInt32.toNat_toUInt8] at hval
    have hle : c.val.toNat ≤ 127 := by
      have hone := Char.utf8Size_eq_one_iff.mp hsize
      exact UInt32.le_iff_toNat_le.mp hone
    have hnat : c.val.toNat = 46 := by
      have hmod : c.val.toNat % 256 = 46 := hval
      omega
    exact Char.ext (UInt32.toNat_inj.mp hnat)
  · rintro rfl
    decide

theorem encoded_dot_before (a : List Char) (c : Char) (b : List Char) :
    (encoded (a ++ c :: b))[utf8Len (a ++ [c]) - 1]? = some 0x2E ↔ c = '.' := by
  have hbytes : encoded (a ++ c :: b) = encoded a ++ (utf8EncodeChar c ++ encoded b) := by
    unfold encoded
    rw [flatMap_append, flatMap_cons]
  have hpos := c.utf8Size_pos
  have hindex : utf8Len (a ++ [c]) - 1 = (encoded a).length + (c.utf8Size - 1) := by
    rw [utf8Len_append, utf8Len_cons, utf8Len_nil, length_encoded]
    omega
  rw [hbytes, hindex, getElem?_append_right (Nat.le_add_right _ _), Nat.add_sub_cancel_left,
    getElem?_append_left (by rw [length_utf8EncodeChar]; omega)]
  exact last_byte_dot c

end CcSwitchServer.Foundations.Text
