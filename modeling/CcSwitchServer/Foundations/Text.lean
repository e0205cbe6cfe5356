import Mathlib.Data.List.DropRight
import Mathlib.Data.String.Basic
import Mathlib.Data.Nat.Digits.Defs
import Mathlib.Tactic

/-! # Text helpers

The string operations of the modelled code, on lists of characters.
-/

namespace CcSwitchServer.Foundations.Text
open String List

variable (c : Char)

/-- The Unicode property `White_Space`. -/
def isWhiteSpace : Bool :=
  let n := c.toNat
  (9 ≤ n && n ≤ 13) || n == 0x20 || n == 0x85 || n == 0xA0 || n == 0x1680 ||
    (0x2000 ≤ n && n ≤ 0x200A) || n == 0x2028 || n == 0x2029 || n == 0x202F || n == 0x205F ||
    n == 0x3000

variable (cs : List Char)

/-- White space is the Unicode property. -/
def trimChars : List Char := ((cs.dropWhile isWhiteSpace).reverse.dropWhile isWhiteSpace).reverse

variable (s : String)

def trim : String := ofList (trimChars s.toList)

/-- Only `A` to `Z` change. -/
def asciiLower : String := ofList (s.toList.map Char.toLower)

def eqIgnoreAsciiCase (s t : String) : Bool := asciiLower s == asciiLower t

def isAsciiDigit : Bool := '0' ≤ c && c ≤ '9'

def isAsciiAlphanumeric : Bool := isAsciiDigit c || ('a' ≤ c && c ≤ 'z') || ('A' ≤ c && c ≤ 'Z')

/-- The Unicode general category `Cc`. -/
def isControl : Bool := c.toNat < 32 || (127 ≤ c.toNat && c.toNat < 160)

/-! ## Affixes and splits -/

def stripPrefix (pre cs : List Char) : Option (List Char) :=
  if pre.isPrefixOf cs then some (cs.drop pre.length) else none

def stripSuffix (suf cs : List Char) : Option (List Char) :=
  if suf.isSuffixOf cs then some (cs.take (cs.length - suf.length)) else none

/-- The parts between occurrences of `sep`, in order; there is always at least one. -/
def splitOn (sep : Char) : List Char → List (List Char)
  | [] => [[]]
  | c :: cs =>
    match splitOn sep cs with
    | [] => [[c]]
    | part :: parts => if c = sep then [] :: part :: parts else (c :: part) :: parts

/-- Split at the first occurrence of `sep`. -/
def splitOnce (sep : Char) : List Char → Option (List Char × List Char)
  | [] => none
  | c :: cs =>
    if c = sep then some ([], cs)
    else (splitOnce sep cs).map fun p => (c :: p.1, p.2)

/-- The position of the first occurrence of `pat`. -/
def find (pat : List Char) : List Char → Option ℕ
  | [] => if pat = [] then some 0 else none
  | c :: cs => if pat.isPrefixOf (c :: cs) then some 0 else (find pat cs).map (· + 1)

/-- Split at the last occurrence of the nonempty text `pat`. -/
def rsplitOnce (pat cs : List Char) : Option (List Char × List Char) :=
  (find pat.reverse cs.reverse).map fun n =>
    (cs.take (cs.length - n - pat.length), cs.drop (cs.length - n))

/-! ## Sizes and separators -/

theorem toLower_toLower : c.toLower.toLower = c.toLower := by
  unfold Char.toLower
  split
  · rename_i h
    split
    · rename_i h'
      exfalso
      simp [UInt32.le_iff_toNat_le, UInt32.toNat_add] at h h'
      omega
    · rfl
  · rfl

theorem asciiLower_asciiLower : asciiLower (asciiLower s) = asciiLower s := by
  unfold asciiLower
  rw [String.toList_ofList, List.map_map]
  congr 1
  exact List.map_congr_left fun c _ => toLower_toLower c

theorem toNat_toLower : c.toLower.toNat = if 65 ≤ c.toNat ∧ c.toNat ≤ 90 then c.toNat + 32 else c.toNat := by
  unfold Char.toLower
  by_cases h : c.val ≥ 'A'.val ∧ c.val ≤ 'Z'.val
  · have hrange : 65 ≤ c.toNat ∧ c.toNat ≤ 90 := by
      simpa [UInt32.le_iff_toNat_le] using h
    rw [dif_pos h, if_pos hrange]
    show (c.val + 32).toNat = c.val.toNat + 32
    have hval : c.val.toNat ≤ 90 := hrange.2
    rw [UInt32.toNat_add]
    exact Nat.mod_eq_of_lt (by simp; omega)
  · have hrange : ¬(65 ≤ c.toNat ∧ c.toNat ≤ 90) := by
      simpa [UInt32.le_iff_toNat_le] using h
    rw [dif_neg h, if_neg hrange]

theorem isWhiteSpace_toLower : isWhiteSpace c.toLower = isWhiteSpace c := by
  unfold isWhiteSpace
  rw [toNat_toLower]
  split
  · rw [Bool.eq_iff_iff]
    simp
    omega
  · rfl

theorem trimChars_map_toLower : trimChars (cs.map Char.toLower) = (trimChars cs).map Char.toLower := by
  have hsame : isWhiteSpace ∘ Char.toLower = isWhiteSpace := funext isWhiteSpace_toLower
  simp only [trimChars, dropWhile_map, ← map_reverse, hsame]

theorem trimChars_trimChars : trimChars (trimChars cs) = trimChars cs := by
  have hhead : (trimChars cs).dropWhile isWhiteSpace = trimChars cs := by
    cases htrim : trimChars cs with
    | nil => rfl
    | cons c kept =>
      obtain ⟨rest, hrest⟩ : trimChars cs <+: cs.dropWhile isWhiteSpace := rdropWhile_prefix _ _
      rw [htrim, cons_append] at hrest
      have hc := head_dropWhile_not isWhiteSpace (l := cs) (by rw [← hrest]; exact cons_ne_nil _ _)
      simp only [← hrest, head_cons] at hc
      rw [dropWhile_cons_of_neg (by rw [hc]; exact Bool.false_ne_true)]
  have hlast := rdropWhile_idempotent isWhiteSpace (cs.dropWhile isWhiteSpace)
  show ((trimChars cs).dropWhile isWhiteSpace).rdropWhile isWhiteSpace = trimChars cs
  rw [hhead]
  exact hlast

theorem trim_trim : trim (trim s) = trim s := by
  unfold trim
  rw [toList_ofList, trimChars_trimChars]

theorem lower_trim_lower_trim : asciiLower (trim (asciiLower (trim s))) = asciiLower (trim s) := by
  have htrim : trim (asciiLower (trim s)) = asciiLower (trim s) := by
    simp only [trim, asciiLower, toList_ofList, trimChars_map_toLower, trimChars_trimChars]
  rw [htrim, asciiLower_asciiLower]

theorem utf8Len_le : utf8Len cs ≤ 4 * cs.length := by
  induction cs with
  | nil => simp
  | cons c cs ih =>
    have hc := c.utf8Size_le_four
    rw [utf8Len_cons, length_cons]
    omega

theorem utf8ByteSize_toString_le {n : ℤ} {k : ℕ} (hn : 0 ≤ n) (hk : 0 < k) (h : n < 10 ^ k) :
    (toString n).utf8ByteSize ≤ 4 * k := by
  obtain ⟨m, rfl⟩ := Int.eq_ofNat_of_zero_le hn
  have hm : m < 10 ^ k := by exact_mod_cast h
  have hdigits := (Nat.length_toDigits_le_iff (by omega : 1 < 10) hk).mpr hm
  have hrepr : toString (m : ℤ) = ofList (Nat.toDigits 10 m) := rfl
  rw [hrepr, utf8ByteSize_ofList]
  have hlen := utf8Len_le (Nat.toDigits 10 m)
  omega

theorem append_separator_inj {sep : Char} {a b x y : List Char} (ha : sep ∉ a) (hb : sep ∉ b)
    (h : a ++ sep :: x = b ++ sep :: y) : a = b ∧ x = y := by
  induction a generalizing b with
  | nil =>
    cases b with
    | nil => exact ⟨rfl, (cons.inj h).2⟩
    | cons c b =>
      have hc := (cons.inj h).1
      exact absurd (hc ▸ mem_cons_self) hb
  | cons c a ih =>
    cases b with
    | nil =>
      have hc := (cons.inj h).1
      exact absurd (hc ▸ mem_cons_self) ha
    | cons d b =>
      obtain ⟨hcd, hrest⟩ := cons.inj h
      have hab := ih (fun hmem => ha (mem_cons_of_mem _ hmem)) (fun hmem => hb (mem_cons_of_mem _ hmem)) hrest
      exact ⟨by rw [hcd, hab.1], hab.2⟩

theorem splitOnce_append {sep : Char} {a : List Char} (h : sep ∉ a) (x : List Char) :
    splitOnce sep (a ++ sep :: x) = some (a, x) := by
  induction a with
  | nil =>
    rw [nil_append, splitOnce, if_pos rfl]
  | cons c a ih =>
    rw [mem_cons, not_or] at h
    rw [cons_append, splitOnce, if_neg (Ne.symm h.1), ih h.2]
    rfl

/-! ## Bytes -/

def fromUtf8 (bytes : List UInt8) : Option String := fromUTF8? ⟨bytes.toArray⟩

def utf8 : List UInt8 := s.toByteArray.data.toList

theorem utf8_of_fromUtf8 {bytes : List UInt8} {s : String} (h : fromUtf8 bytes = some s) : utf8 s = bytes := by
  unfold fromUtf8 fromUTF8? at h
  split at h
  · cases h
    rfl
  · cases h

theorem fromUtf8_utf8 : fromUtf8 (utf8 s) = some s := by
  have hvalid : (⟨(utf8 s).toArray⟩ : ByteArray).IsValidUTF8 := s.isValidUTF8
  unfold fromUtf8 fromUTF8?
  rw [dif_pos hvalid]
  rfl

theorem utf8_append (s t : String) : utf8 (s ++ t) = utf8 s ++ utf8 t := by
  unfold utf8
  rw [String.toByteArray_append, ByteArray.data_append, Array.toList_append]

theorem utf8_eq_flatMap : utf8 s = s.toList.flatMap utf8EncodeChar := by
  unfold utf8
  rw [← ofList_toList (s := s), toByteArray_ofList, utf8Encode, data_toByteArray, toList_toArray, toList_ofList]

theorem exists_of_mem_utf8 {s : String} (hascii : ∀ c ∈ s.toList, c.toNat < 128) {byte : UInt8}
    (h : byte ∈ utf8 s) : ∃ c ∈ s.toList, byte.toNat = c.toNat := by
  rw [utf8_eq_flatMap] at h
  obtain ⟨c, hc, hbyte⟩ := mem_flatMap.mp h
  have hlt : c.val.toNat < 128 := hascii c hc
  have hsize : c.utf8Size = 1 := by
    unfold Char.utf8Size
    dsimp only
    rw [if_pos (UInt32.le_iff_toNat_le.mpr (Nat.le_of_lt_succ hlt))]
  rw [utf8EncodeChar_eq_singleton hsize] at hbyte
  refine ⟨c, hc, ?_⟩
  rw [mem_singleton.mp hbyte, UInt32.toNat_toUInt8]
  show c.val.toNat % 256 = c.val.toNat
  omega
/-- The bytes that must follow, each within its range: the length of a well formed sequence, or of the
longest front of one. -/
def continues (n : ℕ) : List (UInt8 × UInt8) → List UInt8 → Except ℕ ℕ
  | [], _ => .ok n
  | _ :: _, [] => .error n
  | (low, high) :: ranges, byte :: rest =>
    if low ≤ byte ∧ byte ≤ high then continues (n + 1) ranges rest else .error n

/-- The first character of the bytes, by its length; or how many bytes to replace. -/
def firstSequence : List UInt8 → Except ℕ ℕ
  | [] => .ok 0
  | byte :: rest =>
    let any := (0x80, 0xBF)
    if byte < 0x80 then .ok 1
    else if 0xC2 ≤ byte ∧ byte ≤ 0xDF then continues 1 [any] rest
    else if byte = 0xE0 then continues 1 [(0xA0, 0xBF), any] rest
    else if byte = 0xED then continues 1 [(0x80, 0x9F), any] rest
    else if 0xE1 ≤ byte ∧ byte ≤ 0xEF then continues 1 [any, any] rest
    else if byte = 0xF0 then continues 1 [(0x90, 0xBF), any, any] rest
    else if 0xF1 ≤ byte ∧ byte ≤ 0xF3 then continues 1 [any, any, any] rest
    else if byte = 0xF4 then continues 1 [(0x80, 0x8F), any, any] rest
    else .error 1

def lossyParts : ℕ → List UInt8 → List String
  | 0, _ => []
  | fuel + 1, rest =>
    match firstSequence rest with
    | .ok 0 => []
    | .ok n => (fromUtf8 (rest.take n)).getD "" :: lossyParts fuel (rest.drop n)
    | .error n => "\uFFFD" :: lossyParts fuel (rest.drop n)

/-- `String::from_utf8_lossy`: every maximal part that is not UTF-8 becomes U+FFFD. -/
def fromUtf8Lossy (bytes : List UInt8) : String := (fromUtf8 bytes).getD (join (lossyParts bytes.length bytes))

theorem fromUtf8Lossy_utf8 : fromUtf8Lossy (utf8 s) = s := by
  unfold fromUtf8Lossy
  rw [fromUtf8_utf8, Option.getD_some]

end CcSwitchServer.Foundations.Text
