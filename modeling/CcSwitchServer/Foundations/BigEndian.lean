import Mathlib.Tactic

/-! # Big-endian numbers

The bytes of a number, the most significant first, in a fixed width.
-/

namespace CcSwitchServer.Foundations

variable (bytes : List UInt8)

def beNat : ℕ := bytes.foldl (fun n byte => n * 256 + byte.toNat) 0

/-- The lowest `width` bytes of a number. -/
def beBytes : ℕ → ℕ → List UInt8
  | 0, _ => []
  | width + 1, n => beBytes width (n / 256) ++ [UInt8.ofNat n]

theorem beNat_concat (byte : UInt8) : beNat (bytes ++ [byte]) = beNat bytes * 256 + byte.toNat := by
  unfold beNat
  rw [List.foldl_append]
  rfl

theorem length_beBytes (width n : ℕ) : (beBytes width n).length = width := by
  induction width generalizing n with
  | zero => rfl
  | succ width ih => rw [beBytes, List.length_append, ih, List.length_singleton]

theorem beNat_beBytes {width n : ℕ} (h : n < 256 ^ width) : beNat (beBytes width n) = n := by
  induction width generalizing n with
  | zero =>
    rw [pow_zero] at h
    have hn : n = 0 := by omega
    rw [hn]
    rfl
  | succ width ih =>
    have hdiv : n / 256 < 256 ^ width := by
      rw [pow_succ] at h
      omega
    rw [beBytes, beNat_concat, ih hdiv, UInt8.toNat_ofNat']
    omega

theorem beNat_lt : beNat bytes < 256 ^ bytes.length := by
  induction bytes using List.reverseRecOn with
  | nil => decide
  | append_singleton bytes byte ih =>
    have hbyte := byte.toNat_lt
    rw [beNat_concat, List.length_append, List.length_singleton, pow_succ]
    omega

theorem beBytes_beNat : beBytes bytes.length (beNat bytes) = bytes := by
  induction bytes using List.reverseRecOn with
  | nil => rfl
  | append_singleton bytes byte ih =>
    have hbyte := byte.toNat_lt
    rw [beNat_concat, List.length_append, List.length_singleton, beBytes]
    have hdiv : (beNat bytes * 256 + byte.toNat) / 256 = beNat bytes := by omega
    have hlast : UInt8.ofNat (beNat bytes * 256 + byte.toNat) = byte := by
      apply UInt8.toNat.inj
      rw [UInt8.toNat_ofNat']
      omega
    rw [hdiv, ih, hlast]

end CcSwitchServer.Foundations
