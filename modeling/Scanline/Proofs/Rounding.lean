import Mathlib.Algebra.Ring.Nat
import Mathlib.Order.Basic
import Scanline.BinaryFormat

/-!
# Rounding keeps the order

Patterns are ordered like the magnitudes that they stand for (`BinaryFormat.units_mono`), and
rounding never exchanges two magnitudes (`BinaryFormat.round_mono`).  The second follows from what
happens within one binade and from where two binades meet: a significand is rounded to at most twice
its least value.
-/

namespace Scanline

/-! ## The nearest integer -/

variable {m n d q : Nat}

theorem roundHalfEven_le : roundHalfEven n d ≤ n / d + 1 := by
  unfold roundHalfEven
  have hmod := Nat.mod_lt (n / d) Nat.two_pos
  split_ifs <;> omega

theorem div_le_roundHalfEven : n / d ≤ roundHalfEven n d := by
  unfold roundHalfEven
  split_ifs <;> omega

theorem roundHalfEven_mono (h : m ≤ n) : roundHalfEven m d ≤ roundHalfEven n d := by
  rcases Nat.lt_or_eq_of_le (Nat.div_le_div_right (c := d) h) with hlt | heq
  · calc roundHalfEven m d ≤ m / d + 1 := roundHalfEven_le
      _ ≤ n / d := hlt
      _ ≤ roundHalfEven n d := div_le_roundHalfEven
  · -- With one integer part, the remainders decide.
    have hm := Nat.div_add_mod m d
    have hn := Nat.div_add_mod n d
    have hmod : m % d ≤ n % d := by
      rw [heq] at hm
      omega
    unfold roundHalfEven
    rw [heq]
    have hparity := Nat.mod_lt (n / d) Nat.two_pos
    split_ifs <;> omega

@[simp] theorem roundHalfEven_mul (hd : 0 < d) : roundHalfEven (q * d) d = q := by
  unfold roundHalfEven
  rw [Nat.mul_mod_left, Nat.mul_div_cancel _ hd, if_pos (by omega)]

namespace BinaryFormat

variable (F : BinaryFormat)

/-! ## Magnitudes of patterns -/

/-- A larger pattern stands for a larger magnitude. -/
theorem units_mono {p q : Nat} (h : p ≤ q) : F.units p ≤ F.units q := by
  have hpos : 0 < 2 ^ F.fractionBits := Nat.two_pow_pos _
  simp only [units, Nat.shiftLeft_eq, Nat.one_mul]
  generalize 2 ^ F.fractionBits = top at hpos
  split_ifs with hp hq hq
  · exact h
  · calc p ≤ (top + q % top) * 1 := by omega
      _ ≤ (top + q % top) * 2 ^ (q / top - 1) := Nat.mul_le_mul_left _ (Nat.two_pow_pos _)
  · omega
  · rcases Nat.lt_or_eq_of_le (Nat.div_le_div_right (c := top) h) with hlt | heq
    · -- A larger exponent outweighs any fraction.
      have hfraction := Nat.mod_lt p hpos
      have hexponent : 0 < p / top := Nat.div_pos (by omega) hpos
      calc (top + p % top) * 2 ^ (p / top - 1) ≤ (2 * top) * 2 ^ (p / top - 1) :=
            Nat.mul_le_mul_right _ (by omega)
        _ = top * 2 ^ (p / top) := by
          rw [Nat.mul_comm 2 top, Nat.mul_assoc, ← Nat.pow_succ', Nat.succ_eq_add_one,
            Nat.sub_add_cancel hexponent]
        _ ≤ top * 2 ^ (q / top - 1) :=
          Nat.mul_le_mul_left _ (Nat.pow_le_pow_right Nat.two_pos (by omega))
        _ ≤ (top + q % top) * 2 ^ (q / top - 1) := Nat.mul_le_mul_right _ (by omega)
    · have hp := Nat.div_add_mod p top
      have hq := Nat.div_add_mod q top
      rw [heq] at hp ⊢
      exact Nat.mul_le_mul_right _ (by omega)

/-! ## Rounding a magnitude -/

/-- The significand that a magnitude is rounded to, before a carry. -/
def significand (n d : Nat) : Nat := roundHalfEven n (d <<< F.binade n d)

/-- A significand is at most twice the least one. -/
theorem significand_le : F.significand n d ≤ 2 * 2 ^ F.fractionBits := by
  rcases Nat.eq_zero_or_pos d with rfl | hd
  · have hone : F.significand n 0 ≤ 1 := by
      simpa [significand] using roundHalfEven_le (n := n) (d := 0)
    have hpos : 0 < 2 ^ F.fractionBits := Nat.two_pow_pos _
    omega
  · have hpos : 0 < d * 2 ^ F.binade n d := Nat.mul_pos hd (Nat.two_pow_pos _)
    have hlog : n / d < 2 ^ (F.binade n d + F.fractionBits + 1) :=
      Nat.lt_of_lt_of_le Nat.lt_log2_self
        (Nat.pow_le_pow_right Nat.two_pos (by unfold binade; omega))
    have hlt : n < 2 ^ (F.binade n d + F.fractionBits + 1) * d := (Nat.div_lt_iff_lt_mul hd).1 hlog
    have hbound : n ≤ 2 * 2 ^ F.fractionBits * (d * 2 ^ F.binade n d) := by
      calc n ≤ 2 ^ (F.binade n d + F.fractionBits + 1) * d := Nat.le_of_lt hlt
        _ = 2 * 2 ^ F.fractionBits * (d * 2 ^ F.binade n d) := by
          rw [Nat.pow_succ, Nat.pow_add]
          ac_rfl
    rw [significand, Nat.shiftLeft_eq]
    exact (roundHalfEven_mono hbound).trans_eq (roundHalfEven_mul hpos)

/-- A significand of a later binade is at least the least one. -/
theorem le_significand (h : 0 < F.binade n d) : 2 ^ F.fractionBits ≤ F.significand n d := by
  have hlog : (n / d).log2 = F.binade n d + F.fractionBits := by unfold binade at h ⊢; omega
  have hne : n / d ≠ 0 := fun hzero ↦ by simp [binade, hzero] at h
  have hd : 0 < d := Nat.pos_of_ne_zero fun hzero ↦ hne (by simp [hzero])
  have hpos : 0 < d * 2 ^ F.binade n d := Nat.mul_pos hd (Nat.two_pow_pos _)
  have hle : 2 ^ (F.binade n d + F.fractionBits) * d ≤ n := by
    rw [← Nat.le_div_iff_mul_le hd, ← hlog]
    exact Nat.log2_self_le hne
  have hbound : 2 ^ F.fractionBits * (d * 2 ^ F.binade n d) ≤ n := by
    calc 2 ^ F.fractionBits * (d * 2 ^ F.binade n d)
        = 2 ^ (F.binade n d + F.fractionBits) * d := by rw [Nat.pow_add]; ac_rfl
      _ ≤ n := hle
  rw [significand, Nat.shiftLeft_eq]
  exact (roundHalfEven_mul hpos).symm.trans_le (roundHalfEven_mono hbound)

theorem binade_mono (h : m ≤ n) : F.binade m d ≤ F.binade n d := by
  have hle : m / d ≤ n / d := Nat.div_le_div_right h
  have hlog : (m / d).log2 ≤ (n / d).log2 := by
    rcases Nat.eq_zero_or_pos (m / d) with hzero | hpos
    · simp [hzero]
    · have hne : n / d ≠ 0 := by omega
      rw [Nat.le_log2 hne]
      exact Nat.le_trans (Nat.log2_self_le (by omega)) hle
  exact Nat.sub_le_sub_right hlog _

/-- Rounding keeps the order of magnitudes. -/
theorem round_mono (h : m ≤ n) : F.round m d ≤ F.round n d := by
  have hrest : F.binade m d * 2 ^ F.fractionBits + F.significand m d ≤
      F.binade n d * 2 ^ F.fractionBits + F.significand n d := by
    rcases Nat.lt_or_eq_of_le (F.binade_mono (d := d) h) with hlt | heq
    · have hupper := F.significand_le (n := m) (d := d)
      have hlower := F.le_significand (n := n) (d := d) (by omega)
      have hbinades : (F.binade m d + 1) * 2 ^ F.fractionBits ≤
          F.binade n d * 2 ^ F.fractionBits := Nat.mul_le_mul_right _ hlt
      rw [Nat.add_mul, Nat.one_mul] at hbinades
      omega
    · have hsame : F.significand m d ≤ F.significand n d := by
        unfold significand
        rw [heq]
        exact roundHalfEven_mono h
      rw [heq]
      exact Nat.add_le_add_left hsame _
  simp only [round, Nat.shiftLeft_eq] at hrest ⊢
  simp only [significand, Nat.shiftLeft_eq] at hrest
  omega

theorem round_le_infinity : F.round n d ≤ F.infinity := Nat.min_le_left _ _

end BinaryFormat

end Scanline
