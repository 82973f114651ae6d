import Mathlib.Algebra.Order.Ring.Nat
import Mathlib.Tactic.Ring
import QueuedFiles.Decimal.Binary64

/-!
Powers of two around a double. Far from both ends of the range every rounded operation has a result
with a full significand, and its exponent is known up to a few steps.
-/

namespace QueuedFiles.Decimal.Binary64

/-- Comparisons with powers of two on both sides depend on their quotient only. -/
theorem mul_pow_le_iff {x y a b a' b' : Nat} (h : a + b' = a' + b) :
    x * 2 ^ a ≤ y * 2 ^ b ↔ x * 2 ^ a' ≤ y * 2 ^ b' := by
  have hb : 0 < 2 ^ b := Nat.two_pow_pos b
  have hb' : 0 < 2 ^ b' := Nat.two_pow_pos b'
  calc x * 2 ^ a ≤ y * 2 ^ b
      ↔ x * 2 ^ a * 2 ^ b' ≤ y * 2 ^ b * 2 ^ b' := (Nat.mul_le_mul_right_iff hb').symm
    _ ↔ x * 2 ^ a' * 2 ^ b ≤ y * 2 ^ b' * 2 ^ b := by
      rw [Nat.mul_assoc, ← Nat.pow_add, h, Nat.pow_add, ← Nat.mul_assoc, Nat.mul_right_comm y]
    _ ↔ x * 2 ^ a' ≤ y * 2 ^ b' := Nat.mul_le_mul_right_iff hb

theorem scale_neg (num den : Nat) (e : Int) :
    scale num den (-e) = (num * 2 ^ (-e).toNat, den * 2 ^ e.toNat) := by
  simp [scale, Nat.shiftLeft_eq]

variable {num den : Nat}

/-- The quotient that is rounded has 53 digits before its point. -/
theorem exponentFor_spec (hnum : num ≠ 0) (hden : den ≠ 0)
    (hlow : -1000 ≤ (num.log2 : Int) - den.log2) :
    ∃ e : Int, exponentFor num den = e ∧ (num.log2 : Int) - den.log2 - 53 ≤ e ∧
      e ≤ (num.log2 : Int) - den.log2 - 52 ∧
      den * 2 ^ (52 + e.toNat) ≤ num * 2 ^ (-e).toNat ∧
      num * 2 ^ (-e).toNat < den * 2 ^ (53 + e.toNat) := by
  have hnumLow : 2 ^ num.log2 ≤ num := Nat.log2_self_le hnum
  have hnumHigh : num < 2 ^ (num.log2 + 1) := Nat.lt_log2_self
  have hdenLow : 2 ^ den.log2 ≤ den := Nat.log2_self_le hden
  have hdenHigh : den < 2 ^ (den.log2 + 1) := Nat.lt_log2_self
  generalize hg : (num.log2 : Int) - den.log2 - 53 = g
  have hguess : max leastExponent ((num.log2 : Int) - den.log2 - 53) = g := by
    rw [hg]
    exact max_eq_right (by simp only [leastExponent]; omega)
  have hdiff : num.log2 + (-g).toNat = den.log2 + 1 + (52 + g.toNat) := by omega
  have hlower : den * 2 ^ (52 + g.toNat) ≤ num * 2 ^ (-g).toNat := by
    calc den * 2 ^ (52 + g.toNat)
        ≤ 2 ^ (den.log2 + 1) * 2 ^ (52 + g.toNat) := Nat.mul_le_mul_right _ hdenHigh.le
      _ = 2 ^ num.log2 * 2 ^ (-g).toNat := by rw [← Nat.pow_add, ← hdiff, Nat.pow_add]
      _ ≤ num * 2 ^ (-g).toNat := Nat.mul_le_mul_right _ hnumLow
  have hupper : num * 2 ^ (-g).toNat < den * 2 ^ (54 + g.toNat) := by
    calc num * 2 ^ (-g).toNat
        < 2 ^ (num.log2 + 1) * 2 ^ (-g).toNat :=
          Nat.mul_lt_mul_of_pos_right hnumHigh (Nat.two_pow_pos _)
      _ = 2 ^ den.log2 * 2 ^ (54 + g.toNat) := by
        rw [← Nat.pow_add, ← Nat.pow_add]
        congr 1
        omega
      _ ≤ den * 2 ^ (54 + g.toNat) := Nat.mul_le_mul_right _ hdenLow
  have hpos : 0 < den * 2 ^ g.toNat := Nat.mul_pos (Nat.pos_of_ne_zero hden) (Nat.two_pow_pos _)
  have hcut : num * 2 ^ (-g).toNat / (den * 2 ^ g.toNat) < 2 * leadingBit ↔
      num * 2 ^ (-g).toNat < den * 2 ^ (53 + g.toNat) := by
    have hbit : 2 * leadingBit = 2 ^ 53 := rfl
    rw [Nat.div_lt_iff_lt_mul hpos, hbit, Nat.pow_add, Nat.mul_left_comm]
  have hexp : exponentFor num den =
      if num * 2 ^ (-g).toNat < den * 2 ^ (53 + g.toNat) then g else g + 1 := by
    rw [exponentFor, hguess]
    dsimp only
    rw [scale_neg]
    simp only [hcut]
  rw [hexp]
  split
  · next h => exact ⟨g, rfl, by omega, by omega, hlower, h⟩
  · next h =>
    have hshift : 53 + g.toNat + (-(g + 1)).toNat = 52 + (g + 1).toNat + (-g).toNat := by omega
    refine ⟨g + 1, rfl, by omega, by omega, ?_, ?_⟩
    · exact (mul_pow_le_iff hshift).1 (Nat.not_lt.1 h)
    · refine Nat.not_le.1 fun hle ↦ Nat.not_le.2 hupper ?_
      exact (mul_pow_le_iff (by omega)).1 hle

/-- A double with a full significand, whose first digit stands for a power of two between `low` and
`high`. -/
structure Sized (x : Binary64) (low high : Int) : Prop where
  full : leadingBit ≤ x.significand ∧ x.significand < 2 * leadingBit
  low_le : low ≤ x.exponent + 52
  le_high : x.exponent + 52 ≤ high

variable {x y : Binary64} {low high low' high' : Int} {negative : Bool}

theorem Sized.mono (h : x.Sized low high) (hlow : low' ≤ low) (hhigh : high ≤ high') :
    x.Sized low' high' :=
  ⟨h.full, Int.le_trans hlow h.low_le, Int.le_trans h.le_high hhigh⟩

theorem Sized.significand_pos (h : x.Sized low high) : 0 < x.significand :=
  Nat.lt_of_lt_of_le (by decide) h.full.1

theorem Sized.isZero (h : x.Sized low high) : x.isZero = false := by
  rw [Binary64.isZero, decide_eq_false h.significand_pos.ne']

/-- What the significand and the exponent of a finite double can be. -/
structure Finite (x : Binary64) : Prop where
  significand_lt : x.significand < 2 * leadingBit
  least_le : leastExponent ≤ x.exponent
  le_greatest : x.exponent ≤ greatestExponent

theorem finite_zero (negative : Bool) : (zero negative).Finite :=
  ⟨(by decide : 0 < 2 * leadingBit), Int.le_refl _, (by decide : leastExponent ≤ greatestExponent)⟩

theorem Sized.finite (h : x.Sized low high) (hlow : -1000 ≤ low) (hhigh : high ≤ 1000) :
    x.Finite := by
  obtain ⟨⟨-, hlt⟩, hle, hge⟩ := h
  have hleast : leastExponent = -1074 := rfl
  have hgreatest : greatestExponent = 971 := rfl
  exact ⟨hlt, by omega, by omega⟩

theorem roundEven_bounds {n d : Nat} (hd : 0 < d) (hlow : leadingBit * d ≤ n)
    (hhigh : n < 2 * leadingBit * d) :
    leadingBit ≤ roundEven n d ∧ roundEven n d ≤ 2 * leadingBit := by
  have hq : leadingBit ≤ n / d := (Nat.le_div_iff_mul_le hd).2 hlow
  have hq' : n / d < 2 * leadingBit := (Nat.div_lt_iff_lt_mul hd).2 hhigh
  rw [roundEven]
  split <;> omega

theorem exists_ofQuotient (negative : Bool) (low high : Int) (hnum : num ≠ 0) (hden : den ≠ 0)
    (hlow : low ≤ (num.log2 : Int) - den.log2) (hhigh : (num.log2 : Int) - den.log2 ≤ high)
    (hleast : -1000 ≤ low) (hgreatest : high ≤ 1000) :
    ∃ x, ofQuotient negative num den = some x ∧ x.negative = negative ∧
      x.Sized (low - 1) (high + 1) := by
  obtain ⟨e, he, hle, hge, hlower, hupper⟩ := exponentFor_spec hnum hden (by omega)
  have hbit : leadingBit = 2 ^ 52 := rfl
  have hpos : 0 < den * 2 ^ e.toNat := Nat.mul_pos (Nat.pos_of_ne_zero hden) (Nat.two_pow_pos _)
  obtain ⟨hm, hm'⟩ := roundEven_bounds (n := num * 2 ^ (-e).toNat) hpos
    (by rwa [hbit, Nat.mul_left_comm, ← Nat.pow_add])
    (by rwa [hbit, ← Nat.pow_succ', Nat.mul_left_comm, ← Nat.pow_add])
  generalize hr : roundEven (num * 2 ^ (-e).toNat) (den * 2 ^ e.toNat) = m at hm hm'
  have hgreat : greatestExponent = 971 := rfl
  rw [ofQuotient, if_neg hnum, he]
  dsimp only
  rw [scale_neg]
  dsimp only
  rw [hr]
  by_cases hmax : m = 2 * leadingBit
  · rw [if_pos hmax]
    refine ⟨_, if_pos (by dsimp only; omega), rfl, ⟨⟨Nat.le_refl _, by dsimp only; omega⟩, ?_, ?_⟩⟩
    all_goals dsimp only; omega
  · rw [if_neg hmax]
    refine ⟨_, if_pos (by dsimp only; omega), rfl, ⟨⟨hm, by dsimp only; omega⟩, ?_, ?_⟩⟩
    all_goals dsimp only; omega

/-! Operations on doubles of known size. -/

theorem log2_mul {a b : Nat} (ha : a ≠ 0) (hb : b ≠ 0) :
    a.log2 + b.log2 ≤ (a * b).log2 ∧ (a * b).log2 ≤ a.log2 + b.log2 + 1 := by
  have hab : a * b ≠ 0 := Nat.mul_ne_zero ha hb
  constructor
  · rw [Nat.le_log2 hab, Nat.pow_add]
    exact Nat.mul_le_mul (Nat.log2_self_le ha) (Nat.log2_self_le hb)
  · refine Nat.lt_succ_iff.1 ((Nat.log2_lt hab).2 ?_)
    have h : a * b < 2 ^ (a.log2 + 1) * 2 ^ (b.log2 + 1) :=
      Nat.mul_lt_mul'' Nat.lt_log2_self Nat.lt_log2_self
    rw [← Nat.pow_add] at h
    exact h.trans_eq (congrArg (2 ^ ·) (by omega))

theorem Sized.quotient (h : x.Sized low high) :
    x.quotient.1 ≠ 0 ∧ x.quotient.2 ≠ 0 ∧
      low ≤ (x.quotient.1.log2 : Int) - x.quotient.2.log2 ∧
      (x.quotient.1.log2 : Int) - x.quotient.2.log2 ≤ high := by
  obtain ⟨⟨hm, hm'⟩, hlow, hhigh⟩ := h
  have hbit : leadingBit = 2 ^ 52 := rfl
  have hq : x.quotient = (x.significand * 2 ^ x.exponent.toNat, 2 ^ (-x.exponent).toNat) := by
    simp [Binary64.quotient, scale, Nat.shiftLeft_eq]
  have hne : x.significand * 2 ^ x.exponent.toNat ≠ 0 :=
    Nat.mul_ne_zero (by omega) (Nat.two_pow_pos _).ne'
  have hlog : (x.significand * 2 ^ x.exponent.toNat).log2 = 52 + x.exponent.toNat := by
    rw [Nat.log2_eq_iff hne, Nat.add_right_comm 52, Nat.pow_add, Nat.pow_add]
    exact ⟨Nat.mul_le_mul_right _ (by omega),
      Nat.mul_lt_mul_of_pos_right (by omega) (Nat.two_pow_pos _)⟩
  rw [hq]
  refine ⟨hne, (Nat.two_pow_pos _).ne', ?_, ?_⟩
  all_goals
    dsimp only
    rw [hlog, Nat.log2_two_pow]
    omega

theorem exists_mul (hx : x.Sized low high) (hy : y.Sized low' high')
    (hleast : -999 ≤ low + low') (hgreatest : high + high' ≤ 999) :
    ∃ z, x.mul y = some z ∧ z.negative = (x.negative != y.negative) ∧
      z.Sized (low + low' - 2) (high + high' + 2) := by
  obtain ⟨hx₁, hx₂, hxl, hxh⟩ := hx.quotient
  obtain ⟨hy₁, hy₂, hyl, hyh⟩ := hy.quotient
  have hnum := log2_mul hx₁ hy₁
  have hden := log2_mul hx₂ hy₂
  obtain ⟨z, hz, hneg, hsize⟩ := exists_ofQuotient (x.negative != y.negative)
    (low + low' - 1) (high + high' + 1) (Nat.mul_ne_zero hx₁ hy₁)
    (Nat.mul_ne_zero hx₂ hy₂) (by omega) (by omega) (by omega) (by omega)
  exact ⟨z, hz, hneg, hsize.mono (by omega) (by omega)⟩

theorem exists_div (hx : x.Sized low high) (hy : y.Sized low' high')
    (hleast : -999 ≤ low - high') (hgreatest : high - low' ≤ 999) :
    ∃ z, x.div y = some z ∧ z.negative = (x.negative != y.negative) ∧
      z.Sized (low - high' - 2) (high - low' + 2) := by
  obtain ⟨hx₁, hx₂, hxl, hxh⟩ := hx.quotient
  obtain ⟨hy₁, hy₂, hyl, hyh⟩ := hy.quotient
  have hnum := log2_mul hx₁ hy₂
  have hden := log2_mul hx₂ hy₁
  obtain ⟨z, hz, hneg, hsize⟩ := exists_ofQuotient (x.negative != y.negative)
    (low - high' - 1) (high - low' + 1) (Nat.mul_ne_zero hx₁ hy₂)
    (Nat.mul_ne_zero hx₂ hy₁) (by omega) (by omega) (by omega) (by omega)
  exact ⟨z, hz, hneg, hsize.mono (by omega) (by omega)⟩

theorem exists_ofNat {n k : Nat} (hn : n ≠ 0) (hk : n < 2 ^ k) (hle : k ≤ 1000) :
    ∃ x, ofNat n = some x ∧ x.negative = false ∧ x.Sized (-1) k := by
  have hlog : n.log2 < k := (Nat.log2_lt hn).2 hk
  have hone : Nat.log2 1 = 0 := rfl
  obtain ⟨x, hx, hneg, hsize⟩ := exists_ofQuotient false 0 (k - 1)
    hn Nat.one_ne_zero (by omega) (by omega) (by omega) (by omega)
  exact ⟨x, hx, hneg, hsize.mono (by omega) (by omega)⟩

theorem exists_powerOfTen {n : Nat} (hn : n ≤ 100) :
    ∃ x, powerOfTen n = some x ∧ x.negative = false ∧ x.Sized (-1) 401 := by
  have hlt : 10 ^ n < 2 ^ (4 * n + 1) := by
    calc 10 ^ n ≤ 16 ^ n := Nat.pow_le_pow_left (by decide) n
      _ = 2 ^ (4 * n) := by rw [Nat.pow_mul]
      _ < 2 ^ (4 * n + 1) := Nat.pow_lt_pow_succ (by decide)
  obtain ⟨x, hx, hneg, hsize⟩ := exists_ofNat (Nat.pow_pos (by decide)).ne' hlt (by omega)
  exact ⟨x, hx, hneg, hsize.mono (Int.le_refl _) (by omega)⟩

theorem ofQuotient_zero : ofQuotient negative 0 den = some (zero negative) := rfl

theorem quotient_of_significand (h : x.significand = 0) : x.quotient.1 = 0 := by
  simp [Binary64.quotient, scale, h]

/-- No word times a power of ten this close to one is out of range. -/
theorem exists_scaled {n : Nat} (hn : n < 2 ^ 64) {e : Int} (hlow : -100 ≤ e) (hhigh : e ≤ 100) :
    ∃ x, ((ofNat n).bind fun x ↦ x.mulPowerOfTen e) = some x := by
  obtain ⟨p, hp, -, hsize⟩ := exists_powerOfTen (n := e.natAbs) (by omega)
  have hdown : ∀ x : Binary64, e < 0 → x.mulPowerOfTen e = x.div p := by
    intro x he
    have habs : (-e).toNat = e.natAbs := by omega
    rw [mulPowerOfTen, if_pos he, divPowerOfTen, if_pos (by omega), habs, hp]
    rfl
  have hup : ∀ x : Binary64, ¬ e < 0 → x.mulPowerOfTen e = x.mul p := by
    intro x he
    have habs : e.toNat = e.natAbs := by omega
    rw [mulPowerOfTen, if_neg he, if_pos (by omega), habs, hp]
    rfl
  rcases Nat.eq_zero_or_pos n with rfl | hpos
  · have hzero : (zero false).quotient.1 = 0 := quotient_of_significand rfl
    rw [ofNat, ofQuotient_zero, Option.bind_some]
    by_cases he : e < 0
    · rw [hdown _ he, div, hzero, Nat.zero_mul]
      exact ⟨_, ofQuotient_zero⟩
    · rw [hup _ he, mul, hzero, Nat.zero_mul]
      exact ⟨_, ofQuotient_zero⟩
  · obtain ⟨x, hx, -, hxsize⟩ := exists_ofNat hpos.ne' hn (by decide)
    rw [hx, Option.bind_some]
    by_cases he : e < 0
    · obtain ⟨z, hz, -⟩ := exists_div hxsize hsize (by decide) (by decide)
      exact ⟨z, (hdown x he).trans hz⟩
    · obtain ⟨z, hz, -⟩ := exists_mul hxsize hsize (by decide) (by decide)
      exact ⟨z, (hup x he).trans hz⟩

end QueuedFiles.Decimal.Binary64
