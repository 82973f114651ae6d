import QueuedFiles.Proofs.Decimal.Magnitude
import QueuedFiles.Proofs.Json.Doubles
import QueuedFiles.Proofs.Json.Writing

/-!
The text of a double that is not far from one has few digits and a small exponent, so it is read as
some double again.
-/

namespace QueuedFiles.Decimal

open Bytes (ascii)
open Json

namespace Binary64

variable {x : Binary64}

/-- Both ways round, the quotient of a double is less than `10^22`. -/
theorem Sized.quotient_lt (h : x.Sized (-70) 70) :
    0 < x.quotient.1 ∧ 0 < x.quotient.2 ∧ x.quotient.1 < x.quotient.2 * 10 ^ 22 ∧
      x.quotient.2 < x.quotient.1 * 10 ^ 22 := by
  have key : ∀ {a b : Nat}, a ≠ 0 → b ≠ 0 → a.log2 ≤ b.log2 + 70 → a < b * 10 ^ 22 := by
    intro a b ha hb hle
    calc a < 2 ^ (a.log2 + 1) := Nat.lt_log2_self
      _ ≤ 2 ^ (b.log2 + 71) := Nat.pow_le_pow_right (by decide) (by omega)
      _ = 2 ^ b.log2 * 2 ^ 71 := Nat.pow_add ..
      _ ≤ b * 10 ^ 22 := Nat.mul_le_mul (Nat.log2_self_le hb) (by decide)
  obtain ⟨hnum, hden, hlow, hhigh⟩ := h.quotient
  exact ⟨Nat.pos_of_ne_zero hnum, Nat.pos_of_ne_zero hden, key hnum hden (by omega),
    key hden hnum (by omega)⟩

variable {num den k : Nat}

/-- The number of digits of a fraction that is moved up by `k` places. -/
theorem length_digits (hden : 0 < den) (h : num < den * 10 ^ 22) (h' : den < num * 10 ^ 22)
    (hk : 22 < k) :
    k - 22 < (Nat.toDigits 10 (num * 10 ^ k / den)).length ∧
      (Nat.toDigits 10 (num * 10 ^ k / den)).length ≤ k + 22 := by
  constructor
  · refine Nat.lt_of_not_le fun hle ↦ ?_
    rw [Nat.length_toDigits_le_iff (by decide) (by omega), Nat.div_lt_iff_lt_mul hden] at hle
    have hk' : 10 ^ k = 10 ^ (k - 22) * 10 ^ 22 := by
      rw [← Nat.pow_add]
      congr 1
      omega
    rw [hk', Nat.mul_comm, Nat.mul_assoc] at hle
    have hlt := Nat.lt_of_mul_lt_mul_left hle
    rw [Nat.mul_comm] at hlt
    omega
  · rw [Nat.length_toDigits_le_iff (by decide) (by omega), Nat.div_lt_iff_lt_mul hden,
      Nat.add_comm k, Nat.pow_add, Nat.mul_right_comm, Nat.mul_comm (10 ^ 22)]
    exact Nat.mul_lt_mul_of_pos_right h (Nat.pow_pos (by decide))

theorem firstDigitExponent_eq (hk : k = 340) : x.firstDigitExponent =
    ((Nat.toDigits 10 (x.quotient.1 * 10 ^ k / x.quotient.2)).length : Int) - 341 := by
  rw [firstDigitExponent, ← hk]
  rfl

theorem firstDigit_bounds (h : x.Sized (-70) 70) :
    -22 ≤ x.firstDigitExponent ∧ x.firstDigitExponent ≤ 21 := by
  obtain ⟨-, hden, hlt, hlt'⟩ := h.quotient_lt
  obtain ⟨k, hk⟩ : ∃ k, k = 340 := ⟨_, rfl⟩
  obtain ⟨hlow, hhigh⟩ := length_digits (k := k) hden hlt hlt' (by omega)
  rw [firstDigitExponent_eq hk]
  omega

/-- With `l` digits in front of the point at `k` places, at most 17 are left at sixteen places less. -/
theorem grid_lt {l a g : Nat} (h : num * 10 ^ k < 10 ^ l * den) (hle : l + a ≤ g + k + 17) :
    num * 10 ^ a < 10 ^ 17 * (den * 10 ^ g) := by
  have hpos : ∀ n, 0 < 10 ^ n := fun n ↦ Nat.pow_pos (by decide)
  refine Nat.lt_of_mul_lt_mul_right (a := 10 ^ k) ?_
  calc num * 10 ^ a * 10 ^ k = num * 10 ^ k * 10 ^ a := Nat.mul_right_comm ..
    _ < 10 ^ l * den * 10 ^ a := Nat.mul_lt_mul_of_pos_right h (hpos a)
    _ = den * 10 ^ (l + a) := by rw [Nat.pow_add, Nat.mul_comm (10 ^ l), Nat.mul_assoc]
    _ ≤ den * 10 ^ (g + k + 17) := Nat.mul_le_mul_left _ (Nat.pow_le_pow_right (by decide) hle)
    _ = 10 ^ 17 * (den * 10 ^ g) * 10 ^ k := by
      rw [Nat.pow_add, Nat.pow_add, ← Nat.mul_assoc, ← Nat.mul_assoc,
        Nat.mul_comm _ (10 ^ 17), Nat.mul_assoc (10 ^ 17)]

theorem covers_zero (h : 0 < x.significand) (g : Int) : x.covers 0 g = false := by
  have hlow : 0 < x.lowerQuarters := by
    simp only [lowerQuarters]
    split <;> omega
  have hden : 0 < Nat.pow 10 (-g).toNat <<< (x.exponent - 2).toNat := by
    rw [Nat.shiftLeft_eq]
    exact Nat.mul_pos (Nat.pow_pos (by decide)) (Nat.two_pow_pos _)
  have hpos := Nat.mul_pos hlow hden
  rw [covers]
  simp only [Nat.zero_mul, Nat.zero_shiftLeft]
  split
  · rw [decide_eq_false (by omega), Bool.false_and]
  · rw [decide_eq_false (by omega), Bool.false_and]

/-- The multiple of a power of ten that a double is rounded to. -/
theorem onGrid_spec (h : 0 < x.significand) {g : Int} {s : Scientific} (hs : x.onGrid g = some s) :
    0 < s.digits ∧ s.exponent = g ∧ s.digits ≤
      x.quotient.1 * 10 ^ (-g).toNat / (x.quotient.2 * 10 ^ g.toNat) + 1 := by
  have hbelow : ∀ n, x.covers n g = true → 0 < n := by
    intro n hn
    refine Nat.pos_of_ne_zero fun hzero ↦ ?_
    rw [hzero, covers_zero h] at hn
    cases hn
  rw [onGrid] at hs
  generalize x.quotient = q at hs ⊢
  obtain ⟨num, den⟩ := q
  dsimp only at hs ⊢
  change _ ∧ _ ∧ s.digits ≤ num * Nat.pow 10 (-g).toNat / (den * Nat.pow 10 g.toNat) + 1
  generalize num * Nat.pow 10 (-g).toNat / (den * Nat.pow 10 g.toNat) = below at hs ⊢
  split at hs
  · next hc _ =>
    have := hbelow below hc
    split at hs <;> cases hs
    · exact ⟨this, rfl, Nat.le_succ _⟩
    · exact ⟨Nat.succ_pos _, rfl, Nat.le_refl _⟩
  · next hc _ =>
    cases hs
    exact ⟨hbelow below hc, rfl, Nat.le_succ _⟩
  · cases hs
    exact ⟨Nat.succ_pos _, rfl, Nat.le_refl _⟩
  · cases hs

end Binary64

namespace Scientific

/-- Zeros are moved from the digits to the exponent. -/
theorem trimmed_spec (s : Scientific) :
    ∃ j : Nat, s.digits = s.trimmed.digits * 10 ^ j ∧ s.trimmed.exponent = s.exponent + j := by
  fun_induction trimmed s with
  | case1 s h ih =>
    obtain ⟨j, hj, hexp⟩ := ih
    refine ⟨j + 1, ?_, ?_⟩
    · rw [Nat.pow_succ, ← Nat.mul_assoc, ← hj]
      dsimp only
      omega
    · rw [hexp]
      push_cast
      omega
  | case2 s h => exact ⟨0, by simp, by simp⟩

theorem trimmed_bounds {s : Scientific} (hpos : 0 < s.digits) (hle : s.digits ≤ 10 ^ 17) :
    0 < s.trimmed.digits ∧ s.trimmed.digits ≤ 10 ^ 17 ∧ s.exponent ≤ s.trimmed.exponent ∧
      s.trimmed.exponent ≤ s.exponent + 17 := by
  obtain ⟨j, hj, hexp⟩ := s.trimmed_spec
  have htrim : 0 < s.trimmed.digits := by
    refine Nat.pos_of_ne_zero fun hzero ↦ ?_
    rw [hzero, Nat.zero_mul] at hj
    omega
  have hj17 : j ≤ 17 := by
    refine (Nat.pow_le_pow_iff_right (a := 10) (by decide)).1 (Nat.le_trans ?_ hle)
    rw [hj]
    exact Nat.le_mul_of_pos_left _ htrim
  have hless : s.trimmed.digits ≤ s.digits := by
    rw [hj]
    exact Nat.le_mul_of_pos_right _ (Nat.pow_pos (by decide))
  exact ⟨htrim, Nat.le_trans hless hle, by omega, by omega⟩

end Scientific

namespace Binary64

variable {x : Binary64}

/-- Seventeen places behind the first digit there are at most that many digits. -/
theorem onGrid_digits_le (h : x.Sized (-70) 70) {k : Nat} (hk : k < 17) {s : Scientific}
    (hs : x.onGrid (x.firstDigitExponent - (k : Int)) = some s) : s.digits ≤ 10 ^ 17 := by
  obtain ⟨-, -, hle⟩ := onGrid_spec h.significand_pos hs
  obtain ⟨-, hden, -, -⟩ := h.quotient_lt
  -- The number of places stays a variable: a power with this exponent is not to be computed.
  obtain ⟨places, hplaces⟩ : ∃ n, n = 340 := ⟨_, rfl⟩
  have hfirst := firstDigitExponent_eq (x := x) hplaces
  have hl := (Nat.length_toDigits_le_iff (by decide) Nat.length_toDigits_pos).1 (Nat.le_refl
    (Nat.toDigits 10 (x.quotient.1 * 10 ^ places / x.quotient.2)).length)
  rw [Nat.div_lt_iff_lt_mul hden] at hl
  have hplace : ∀ (e : Int) (l : Nat), e = l - 341 →
      l + (-(e - k)).toNat ≤ (e - k).toNat + places + 17 := by omega
  have hgrid := grid_lt hl (hplace _ _ hfirst)
  have hpos : 0 < x.quotient.2 * 10 ^ (x.firstDigitExponent - (k : Int)).toNat :=
    Nat.mul_pos hden (Nat.pow_pos (by decide))
  exact Nat.le_trans hle ((Nat.div_lt_iff_lt_mul hpos).2 hgrid)

theorem shortest_bounds (h : x.Sized (-70) 70) :
    x.shortest = ⟨0, 0⟩ ∨ (0 < x.shortest.digits ∧ x.shortest.digits < 10 ^ 18 ∧
      -40 ≤ x.shortest.exponent ∧ x.shortest.exponent ≤ 40) := by
  obtain ⟨hlow, hhigh⟩ := firstDigit_bounds h
  rw [shortest]
  cases hfound : (List.range 17).findSome? fun (k : Nat) ↦
      x.onGrid (x.firstDigitExponent - (k : Int)) with
  | none =>
    refine .inl ?_
    rw [Option.getD_none, Scientific.trimmed]
    rfl
  | some s =>
    obtain ⟨k, hk, hs⟩ := List.exists_of_findSome?_eq_some hfound
    rw [List.mem_range] at hk
    obtain ⟨hpos, hexp, -⟩ := onGrid_spec h.significand_pos hs
    obtain ⟨htrim, hle, hleast, hgreatest⟩ :=
      Scientific.trimmed_bounds hpos (onGrid_digits_le h hk hs)
    rw [Option.getD_some]
    exact .inr ⟨htrim, by omega, by omega, by omega⟩

end Binary64

namespace Scientific

/-- A number that is read whatever it stands for: few digits, a small exponent. -/
def Short (t : Bytes) : Prop :=
  ∃ w f e, Whole w ∧ Fractional f ∧ SmallExponent e ∧ w.length ≤ 40 ∧ f.length ≤ 40 ∧
    t = w ++ (f ++ e)

variable {ds : List Char} {b : UInt8} {t : Bytes}

theorem digits_replicate (n : Nat) : ∀ b ∈ List.replicate n (ascii '0'), isDigit b = true := by
  intro b hb
  rw [List.eq_of_mem_replicate hb]
  rfl

theorem short_below (hds : ds.map ascii = b :: t) (hall : ∀ d ∈ ds.map ascii, isDigit d = true)
    (hlen : ds.length ≤ 18) {before : Int} (hlow : -4 ≤ before) (h : before ≤ 0) :
    Short ((plain ds before).map ascii) := by
  rw [plain, if_pos h]
  refine ⟨[ascii '0'], ascii '.' :: (List.replicate (-before).toNat (ascii '0') ++ ds.map ascii),
    [], .zero, .digits ⟨by simp [hds], fun d hd ↦ ?_⟩, .none, by simp, ?_, by simp⟩
  · rcases List.mem_append.1 hd with hd | hd
    · exact digits_replicate _ d hd
    · exact hall d hd
  · simp only [List.length_cons, List.length_append, List.length_replicate, List.length_map]
    omega

/-- What stands behind the point, if `m + 1` digits stand in front of it. -/
theorem digits_fraction (hall : ∀ d ∈ ds.map ascii, isDigit d = true) (hlen : ds.length ≤ 18)
    (m : Nat) :
    Digits ((if (ds.drop (m + 1)).isEmpty = true then ['0'] else ds.drop (m + 1)).map ascii) ∧
      ((if (ds.drop (m + 1)).isEmpty = true then ['0'] else ds.drop (m + 1)).map ascii).length ≤
        18 := by
  split
  · exact ⟨⟨by simp, List.forall_mem_singleton.2 rfl⟩, by simp⟩
  · next hdrop =>
    refine ⟨⟨by simpa using hdrop, fun d hd ↦ hall d ?_⟩, ?_⟩
    · rw [List.map_drop] at hd
      exact List.mem_of_mem_drop hd
    · simp only [List.length_map, List.length_drop]
      omega

theorem short_plain (hds : ds.map ascii = b :: t) (hb : isDigit b = true) (hne : b ≠ ascii '0')
    (ht : ∀ d ∈ t, isDigit d = true) (hlen : ds.length ≤ 18) {before : Int} (hlow : -4 ≤ before)
    (hhigh : before ≤ 16) : Short ((plain ds before).map ascii) := by
  have hall : ∀ d ∈ ds.map ascii, isDigit d = true := by simpa [hds, hb] using ht
  by_cases h : before ≤ 0
  · exact short_below hds hall hlen hlow h
  obtain ⟨m, hm⟩ : ∃ m, before.toNat = m + 1 := ⟨before.toNat - 1, by omega⟩
  obtain ⟨hfraction, hlength⟩ := digits_fraction hall hlen m
  have hw : (ds.take (m + 1) ++ List.replicate (m + 1 - ds.length) '0').map ascii =
      b :: (t.take m ++ List.replicate (m + 1 - ds.length) (ascii '0')) := by
    rw [List.map_append, List.map_take, hds, List.map_replicate]
    rfl
  have hwhole : ∀ d ∈ t.take m ++ List.replicate (m + 1 - ds.length) (ascii '0'),
      isDigit d = true := by
    intro d hd
    rcases List.mem_append.1 hd with hd | hd
    · exact ht d (List.mem_of_mem_take hd)
    · exact digits_replicate _ d hd
  rw [plain, if_neg h]
  refine ⟨_, _, [], .digits hb hne hwhole, .digits hfraction, .none, ?_, ?_, ?_⟩
  · simp only [List.length_cons, List.length_append, List.length_take, List.length_replicate]
    omega
  · rw [List.length_cons]
    omega
  · dsimp only
    rw [hm, ← hw, List.append_nil, List.map_append]
    rfl

theorem short_withExponent (hds : ds.map ascii = b :: t) (hb : isDigit b = true)
    (hne : b ≠ ascii '0') (ht : ∀ d ∈ t, isDigit d = true) (hlen : ds.length ≤ 18) {x : Int}
    (hx : x.natAbs ≤ 60) : Short ((withExponent ds x).map ascii) := by
  have hdrop : (ds.drop 1).map ascii = t := by rw [List.map_drop, hds]; rfl
  have hlen' : t.length ≤ 17 := by
    have := congrArg List.length hds
    rw [List.length_map, List.length_cons] at this
    omega
  refine ⟨[b], ((if (ds.drop 1).isEmpty = true then [] else '.' :: ds.drop 1)).map ascii,
    ascii 'e' :: (if x < 0 then ascii '-' else ascii '+') :: decimal x.natAbs, ?_, ?_, ?_,
    by simp, ?_, ?_⟩
  · exact .digits hb hne (by simp)
  · split
    · exact .none
    · next h =>
      rw [List.map_cons, hdrop]
      refine .digits ⟨fun hnil ↦ ?_, ht⟩
      rw [← hdrop, List.map_eq_nil_iff] at hnil
      exact h (List.isEmpty_iff.2 hnil)
  · refine .some ?_ hx
    split <;> simp
  · split
    · simp
    · rw [List.map_cons, hdrop, List.length_cons]
      omega
  · have htake : (ds.take 1).map ascii = [b] := by rw [List.map_take, hds]; rfl
    have hsign : ascii (if x < 0 then '-' else '+') = if x < 0 then ascii '-' else ascii '+' := by
      split <;> rfl
    rw [withExponent]
    simp only [List.map_append, htake, List.map_cons, List.map_nil, hsign, List.append_assoc]
    rfl

theorem short_render {s : Scientific} (h : s = ⟨0, 0⟩ ∨ (0 < s.digits ∧ s.digits < 10 ^ 18 ∧
    -40 ≤ s.exponent ∧ s.exponent ≤ 40)) : Short ((s.render .document).map ascii) := by
  rcases h with rfl | ⟨hpos, hlt, hlow, hhigh⟩
  · exact ⟨[ascii '0'], [ascii '.', ascii '0'], [], .zero,
      .digits ⟨by simp, List.forall_mem_singleton.2 rfl⟩, .none, by simp, by simp, rfl⟩
  · obtain ⟨b, t, hds, hb, hne, ht⟩ := decimal_pos hpos
    have hlen : (Nat.toDigits 10 s.digits).length ≤ 18 :=
      (Nat.length_toDigits_le_iff (by decide) (by decide)).2 hlt
    have hlen₀ : 0 < (Nat.toDigits 10 s.digits).length := Nat.length_toDigits_pos
    have hfrom : Layout.document.plainFrom = -5 := rfl
    have hbelow : Layout.document.plainBelow = 16 := rfl
    rw [render, hfrom, hbelow]
    split
    · exact short_plain hds hb hne ht hlen (by omega) (by omega)
    · exact short_withExponent hds hb hne ht hlen (by omega)

end Scientific

/-- Zero, or a double that is not far from one, and no sign. -/
def Binary64.Moderate (x : Binary64) : Prop :=
  x.negative = false ∧ (x = .zero false ∨ x.Sized (-70) 70)

theorem Binary64.Moderate.finite {x : Binary64} (h : x.Moderate) : x.Finite := by
  obtain ⟨-, rfl | hsize⟩ := h
  · exact finite_zero false
  · exact hsize.finite (by decide) (by decide)

theorem Binary64.Moderate.short {x : Binary64} (h : x.Moderate) :
    Scientific.Short ((x.render .document).map ascii) := by
  obtain ⟨hneg, rfl | hsize⟩ := h
  · exact ⟨[ascii '0'], [ascii '.', ascii '0'], [], .zero,
      .digits ⟨by simp, List.forall_mem_singleton.2 rfl⟩, .none, by simp, by simp, rfl⟩
  · rw [Binary64.render, hneg, hsize.isZero, if_neg (by simp), if_neg (by simp), List.nil_append]
    exact Scientific.short_render (Binary64.shortest_bounds hsize)

/-! The characters of a number. -/

/-- What numbers are written with. -/
def Figure (c : Char) : Prop := c.isDigit = true ∨ c ∈ ['.', 'e', '+', '-']

variable {c : Char} {cs : List Char} {n : Nat}

theorem Figure.toNat_le (h : Figure c) : c.toNat ≤ 0x65 := by
  rcases h with h | h
  · simp only [Char.isDigit, Bool.and_eq_true, decide_eq_true_eq, UInt32.le_iff_toNat_le] at h
    exact Nat.le_trans h.2 (by decide)
  · simp only [List.mem_cons, List.not_mem_nil, or_false] at h
    rcases h with rfl | rfl | rfl | rfl <;> decide

theorem figure_digits (h : c ∈ Nat.toDigits 10 n) : Figure c :=
  .inl (Nat.isDigit_of_mem_toDigits (by decide) (Nat.le_refl _) h)

theorem figure_zeros (h : c ∈ List.replicate n '0') : Figure c :=
  .inl (by rw [List.eq_of_mem_replicate h]; rfl)

theorem Scientific.figure_plain (h : ∀ c ∈ cs, Figure c) (before : Int) :
    ∀ c ∈ plain cs before, Figure c := by
  have hzero : Figure '0' := .inl rfl
  have hdot : Figure '.' := .inr (by simp)
  intro c hc
  rw [plain] at hc
  split at hc
  · simp only [List.mem_append, List.mem_cons] at hc
    rcases hc with (rfl | rfl | hc) | hc
    · exact hzero
    · exact hdot
    · exact figure_zeros hc
    · exact h c hc
  · simp only [List.mem_append, List.mem_cons] at hc
    rcases hc with (hc | hc) | rfl | hc
    · exact h c (List.mem_of_mem_take hc)
    · exact figure_zeros hc
    · exact hdot
    · split at hc
      · exact List.mem_singleton.1 hc ▸ hzero
      · exact h c (List.mem_of_mem_drop hc)

theorem Scientific.figure_withExponent (h : ∀ c ∈ cs, Figure c) (e : Int) :
    ∀ c ∈ withExponent cs e, Figure c := by
  intro c hc
  simp only [withExponent, List.mem_append, List.mem_cons, List.not_mem_nil, or_false] at hc
  rcases hc with ((hc | hc) | rfl | rfl) | hc
  · exact h c (List.mem_of_mem_take hc)
  · split at hc
    · cases hc
    · rcases List.mem_cons.1 hc with rfl | hc
      · exact .inr (by simp)
      · exact h c (List.mem_of_mem_drop hc)
  · exact .inr (by simp)
  · split
    · exact .inr (by simp)
    · exact .inr (by simp)
  · exact figure_digits hc

namespace Binary64

variable {x : Binary64}

theorem figure_render (x : Binary64) : ∀ c ∈ x.render .document, Figure c := by
  intro c hc
  rcases List.mem_append.1 hc with hc | hc
  · split at hc
    · exact List.mem_singleton.1 hc ▸ .inr (by simp)
    · cases hc
  · split at hc
    · simp only [List.mem_cons, List.not_mem_nil, or_false] at hc
      rcases hc with rfl | rfl | rfl
      · exact .inl rfl
      · exact .inr (by simp)
      · exact .inl rfl
    · rw [Scientific.render] at hc
      split at hc
      · exact Scientific.figure_plain (fun _ ↦ figure_digits) _ c hc
      · exact Scientific.figure_withExponent (fun _ ↦ figure_digits) _ c hc

theorem ofText_render (x : Binary64) :
    Bytes.ofText (String.ofList (x.render .document)) = (x.render .document).map ascii :=
  ofText_ascii fun c hc ↦ Nat.le_trans (figure_render x c hc).toNat_le (by decide)

/-- Which double the text is read as is left open. -/
theorem Moderate.readable (h : x.Moderate) :
    ReadableNumber (String.ofList (x.render .document)) := by
  obtain ⟨w, f, e, hw, hf, he, hlw, hlf, htext⟩ := h.short
  obtain ⟨y, hy⟩ := exists_reads_double hw hf he hlw hlf
  have hnil : Blanks [] := by simp [Blanks]
  have hdoc := hy.document hnil hnil
  rw [List.nil_append, List.append_nil] at hdoc
  rw [ReadableNumber, ofText_render, htext]
  exact ⟨.plain ⟨hw, hf, he.exponential⟩, y, hdoc⟩

end Binary64

end QueuedFiles.Decimal
