import Mathlib.Tactic.IntervalCases
import QueuedFiles.Json.Scalar
import QueuedFiles.Proofs.Json.Lexing

/-!
Natural numbers in plain decimal, and what the reader of numbers makes of digits in general.
-/

namespace QueuedFiles.Json

open Bytes (ascii)

/-- The text of a natural number. -/
def decimal (m : Nat) : Bytes := (Nat.toDigits 10 m).map ascii

def lastDigit (m : Nat) : UInt8 := ascii (m % 10).digitChar

variable {n m limit value taken : Nat} {b : UInt8} {t r w : Bytes}

theorem isDigit_lastDigit (m : Nat) : isDigit (lastDigit m) = true := by
  have h : m % 10 < 10 := Nat.mod_lt _ (by decide)
  unfold lastDigit
  interval_cases m % 10 <;> rfl

theorem digitValue_lastDigit (m : Nat) : digitValue (lastDigit m) = m % 10 := by
  have h : m % 10 < 10 := Nat.mod_lt _ (by decide)
  unfold lastDigit
  interval_cases m % 10 <;> rfl

theorem decimal_of_lt (h : m < 10) : decimal m = [lastDigit m] := by
  rw [decimal, lastDigit, Nat.toDigits_of_lt_base h, Nat.mod_eq_of_lt h]
  rfl

/-- The last digit comes off the end. -/
theorem decimal_of_le (h : 10 ≤ m) : decimal m = decimal (m / 10) ++ [lastDigit m] := by
  rw [decimal, Nat.toDigits_of_base_le (by decide) h, List.map_append]
  rfl

theorem decimal_pos (hm : 0 < m) : ∃ b t, decimal m = b :: t ∧ isDigit b = true ∧
    b ≠ ascii '0' ∧ ∀ d ∈ t, isDigit d = true := by
  induction m using Nat.strongRecOn with
  | ind m ih =>
    rcases Nat.lt_or_ge m 10 with hlt | hge
    · refine ⟨_, [], decimal_of_lt hlt, isDigit_lastDigit m, ?_, by simp⟩
      unfold lastDigit
      rw [Nat.mod_eq_of_lt hlt]
      interval_cases m <;> decide
    · obtain ⟨b, t, h, hb, hne, ht⟩ := ih (m / 10) (by omega) (by omega)
      refine ⟨b, t ++ [lastDigit m], by rw [decimal_of_le hge, h, List.cons_append], hb, hne, ?_⟩
      intro d hd
      rcases List.mem_append.1 hd with hd | hd
      · exact ht d hd
      · rw [List.mem_singleton.1 hd]
        exact isDigit_lastDigit m

theorem whole_decimal (m : Nat) : Whole (decimal m) := by
  rcases Nat.eq_zero_or_pos m with rfl | hm
  · exact .zero
  · obtain ⟨b, t, h, hb, hne, ht⟩ := decimal_pos hm
    rw [h]
    exact .digits hb hne ht

theorem Whole.digits_all (h : Whole t) : Digits t := by
  cases h with
  | zero => exact ⟨by simp, List.forall_mem_singleton.2 rfl⟩
  | digits hb _ ht => exact ⟨by simp, by simpa [hb] using ht⟩

/-! Digits taken into a value. -/

theorem absorb_digit (hb : isDigit b = true) (h : value * 10 + digitValue b ≤ limit) :
    absorb limit value taken (b :: r) =
      absorb limit (value * 10 + digitValue b) (taken + 1) r := by
  rw [absorb, if_pos ⟨hb, h⟩]

theorem absorb_stops (hr : ∀ b ∈ r.head?, isDigit b = false) :
    absorb limit value taken r = (value, taken) := by
  cases r with
  | nil => rfl
  | cons b r => rw [absorb, if_neg (by simp [hr b rfl])]

theorem absorb_decimal (taken : Nat) (r : Bytes) (h : m ≤ limit) :
    absorb limit 0 taken (decimal m ++ r) = absorb limit m (taken + (decimal m).length) r := by
  induction m using Nat.strongRecOn generalizing r with
  | ind m ih =>
    have hd := isDigit_lastDigit m
    have hv := digitValue_lastDigit m
    rcases Nat.lt_or_ge m 10 with hlt | hge
    · rw [decimal_of_lt hlt, List.singleton_append, absorb_digit hd (by omega), hv,
        Nat.mod_eq_of_lt hlt, Nat.zero_mul, Nat.zero_add]
      rfl
    · rw [decimal_of_le hge, List.append_assoc, ih (m / 10) (by omega) _ (by omega),
        List.singleton_append, absorb_digit hd (by omega), hv, List.length_append]
      congr 1
      omega

/-- How many digits have been taken before does not matter. -/
theorem absorb_taken (k : Nat) :
    absorb limit value (taken + k) t =
      ((absorb limit value taken t).1, (absorb limit value taken t).2 + k) := by
  induction t generalizing value taken with
  | nil => rfl
  | cons b t ih =>
    simp only [absorb]
    split
    · rw [Nat.add_right_comm, ih]
    · rfl

theorem absorb_le (taken : Nat) (t : Bytes) (hv : value ≤ limit) :
    (absorb limit value taken t).1 ≤ limit ∧
      (absorb limit value taken t).2 ≤ taken + (t.takeWhile isDigit).length := by
  induction t generalizing value taken with
  | nil => exact ⟨hv, Nat.le_refl _⟩
  | cons b t ih =>
    simp only [absorb]
    split
    · next h =>
      obtain ⟨hle, hlen⟩ := @ih (value * 10 + digitValue b) (taken + 1) h.2
      refine ⟨hle, ?_⟩
      rw [List.takeWhile_cons_of_pos h.1, List.length_cons]
      omega
    · exact ⟨hv, Nat.le_add_right ..⟩

/-! The number in front of a stop. -/

theorem takeWhile_digits (ht : ∀ d ∈ t, isDigit d = true) (hr : ∀ b ∈ r.head?, isDigit b = false) :
    (t ++ r).takeWhile isDigit = t := by
  rw [List.takeWhile_append_of_pos ht]
  cases r with
  | nil => simp
  | cons b r => rw [List.takeWhile_cons_of_neg (by simp [hr b rfl]), List.append_nil]

theorem digitValue_le (hb : isDigit b = true) : digitValue b ≤ 9 := by
  have hle : b ≤ ascii '9' := by
    simp only [isDigit, Bool.and_eq_true, decide_eq_true_eq] at hb
    exact hb.2
  have hnat : b.toNat ≤ 57 := hle
  have hzero : '0'.toNat = 48 := rfl
  simp only [digitValue, hzero]
  omega

/-- The digits behind the first one, taken into its value. -/
theorem absorb_behind (hm : m ≤ limit) (hlimit : 9 ≤ limit) (h : decimal m = b :: t)
    (hr : ∀ b ∈ r.head?, isDigit b = false) :
    absorb limit (digitValue b) 0 (t ++ r) = (m, t.length) := by
  have hb : isDigit b = true := by
    refine (whole_decimal m).digits_all.2 b ?_
    rw [h]
    exact List.mem_cons_self ..
  have hv : 0 * 10 + digitValue b ≤ limit := by
    have := digitValue_le hb
    omega
  have habsorb := absorb_decimal 0 r hm
  rw [h, List.cons_append, absorb_digit hb hv, absorb_stops hr, absorb_taken, Nat.zero_mul,
    Nat.zero_add] at habsorb
  obtain ⟨hvalue, htaken⟩ := Prod.mk.inj habsorb
  exact Prod.ext hvalue (Nat.add_right_cancel (htaken.trans (Nat.zero_add _)))

theorem integral_digits (hb : isDigit b = true) (hne : b ≠ ascii '0')
    (ht : ∀ d ∈ t, isDigit d = true) (hr : ∀ b ∈ r.head?, isDigit b = false) :
    integral ⟨n, b :: (t ++ r)⟩ = .ok ⟨(absorb wordMax (digitValue b) 0 (t ++ r)).1,
      t.length - (absorb wordMax (digitValue b) 0 (t ++ r)).2, ⟨n + (t.length + 1), r⟩⟩ := by
  have hv : digitValue b ≤ wordMax := Nat.le_trans (digitValue_le hb) (by decide)
  have hk := (absorb_le 0 (t ++ r) hv).2
  rw [takeWhile_digits ht hr, Nat.zero_add] at hk
  rw [integral, Cursor.next?_cons]
  dsimp only
  rw [if_neg hne, if_pos hb]
  generalize absorb wordMax (digitValue b) 0 (t ++ r) = a at hk
  have hrest := takeWhile_digits (fun d hd ↦ ht d (List.mem_of_mem_drop hd)) hr (t := t.drop a.2)
  rw [Cursor.advance_within hk, hrest, Cursor.advance_append, List.length_drop]
  congr 3
  omega

theorem integral_decimal (hm : m ≤ wordMax) (hr : ∀ b ∈ r.head?, isDigit b = false) :
    integral ⟨n, decimal m ++ r⟩ = .ok ⟨m, 0, ⟨n + (decimal m).length, r⟩⟩ := by
  have hwhole := whole_decimal m
  generalize hw : decimal m = w at hwhole
  cases hwhole with
  | zero =>
    obtain rfl : digitValue (ascii '0') = m := by
      simpa [absorb_stops hr] using absorb_behind hm (by decide) hw hr
    rw [List.singleton_append, integral, Cursor.next?_cons]
    dsimp only
    rw [if_pos rfl, if_neg (by simp [nextIs_eq_false hr])]
    rfl
  | @digits b t hb hne ht =>
    rw [List.cons_append, integral_digits hb hne ht hr, absorb_behind hm (by decide) hw hr,
      Nat.sub_self]
    rfl

theorem number_decimal (hm : m ≤ wordMax) (hr : Stops r) :
    number false ⟨n, decimal m ++ r⟩ = .ok (.natural m, ⟨n + (decimal m).length, r⟩) := by
  have hdot : Cursor.nextIs ⟨n + (decimal m).length, r⟩ (· = ascii '.') = false :=
    nextIs_eq_false (hr.head (by decide))
  have he : Cursor.nextIs ⟨n + (decimal m).length, r⟩ (fun b ↦ b = ascii 'e' || b = ascii 'E') =
      false := nextIs_eq_false (hr.head (by decide))
  rw [number, integral_decimal hm hr.digit]
  simp [bind, Except.bind, hdot, he, integer]

end QueuedFiles.Json
