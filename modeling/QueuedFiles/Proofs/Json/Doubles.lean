import QueuedFiles.Proofs.Decimal.Magnitude
import QueuedFiles.Proofs.Json.Numerals

/-!
Numbers with few digits and a small exponent: they are never out of range.
-/

namespace QueuedFiles.Json

open Bytes (ascii)
open Decimal

variable {n value : Nat} {w f e : Bytes}

inductive SmallExponent : Bytes → Prop
  | none : SmallExponent []
  | some {sign : UInt8} {k : Nat} : sign = ascii '+' ∨ sign = ascii '-' → k ≤ 60 →
      SmallExponent (ascii 'e' :: sign :: decimal k)

theorem SmallExponent.exponential (he : SmallExponent e) : Exponential e := by
  cases he with
  | none => exact .none
  | @some sign k hs _ =>
    have hsign : [sign] = [] ∨ [sign] = [ascii '+'] ∨ [sign] = [ascii '-'] := .inr (by simpa using hs)
    exact .digits (.inl rfl) hsign (whole_decimal k).digits_all

theorem exists_exponent {sign : UInt8} (hs : sign = ascii '+' ∨ sign = ascii '-') {k : Nat}
    (hk : k ≤ 60) (isZero : Bool) :
    ∃ x : Int, -60 ≤ x ∧ x ≤ 60 ∧
      ∀ n, ∃ c, exponent isZero ⟨n, sign :: decimal k⟩ = .ok (some x, c) := by
  obtain ⟨hne, hall⟩ := (whole_decimal k).digits_all
  obtain ⟨b, u, hbu⟩ := List.exists_cons_of_ne_nil hne
  rw [hbu, List.forall_mem_cons] at hall
  have hend : ∀ b ∈ ([] : Bytes).head?, isDigit b = false := by simp
  have habsorb : absorb exponentMax (digitValue b) 0 (u ++ []) = (k, u.length) :=
    absorb_behind (Nat.le_trans hk (by decide)) (by decide) hbu hend
  have hsign : [sign] = [] ∨ [sign] = [ascii '+'] ∨ [sign] = [ascii '-'] := .inr (by simpa using hs)
  rw [List.append_nil] at habsorb
  refine ⟨if [sign] = [ascii '-'] then -(k : Int) else k, ?_, ?_, fun n ↦
    ⟨⟨n + ([sign].length + (u.length + 1)), []⟩, ?_⟩⟩
  · split <;> omega
  · split <;> omega
  · have heq := exponent_digits (n := n) isZero hsign hall.1 hall.2 hend
    rw [habsorb] at heq
    dsimp only at heq
    rw [if_pos rfl, List.append_nil, List.singleton_append, ← hbu] at heq
    exact heq

theorem exists_toDouble (hv : value ≤ wordMax) {x : Int} (hlow : -100 ≤ x) (hhigh : x ≤ 100) :
    ∃ y, ∀ c, toDouble false value x c = .ok (y, c) := by
  have hlt : value < 2 ^ 64 := Nat.lt_of_le_of_lt hv (by decide)
  obtain ⟨z, hz⟩ := Binary64.exists_scaled hlt hlow hhigh
  refine ⟨.float z, fun c ↦ ?_⟩
  rw [toDouble, hz]
  rfl

theorem exists_double (hv : value ≤ wordMax) {x : Int} (hlow : -40 ≤ x) (hhigh : x ≤ 40)
    (he : SmallExponent e) : ∃ p, double false value x ⟨n, e⟩ = .ok p := by
  cases he with
  | none =>
    obtain ⟨y, hy⟩ := exists_toDouble hv (x := x) (by omega) (by omega)
    exact ⟨_, hy _⟩
  | @some sign k hs hk =>
    obtain ⟨y, hy, hy', hexp⟩ := exists_exponent hs hk (value = 0)
    obtain ⟨z, hz⟩ := exists_toDouble hv (x := x + y) (by omega) (by omega)
    obtain ⟨c, hc⟩ := hexp (n + 1)
    have hnext : Cursor.nextIs ⟨n, ascii 'e' :: sign :: decimal k⟩
        (fun b ↦ b = ascii 'e' || b = ascii 'E') = true := rfl
    have hadv : Cursor.advance ⟨n, ascii 'e' :: sign :: decimal k⟩ 1 =
        ⟨n + 1, sign :: decimal k⟩ := rfl
    refine ⟨(z, c), ?_⟩
    rw [double, if_pos hnext, hadv, hc]
    exact hz c

theorem exists_number (hw : Whole w) (hf : Fractional f) (he : SmallExponent e)
    (hlw : w.length ≤ 40) (hlf : f.length ≤ 40) :
    ∃ p, number false ⟨n, w ++ (f ++ e)⟩ = .ok p := by
  have hend : Stops [] := by simp [Stops]
  obtain ⟨v, x, hv, hlow, hhigh, hdouble | ⟨rfl, hinteger⟩⟩ := exists_number_eq hw hf he.exponential
  · have heq := hdouble false n [] hend
    rw [List.append_nil, List.append_assoc] at heq
    rw [heq]
    exact exists_double hv (by omega) (by omega) he
  · have heq := hinteger false n [] hend
    rw [List.append_nil, List.append_assoc] at heq
    exact ⟨_, heq⟩

/-- Which double a number is read as is left open. -/
theorem exists_reads_double (hw : Whole w) (hf : Fractional f) (he : SmallExponent e)
    (hlw : w.length ≤ 40) (hlf : f.length ≤ 40) : ∃ x, Reads double64 (w ++ (f ++ e)) x := by
  have hnumeral : Numeral (w ++ (f ++ e)) := ⟨hw, hf, he.exponential⟩
  refine (reads_settled (.plain hnumeral)).resolve_right fun hfail ↦ ?_
  obtain ⟨p, hp⟩ := exists_number (n := 0) hw hf he hlw hlf
  obtain ⟨b, u, hbu, hb⟩ := hnumeral.first
  have hnil : Blanks [] := by simp [Blanks]
  have hscalar := scalar_digit (n := 0) (r := u) "f64" hb hnil
  obtain ⟨failure, hfailure⟩ := hfail 0 [] [] hnil (by simp [Stops])
  rw [hbu] at hp hfailure
  rw [List.append_nil] at hfailure
  change (scalar _ _).map _ = _ at hfailure
  rw [hscalar, List.length_nil, Nat.add_zero, hp] at hfailure
  cases hfailure

end QueuedFiles.Json
