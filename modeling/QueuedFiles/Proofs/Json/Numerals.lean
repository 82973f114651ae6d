import QueuedFiles.Proofs.Json.Reading

/-!
Numbers of any length. Whether one is taken, and as which number, is settled by its text: neither
where it stands nor what stands behind it matters.
-/

namespace QueuedFiles.Json

open Bytes (ascii ofText)
open Decimal

variable {α : Type} {n value : Nat} {b : UInt8} {t u r w f e sign : Bytes}

theorem absorb_digits {limit k : Nat} (hr : ∀ b ∈ r.head?, isDigit b = false) :
    absorb limit value k (t ++ r) = absorb limit value k t := by
  induction t generalizing value k with
  | nil => exact absorb_stops hr
  | cons b t ih =>
    rw [List.cons_append, absorb, absorb]
    split
    · exact ih
    · rfl

theorem exists_integral (hw : Whole w) :
    ∃ v k, v ≤ wordMax ∧ k ≤ w.length ∧ ∀ n r, (∀ b ∈ r.head?, isDigit b = false) →
      integral ⟨n, w ++ r⟩ = .ok ⟨v, k, ⟨n + w.length, r⟩⟩ := by
  cases hw with
  | zero =>
    refine ⟨0, 0, Nat.zero_le _, Nat.zero_le _, fun n r hr ↦ ?_⟩
    exact integral_decimal (m := 0) (Nat.zero_le _) hr
  | @digits b t hb hne ht =>
    have hv : digitValue b ≤ wordMax := Nat.le_trans (digitValue_le hb) (by decide)
    refine ⟨(absorb wordMax (digitValue b) 0 t).1, t.length - (absorb wordMax (digitValue b) 0 t).2,
      (absorb_le 0 t hv).1, ?_, fun n r hr ↦ ?_⟩
    · rw [List.length_cons]
      omega
    · rw [List.cons_append, integral_digits hb hne ht hr, absorb_digits hr]
      rfl

theorem exists_fraction (hv : value ≤ wordMax) (ht : Digits t) :
    ∃ v k, v ≤ wordMax ∧ k ≤ t.length ∧ ∀ n r, (∀ b ∈ r.head?, isDigit b = false) →
      fraction value ⟨n, t ++ r⟩ = .ok ⟨v, k, ⟨n + t.length, r⟩⟩ := by
  obtain ⟨hne, hall⟩ := ht
  obtain ⟨hle, hk⟩ := absorb_le 0 t hv
  rw [List.takeWhile_eq_self_iff.2 hall, Nat.zero_add] at hk
  refine ⟨_, _, hle, hk, fun n r hr ↦ ?_⟩
  have hfirst : Cursor.nextIs ⟨n, t ++ r⟩ isDigit = true := by
    obtain ⟨b, u, rfl⟩ := List.exists_cons_of_ne_nil hne
    exact hall b (List.mem_cons_self ..)
  rw [fraction, absorb_digits hr]
  dsimp only
  rw [if_pos hfirst]
  generalize (absorb wordMax value 0 t).2 = k at hk
  rw [Cursor.advance_within hk,
    Cursor.skipWhile_append (fun d hd ↦ hall d (List.mem_of_mem_drop hd)) hr, List.length_drop]
  congr 3
  omega

/-- The digits of an exponent, if its sign is one that may stand there. -/
theorem exponent_digits (isZero : Bool) (hs : sign = [] ∨ sign = [ascii '+'] ∨ sign = [ascii '-'])
    (hb : isDigit b = true) (hu : ∀ d ∈ u, isDigit d = true)
    (hr : ∀ b ∈ r.head?, isDigit b = false) :
    exponent isZero ⟨n, sign ++ (b :: (u ++ r))⟩ =
      let (v, k) := absorb exponentMax (digitValue b) 0 u
      if k = u.length then
        .ok (some (if sign = [ascii '-'] then -(v : Int) else v),
          ⟨n + (sign.length + (u.length + 1)), r⟩)
      else if !isZero && decide (sign ≠ [ascii '-']) then
        fail .numberTooLarge ⟨n + (sign.length + (k + 2)), u.drop (k + 1) ++ r⟩
      else .ok (none, ⟨n + (sign.length + (u.length + 1)), r⟩) := by
  have hnot := ne_ascii hb '-' rfl
  have hno : (decide (b = ascii '-') || decide (b = ascii '+')) = false := by
    simp [hnot, ne_ascii hb '+' rfl]
  have hor : ∀ c : Cursor, (c.nextIs (· = ascii '-') || c.nextIs (· = ascii '+')) =
      c.nextIs fun b ↦ b = ascii '-' || b = ascii '+' := by
    intro c
    unfold Cursor.nextIs
    cases c.rest.head? <;> rfl
  have hminus : (Cursor.mk n (sign ++ (b :: (u ++ r)))).nextIs (· = ascii '-') =
      decide (sign = [ascii '-']) := by
    rcases hs with rfl | rfl | rfl
    · simp [Cursor.nextIs, hnot]
    · rfl
    · rfl
  have hk : (absorb exponentMax (digitValue b) 0 u).2 ≤ 0 + (u.takeWhile isDigit).length :=
    (absorb_le 0 u (Nat.le_trans (digitValue_le hb) (by decide))).2
  rw [List.takeWhile_eq_self_iff.2 hu, Nat.zero_add] at hk
  rw [exponent]
  dsimp only
  rw [hor, skip_sign hs rfl rfl hno, hminus]
  dsimp only [Cursor.next?_cons]
  rw [if_neg (by simp [hb]), absorb_digits hr]
  generalize absorb exponentMax (digitValue b) 0 u = a at hk
  obtain ⟨v, k⟩ := a
  dsimp only at hk ⊢
  rw [Cursor.advance_within hk]
  by_cases hall : k = u.length
  · have hnone : Cursor.nextIs ⟨n + sign.length + 1 + k, u.drop k ++ r⟩ isDigit = false := by
      rw [hall, List.drop_length, List.nil_append]
      exact nextIs_eq_false hr
    rw [if_neg (by simp [hnone]), if_pos hall, hall, List.drop_length, List.nil_append]
    simp only [decide_eq_true_eq]
    congr 3
    omega
  · have hlt : k < u.length := by omega
    have hsome : Cursor.nextIs ⟨n + sign.length + 1 + k, u.drop k ++ r⟩ isDigit = true := by
      rw [List.drop_eq_getElem_cons hlt]
      exact hu _ (List.getElem_mem hlt)
    have hone : Cursor.advance ⟨n + sign.length + 1 + k, u.drop k ++ r⟩ 1 =
        ⟨n + (sign.length + (k + 2)), u.drop (k + 1) ++ r⟩ := by
      rw [List.drop_eq_getElem_cons hlt]
      simp only [Cursor.advance, List.cons_append, List.drop_succ_cons, List.drop_zero]
      congr 1
      omega
    have hend : n + (sign.length + (k + 2)) + (u.drop (k + 1)).length =
        n + (sign.length + (u.length + 1)) := by
      rw [List.length_drop]
      omega
    rw [if_pos hsome, if_neg hall, hone,
      Cursor.skipWhile_append (fun d hd ↦ hu d (List.mem_of_mem_drop hd)) hr, hend]
    simp only [decide_not]

/-- Wherever `t` stands in front of a stop, the same comes of it: one value, or a failure. -/
def Settled (read : Cursor → Except Failure (α × Cursor)) (t : Bytes) : Prop :=
  (∃ a, ∀ n r, Stops r → read ⟨n, t ++ r⟩ = .ok (a, ⟨n + t.length, r⟩)) ∨
    ∀ n r, Stops r → ∃ failure, read ⟨n, t ++ r⟩ = .error failure

namespace Settled

variable {read other : Cursor → Except Failure (α × Cursor)}

theorem behind (h : Settled other t)
    (heq : ∀ n r, Stops r → read ⟨n, u ++ (t ++ r)⟩ = other ⟨n + u.length, t ++ r⟩) :
    Settled read (u ++ t) := by
  rcases h with ⟨a, ha⟩ | hfail
  · refine .inl ⟨a, fun n r hr ↦ ?_⟩
    rw [List.append_assoc, heq n r hr, ha _ r hr, List.length_append, Nat.add_assoc]
  · refine .inr fun n r hr ↦ ?_
    rw [List.append_assoc, heq n r hr]
    exact hfail _ r hr

theorem bind {β : Type} {g : α → Cursor → Except Failure (β × Cursor)} (h : Settled read t)
    (hg : ∀ a, Settled (g a) []) : Settled (fun c ↦ read c >>= fun p ↦ g p.1 p.2) t := by
  rcases h with ⟨a, ha⟩ | hfail
  · rcases hg a with ⟨b, hb⟩ | hfail
    · refine .inl ⟨b, fun n r hr ↦ ?_⟩
      simpa [ha n r hr, Bind.bind, Except.bind] using hb (n + t.length) r hr
    · refine .inr fun n r hr ↦ ?_
      simpa [ha n r hr, Bind.bind, Except.bind] using hfail (n + t.length) r hr
  · refine .inr fun n r hr ↦ ?_
    obtain ⟨failure, hread⟩ := hfail n r hr
    exact ⟨failure, by simp [hread, Bind.bind, Except.bind]⟩

end Settled

theorem settled_ok (a : α) : Settled (fun c ↦ .ok (a, c)) [] := .inl ⟨a, fun _ _ _ ↦ rfl⟩

theorem settled_toDouble (neg : Bool) (v : Nat) (x : Int) : Settled (toDouble neg v x) [] := by
  cases hx : (Binary64.ofNat v).bind fun y ↦ y.mulPowerOfTen x with
  | some y =>
    refine .inl ⟨.float (if neg then y.neg else y), fun n r _ ↦ ?_⟩
    rw [toDouble, hx]
    rfl
  | none =>
    refine .inr fun n r _ ↦ ⟨⟨.numberTooLarge, ⟨n, r⟩, .here⟩, ?_⟩
    rw [toDouble, hx]
    rfl

theorem settled_exponent (isZero : Bool) (hs : sign = [] ∨ sign = [ascii '+'] ∨ sign = [ascii '-'])
    (ht : Digits t) : Settled (exponent isZero) (sign ++ t) := by
  obtain ⟨hne, hall⟩ := ht
  obtain ⟨b, u, rfl⟩ := List.exists_cons_of_ne_nil hne
  have hu : ∀ d ∈ u, isDigit d = true := fun d hd ↦ hall d (List.mem_cons_of_mem _ hd)
  have heq := fun n r (hr : Stops r) ↦
    exponent_digits (n := n) isZero hs (hall b (List.mem_cons_self ..)) hu hr.digit
  rw [Settled]
  simp only [List.append_assoc, List.cons_append, List.length_append, List.length_cons]
  dsimp only at heq
  split at heq
  · exact .inl ⟨_, heq⟩
  · split at heq
    · exact .inr fun n r hr ↦ ⟨_, heq n r hr⟩
    · exact .inl ⟨_, heq⟩

theorem settled_double (neg : Bool) (v : Nat) (x : Int) (he : Exponential e) :
    Settled (double neg v x) e := by
  cases he with
  | none =>
    refine (settled_toDouble neg v x).behind (u := []) fun n r hr ↦ ?_
    have hnone : Cursor.nextIs ⟨n, r⟩ (fun b ↦ b = ascii 'e' || b = ascii 'E') = false :=
      nextIs_eq_false (hr.head (by decide))
    rw [List.nil_append, List.nil_append, double, if_neg (by simp [hnone])]
    rfl
  | @digits e sign t he hs ht =>
    have hnext : ∀ more : Option Int, Settled (fun c ↦ more.elim
        (.ok (.float (Binary64.zero neg), c)) fun more ↦ toDouble neg v (x + more) c) [] := by
      intro more
      cases more with
      | none => exact settled_ok _
      | some more => exact settled_toDouble neg v (x + more)
    refine ((settled_exponent (v = 0) hs ht).bind hnext).behind (u := [e]) fun n r hr ↦ ?_
    have hletter : Cursor.nextIs ⟨n, e :: (sign ++ t ++ r)⟩
        (fun b ↦ b = ascii 'e' || b = ascii 'E') = true := by
      simpa [Cursor.nextIs] using he
    have hadv : Cursor.advance ⟨n, e :: (sign ++ t ++ r)⟩ 1 = ⟨n + [e].length, sign ++ t ++ r⟩ :=
      rfl
    rw [List.singleton_append, double, if_pos hletter, hadv]
    refine congrArg _ (funext fun p ↦ ?_)
    obtain ⟨more, c⟩ := p
    cases more <;> rfl

theorem settled_integer (neg : Bool) (v : Nat) : Settled (integer neg v) [] := by
  by_cases hneg : neg = true
  · by_cases hv : v = 0 ∨ signedLimit < v
    · refine (settled_toDouble true v 0).behind (u := []) fun n r _ ↦ ?_
      rw [integer, if_neg (by simp [hneg]), if_pos hv]
      rfl
    · refine (settled_ok (Number.negative v)).behind (u := []) fun n r _ ↦ ?_
      rw [integer, if_neg (by simp [hneg]), if_neg hv]
      rfl
  · refine (settled_ok (Number.natural v)).behind (u := []) fun n r _ ↦ ?_
    rw [integer, if_pos (by simp [hneg])]
    rfl

/-- A number without a point: an integer, unless there are too many digits or an exponent. -/
theorem number_whole {v k : Nat} (he : Exponential e)
    (hint : ∀ n r, (∀ b ∈ r.head?, isDigit b = false) →
      integral ⟨n, w ++ r⟩ = .ok ⟨v, k, ⟨n + w.length, r⟩⟩) :
    (∀ neg n r, Stops r →
      number neg ⟨n, w ++ (e ++ r)⟩ = double neg v k ⟨n + w.length, e ++ r⟩) ∨
    e = [] ∧ ∀ neg n r, Stops r →
      number neg ⟨n, w ++ (e ++ r)⟩ = integer neg v ⟨n + w.length, e ++ r⟩ := by
  have hdot : ∀ n r, Stops r → Cursor.nextIs ⟨n, e ++ r⟩ (· = ascii '.') = false := by
    intro n r hr
    cases he with
    | none => exact nextIs_eq_false (hr.head (by decide))
    | digits he => rcases he with rfl | rfl <;> rfl
  have hexp : ∀ n r, Stops r →
      (Cursor.nextIs ⟨n, e ++ r⟩ (fun b ↦ b = ascii 'e' || b = ascii 'E') = true ↔ e ≠ []) := by
    intro n r hr
    cases he with
    | none => simp [nextIs_eq_false (n := n)
        (hr.head (p := fun b ↦ b = ascii 'e' || b = ascii 'E') (by decide))]
    | digits he => rcases he with rfl | rfl <;> simp [Cursor.nextIs]
  have hnumber : ∀ neg n r, Stops r → number neg ⟨n, w ++ (e ++ r)⟩ =
      if k ≠ 0 ∨ e ≠ [] then double neg v k ⟨n + w.length, e ++ r⟩
      else integer neg v ⟨n + w.length, e ++ r⟩ := by
    intro neg n r hr
    have hbehind : ∀ b ∈ (e ++ r).head?, isDigit b = false := not_digit_behind .none he hr
    rw [number, hint _ _ hbehind]
    simp only [bind, Except.bind, hdot _ _ hr, hexp _ _ hr]
    rw [if_neg (by simp)]
  by_cases h : k ≠ 0 ∨ e ≠ []
  · exact .inl fun neg n r hr ↦ by rw [hnumber neg n r hr, if_pos h]
  · refine .inr ⟨by_contra fun he ↦ h (.inr he), fun neg n r hr ↦ ?_⟩
    rw [hnumber neg n r hr, if_neg h]

theorem number_point {v k u j : Nat} {d : Bytes} (hd : Digits d) (he : Exponential e)
    (hint : ∀ n r, (∀ b ∈ r.head?, isDigit b = false) →
      integral ⟨n, w ++ r⟩ = .ok ⟨v, k, ⟨n + w.length, r⟩⟩)
    (hfrac : ∀ n r, (∀ b ∈ r.head?, isDigit b = false) →
      fraction v ⟨n, d ++ r⟩ = .ok ⟨u, j, ⟨n + d.length, r⟩⟩) (neg : Bool) (n : Nat)
    (hr : Stops r) :
    number neg ⟨n, w ++ (ascii '.' :: d ++ (e ++ r))⟩ =
      double neg u ((k : Int) - j) ⟨n + (w.length + (ascii '.' :: d).length), e ++ r⟩ := by
  have hdot : Cursor.nextIs ⟨n + w.length, ascii '.' :: d ++ (e ++ r)⟩ (· = ascii '.') = true :=
    rfl
  have hadv : Cursor.advance ⟨n + w.length, ascii '.' :: d ++ (e ++ r)⟩ 1 =
      ⟨n + w.length + 1, d ++ (e ++ r)⟩ := rfl
  have hbehind : ∀ b ∈ (e ++ r).head?, isDigit b = false := not_digit_behind .none he hr
  have hend : n + w.length + 1 + d.length = n + (w.length + (ascii '.' :: d).length) := by
    rw [List.length_cons]
    omega
  rw [number, hint _ _ (not_digit_behind (.digits hd) he hr)]
  simp only [bind, Except.bind, hdot, hadv, hfrac _ _ hbehind, ↓reduceIte, hend]

/-- What the digits of a number come to before its exponent is read: a significand and a power of
ten, or an integer. -/
theorem exists_number_eq (hw : Whole w) (hf : Fractional f) (he : Exponential e) :
    ∃ v x, v ≤ wordMax ∧ -(f.length : Int) ≤ x ∧ x ≤ w.length ∧
      ((∀ neg n r, Stops r → number neg ⟨n, w ++ f ++ (e ++ r)⟩ =
          double neg v x ⟨n + (w ++ f).length, e ++ r⟩) ∨
        e = [] ∧ ∀ neg n r, Stops r → number neg ⟨n, w ++ f ++ (e ++ r)⟩ =
          integer neg v ⟨n + (w ++ f).length, e ++ r⟩) := by
  obtain ⟨v, k, hv, hk, hint⟩ := exists_integral hw
  cases hf with
  | none =>
    rw [List.append_nil]
    exact ⟨v, k, hv, by simp, by omega, number_whole he hint⟩
  | @digits d hd =>
    obtain ⟨u, j, hu, hj, hfrac⟩ := exists_fraction hv hd
    refine ⟨u, (k : Int) - j, hu, ?_, by omega, .inl fun neg n r hr ↦ ?_⟩
    · rw [List.length_cons]
      omega
    · rw [List.append_assoc, List.length_append]
      exact number_point hd he hint hfrac neg n hr

theorem settled_number (neg : Bool) (ht : Numeral t) : Settled (number neg) t := by
  obtain @⟨w, f, e, hw, hf, he⟩ := ht
  rw [← List.append_assoc]
  obtain ⟨v, x, -, -, -, hdouble | ⟨rfl, hinteger⟩⟩ := exists_number_eq hw hf he
  · exact (settled_double neg v x he).behind fun n r hr ↦ hdouble neg n r hr
  · exact (settled_integer neg v).behind fun n r hr ↦ hinteger neg n r hr

/-- A number with or without a sign in front. -/
inductive Signed : Bytes → Prop
  | plain {t : Bytes} : Numeral t → Signed t
  | negative {t : Bytes} : Numeral t → Signed (ascii '-' :: t)

/-- The text of a number that the reader of doubles takes. -/
def ReadableNumber (number : String) : Prop :=
  Signed (ofText number) ∧ ∃ x, double64.document (ofText number) = .ok x

theorem exists_scalar_eq (expected : String) (ht : Signed t) :
    ∃ neg s u, t = s ++ u ∧ Numeral u ∧ ∀ n w r, Blanks w →
      scalar expected ⟨n, w ++ (t ++ r)⟩ = number neg ⟨n + (w.length + s.length), u ++ r⟩ := by
  cases ht with
  | plain ht =>
    refine ⟨false, [], t, rfl, ht, fun n w r hw ↦ ?_⟩
    obtain ⟨b, u, rfl, hb⟩ := ht.first
    exact scalar_digit expected hb hw
  | @negative u hu =>
    refine ⟨true, [ascii '-'], u, rfl, hu, fun n w r hw ↦ ?_⟩
    rw [scalar, List.cons_append, Cursor.skipBlank_append hw, Cursor.skipBlank_cons rfl]
    dsimp only [Cursor.next?_cons]
    rw [if_pos rfl]
    rfl

theorem reads_settled (ht : Signed t) : (∃ x, Reads double64 t x) ∨ ∀ n w r, Blanks w → Stops r →
    ∃ failure, double64.read ⟨n, w ++ (t ++ r)⟩ = .error failure := by
  obtain ⟨neg, s, u, rfl, hu, hscalar⟩ := exists_scalar_eq "f64" ht
  have hread : ∀ n w r, Blanks w → double64.read ⟨n, w ++ (s ++ u ++ r)⟩ =
      (number neg ⟨n + (w.length + s.length), u ++ r⟩).map fun p ↦ (p.1.toBinary64, p.2) := by
    intro n w r hw
    rw [← hscalar n w r hw]
    rfl
  rcases settled_number neg hu with ⟨y, hy⟩ | hfail
  · refine .inl ⟨y.toBinary64, fun n w r hw hr ↦ ?_⟩
    rw [hread n w r hw, hy _ r hr, List.length_append]
    simp only [Except.map]
    congr 3
    omega
  · refine .inr fun n w r hw hr ↦ ?_
    obtain ⟨failure, hfailure⟩ := hfail (n + (w.length + s.length)) r hr
    exact ⟨failure, by rw [hread n w r hw, hfailure]; rfl⟩

/-- A number that is taken where it stands alone is read as the same double wherever it stands. -/
theorem reads_of_document (ht : Signed t) {x : Binary64} (h : double64.document t = .ok x) :
    Reads double64 t x := by
  have hnil : Blanks [] := by simp [Blanks]
  rcases reads_settled ht with ⟨y, hy⟩ | hfail
  · have hdoc := hy.document hnil hnil
    rw [List.nil_append, List.append_nil, h] at hdoc
    exact Except.ok.inj hdoc ▸ hy
  · obtain ⟨failure, hfailure⟩ := hfail 0 [] [] hnil (by simp [Stops])
    rw [List.nil_append, List.append_nil] at hfailure
    rw [Reader.document, whole, hfailure] at h
    cases h

theorem Numeral.not_mem (ht : Numeral t) : ascii 'l' ∉ t := by
  have hdigits : ∀ {t : Bytes}, (∀ b ∈ t, isDigit b = true) → ascii 'l' ∉ t :=
    fun h hmem ↦ absurd (h _ hmem) (by decide)
  obtain ⟨hw, hf, he⟩ := ht
  simp only [List.mem_append, not_or]
  refine ⟨hdigits hw.digits_all.2, ?_, ?_⟩
  · cases hf with
    | none => simp
    | digits hd => exact List.not_mem_cons_of_ne_of_not_mem (by decide) (hdigits hd.2)
  · cases he with
    | none => simp
    | digits he hs hd =>
      simp only [List.mem_cons, List.mem_append, not_or]
      refine ⟨?_, ?_, hdigits hd.2⟩
      · rcases he with rfl | rfl <;> decide
      · rcases hs with rfl | rfl | rfl <;> decide

theorem Signed.not_mem (ht : Signed t) : ascii 'l' ∉ t := by
  cases ht with
  | plain ht => exact ht.not_mem
  | negative ht => exact List.not_mem_cons_of_ne_of_not_mem (by decide) ht.not_mem

end QueuedFiles.Json
