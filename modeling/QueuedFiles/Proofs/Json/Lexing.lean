import Mathlib.Data.List.TakeWhile
import Mathlib.Tactic.FinCases
import QueuedFiles.Proofs.Json.Grammar

/-!
What readers make of the words of a document. Every lemma has the same form: behind a text, a reader
stands as far on as the text is long.
-/

namespace QueuedFiles.Json

open Bytes (ascii)

variable {n : Nat} {b : UInt8} {t r w : Bytes}

theorem ne_ascii {p : UInt8 → Bool} (h : p b = true) (c : Char) (hc : p (ascii c) = false) :
    b ≠ ascii c := by
  rintro rfl
  rw [h] at hc
  cases hc

namespace Cursor

theorem next?_cons : next? ⟨n, b :: r⟩ = some (b, ⟨n + 1, r⟩) := rfl

theorem advance_within {k : Nat} (hk : k ≤ t.length) :
    advance ⟨n, t ++ r⟩ k = ⟨n + k, t.drop k ++ r⟩ := by
  rw [advance, List.drop_append_of_le_length hk]

theorem advance_append : advance ⟨n, t ++ r⟩ t.length = ⟨n + t.length, r⟩ := by
  simp [advance]

theorem skipWhile_append {p : UInt8 → Bool} (ht : ∀ b ∈ t, p b = true)
    (hr : ∀ b ∈ r.head?, p b = false) : skipWhile ⟨n, t ++ r⟩ p = ⟨n + t.length, r⟩ := by
  have hnone : r.takeWhile p = [] := by
    cases r with
    | nil => rfl
    | cons b r => exact List.takeWhile_cons_of_neg (by simp [hr b rfl])
  rw [skipWhile, List.takeWhile_append_of_pos ht, hnone, List.append_nil, advance_append]

theorem skipBlank_append (hw : Blanks w) :
    skipBlank ⟨n, w ++ r⟩ = skipBlank ⟨n + w.length, r⟩ := by
  simp only [skipBlank, skipWhile, List.takeWhile_append_of_pos hw, List.length_append, advance,
    List.drop_append, Nat.add_assoc]
  simp

theorem skipBlank_cons (hb : isBlank b = false) : skipBlank ⟨n, b :: r⟩ = ⟨n, b :: r⟩ := by
  rw [skipBlank, skipWhile, List.takeWhile_cons_of_neg (by simp [hb])]
  rfl

theorem skipBlank_nil : skipBlank ⟨n, []⟩ = ⟨n, []⟩ := rfl

end Cursor

theorem word_append (ws : List Char) :
    word ws ⟨n, ws.map ascii ++ r⟩ = .ok ⟨n + ws.length, r⟩ := by
  induction ws generalizing n with
  | nil => rfl
  | cons c ws ih =>
    rw [List.map_cons, List.cons_append, word, Cursor.next?_cons]
    dsimp only
    rw [if_pos rfl, ih, List.length_cons, Nat.add_assoc, Nat.add_comm 1]

/-! Numbers that are passed over. -/

theorem mem_stoppers (h : Cursor.isBlank b = true) : b ∈ stoppers := by
  simp only [Cursor.isBlank, Bool.or_eq_true, decide_eq_true_eq] at h
  rcases h with ((rfl | rfl) | rfl) | rfl <;> decide

theorem not_blank_of_digit (h : isDigit b = true) : Cursor.isBlank b = false := by
  by_contra hb
  have hno : stoppers.any isDigit = false := by decide
  exact List.any_eq_false.1 hno b (mem_stoppers (by simpa using hb)) h

theorem Stops.head (hr : Stops r) {p : UInt8 → Bool} (hp : stoppers.any p = false) :
    ∀ b ∈ r.head?, p b = false :=
  fun b hb ↦ Bool.eq_false_iff.2 (List.any_eq_false.1 hp b (hr b hb))

theorem Stops.digit (hr : Stops r) : ∀ b ∈ r.head?, isDigit b = false :=
  hr.head (by decide)

theorem nextIs_eq_false {p : UInt8 → Bool} (hr : ∀ b ∈ r.head?, p b = false) :
    Cursor.nextIs ⟨n, r⟩ p = false := by
  cases r with
  | nil => rfl
  | cons b r => exact hr b rfl

/-- A sign is stepped over, if there is one. -/
theorem skip_sign {p : UInt8 → Bool} {d : UInt8} {sign : Bytes}
    (hs : sign = [] ∨ sign = [ascii '+'] ∨ sign = [ascii '-'])
    (hplus : p (ascii '+') = true) (hminus : p (ascii '-') = true) (hd : p d = false) :
    (if (Cursor.mk n (sign ++ d :: r)).nextIs p then (Cursor.mk n (sign ++ d :: r)).advance 1
      else ⟨n, sign ++ d :: r⟩) = ⟨n + sign.length, d :: r⟩ := by
  rcases hs with rfl | rfl | rfl
  · exact if_neg (Bool.eq_false_iff.1 hd)
  · exact if_pos hplus
  · exact if_pos hminus

theorem skipExponent_append {sign : Bytes}
    (hs : sign = [] ∨ sign = [ascii '+'] ∨ sign = [ascii '-']) (ht : Digits t)
    (hr : ∀ b ∈ r.head?, isDigit b = false) :
    skipExponent ⟨n, sign ++ (t ++ r)⟩ = .ok ⟨n + (sign.length + t.length), r⟩ := by
  obtain ⟨hne, hd⟩ := ht
  obtain ⟨d, ds, rfl⟩ := List.exists_cons_of_ne_nil hne
  have hdigit : isDigit d = true := hd d (List.mem_cons_self ..)
  have hds : ∀ b ∈ ds, isDigit b = true := fun b hb ↦ hd b (List.mem_cons_of_mem _ hb)
  have hno : (decide (d = ascii '+') || decide (d = ascii '-')) = false := by
    simp [ne_ascii hdigit '+' rfl, ne_ascii hdigit '-' rfl]
  rw [List.cons_append, skipExponent, skip_sign hs rfl rfl hno]
  dsimp only [Cursor.next?_cons]
  rw [if_pos hdigit, Cursor.skipWhile_append hds hr, List.length_cons]
  congr 2
  omega

theorem skipOptionalExponent_append (ht : Exponential t) (hr : Stops r) :
    skipOptionalExponent ⟨n, t ++ r⟩ = .ok ⟨n + t.length, r⟩ := by
  cases ht with
  | none =>
    have he : Cursor.nextIs ⟨n, r⟩ (fun b ↦ b = ascii 'e' || b = ascii 'E') = false :=
      nextIs_eq_false (hr.head (by decide))
    rw [List.nil_append, skipOptionalExponent, if_neg (by simp [he])]
    rfl
  | @digits e sign t he hs hd =>
    have hnext : Cursor.nextIs ⟨n, e :: (sign ++ t) ++ r⟩ (fun b ↦ b = ascii 'e' || b = ascii 'E') =
        true := by
      simpa [Cursor.nextIs] using he
    rw [skipOptionalExponent, if_pos hnext]
    have hadv : Cursor.advance ⟨n, e :: (sign ++ t) ++ r⟩ 1 = ⟨n + 1, sign ++ (t ++ r)⟩ := by
      simp [Cursor.advance]
    rw [hadv, skipExponent_append hs hd hr.digit]
    simp only [List.length_cons, List.length_append]
    congr 2
    omega

/-- A fraction or an exponent does not start with a digit, and neither does what follows. -/
theorem not_digit_behind {f e : Bytes} (hf : Fractional f) (he : Exponential e) (hr : Stops r) :
    ∀ b ∈ (f ++ (e ++ r)).head?, isDigit b = false := by
  cases hf with
  | digits => simp [isDigit, ascii]
  | none =>
    cases he with
    | none => exact hr.digit
    | digits he =>
      rcases he with rfl | rfl
      · simp [isDigit, ascii]
      · simp [isDigit, ascii]

/-- What is passed over of a number behind its whole part. -/
def skipFraction (c : Cursor) : Except Failure Cursor :=
  if c.nextIs (· = ascii '.') then
    if (c.advance 1).nextIs isDigit then skipOptionalExponent ((c.advance 1).skipWhile isDigit)
    else failAhead .malformedNumber (c.advance 1)
  else skipOptionalExponent c

theorem skipFraction_append {f e : Bytes} (hf : Fractional f) (he : Exponential e) (hr : Stops r) :
    skipFraction ⟨n, f ++ (e ++ r)⟩ = .ok ⟨n + (f.length + e.length), r⟩ := by
  cases hf with
  | none =>
    have hdot : Cursor.nextIs ⟨n, e ++ r⟩ (· = ascii '.') = false := by
      cases he with
      | none => exact nextIs_eq_false (hr.head (by decide))
      | digits he => rcases he with rfl | rfl <;> rfl
    rw [List.nil_append, skipFraction, if_neg (by simp [hdot]), skipOptionalExponent_append he hr]
    simp
  | @digits d hd =>
    have hadv : Cursor.advance ⟨n, ascii '.' :: d ++ (e ++ r)⟩ 1 = ⟨n + 1, d ++ (e ++ r)⟩ := by
      simp [Cursor.advance]
    have hfirst : Cursor.nextIs ⟨n + 1, d ++ (e ++ r)⟩ isDigit = true := by
      obtain ⟨hne, hall⟩ := hd
      obtain ⟨x, xs, rfl⟩ := List.exists_cons_of_ne_nil hne
      exact hall x (List.mem_cons_self ..)
    have hskip : Cursor.skipWhile ⟨n + 1, d ++ (e ++ r)⟩ isDigit = ⟨n + 1 + d.length, e ++ r⟩ :=
      Cursor.skipWhile_append hd.2 (not_digit_behind .none he hr)
    rw [skipFraction, if_pos (by simp [Cursor.nextIs]), hadv, if_pos hfirst, hskip,
      skipOptionalExponent_append he hr, List.length_cons]
    congr 2
    omega

theorem skipNumber_append (ht : Numeral t) (hr : Stops r) :
    skipNumber ⟨n, t ++ r⟩ = .ok ⟨n + t.length, r⟩ := by
  obtain @⟨w, f, e, hw, hf, he⟩ := ht
  have hbehind := not_digit_behind hf he hr
  rw [List.append_assoc, List.append_assoc, skipNumber]
  cases hw with
  | zero =>
    have hnext : Cursor.nextIs ⟨n + 1, f ++ (e ++ r)⟩ isDigit = false := nextIs_eq_false hbehind
    rw [List.cons_append, Cursor.next?_cons]
    dsimp only [List.nil_append]
    rw [if_neg (by simp [hnext]), if_neg (by decide), if_pos rfl]
    refine (skipFraction_append hf he hr).trans ?_
    simp only [List.length_append, List.length_cons, List.length_nil]
    congr 2
    omega
  | @digits b t hb hne ht =>
    rw [List.cons_append, Cursor.next?_cons]
    dsimp only
    rw [if_neg (fun h ↦ hne h.1), if_neg (by simp [hb]), if_neg hne,
      Cursor.skipWhile_append ht hbehind]
    refine (skipFraction_append hf he hr).trans ?_
    simp only [List.length_append, List.length_cons]
    congr 2
    omega

/-! Strings. -/

theorem fourHex_append {h : Bytes} {m : Nat} (hh : Hex h m) :
    fourHex ⟨n, h ++ r⟩ = .ok (m, ⟨n + 4, r⟩) := by
  obtain ⟨hlen, ds, hds, hm⟩ := hh
  have htake : (h ++ r).take 4 = h := by rw [← hlen, List.take_left]
  have hadv : Cursor.advance ⟨n, h ++ r⟩ 4 = ⟨n + 4, r⟩ := by
    rw [← hlen, Cursor.advance_append]
  rw [fourHex, if_neg (by simp [hlen]), htake, hds, hadv]
  dsimp only
  rw [hm]

theorem escape_short {e : Char × UInt8} (he : e ∈ shortEscapes) (care : Care) :
    escape care ⟨n, ascii e.1 :: r⟩ = .ok ([e.2], ⟨n + 1, r⟩) := by
  fin_cases he <;> rfl

theorem textBody_quote (care : Care) (soFar : Bytes) :
    textBody care soFar ⟨n, ascii '"' :: r⟩ = .ok (soFar.reverse, ⟨n + 1, r⟩) := by
  rw [textBody]
  rfl

theorem textBody_plain (hb : Plain b) (care : Care) (soFar : Bytes) :
    textBody care soFar ⟨n, b :: r⟩ = textBody care (b :: soFar) ⟨n + 1, r⟩ := by
  rw [textBody]
  dsimp only [Cursor.next?_cons]
  rw [if_neg hb.1, if_neg hb.2.1, if_neg hb.2.2]

theorem textBody_escape {care : Care} {bs : Bytes} {e : Cursor}
    (he : escape care ⟨n + 1, r⟩ = .ok (bs, e)) (soFar : Bytes) :
    textBody care soFar ⟨n, ascii '\\' :: r⟩ = textBody care (bs.reverse ++ soFar) e := by
  rw [textBody]
  dsimp only [Cursor.next?_cons]
  rw [if_neg (by decide), if_pos rfl]
  split
  · next h => simp [he] at h
  · next h =>
    obtain ⟨rfl, rfl⟩ : _ = bs ∧ _ = e := by simpa [h] using he
    rfl

theorem codePoint_skim {h : Bytes} {m : Nat} (hh : Hex h m) :
    codePoint .skim ⟨n, h ++ r⟩ = .ok ([], ⟨n + 4, r⟩) := by
  rw [codePoint, fourHex_append hh]
  rfl

theorem codePoint_unit {h : Bytes} {m : Nat} (hh : Hex h m) (hlead : isLeading m = false)
    (htrail : isTrailing m = false) :
    codePoint .decode ⟨n, h ++ r⟩ = .ok (utf8 m, ⟨n + 4, r⟩) := by
  rw [codePoint, fourHex_append hh]
  simp [bind, Except.bind, hlead, htrail]

theorem codePoint_pair {h l : Bytes} {high low : Nat} (hh : Hex h high)
    (hlead : isLeading high = true) (hl : Hex l low) (htrail : isTrailing low = true) :
    codePoint .decode ⟨n, h ++ ascii '\\' :: ascii 'u' :: (l ++ r)⟩ =
      .ok (utf8 ((high - 0xd800) * 0x400 + (low - 0xdc00) + 0x10000), ⟨n + 10, r⟩) := by
  have hnot : isTrailing high = false := by
    simp only [isLeading, isTrailing, Bool.and_eq_true, decide_eq_true_eq, Bool.and_eq_false_iff,
      decide_eq_false_iff_not] at hlead ⊢
    omega
  have hslash : pairByte '\\' ⟨n + 4, ascii '\\' :: ascii 'u' :: (l ++ r)⟩ =
    .ok ⟨n + 5, ascii 'u' :: (l ++ r)⟩ := rfl
  have hu : pairByte 'u' ⟨n + 5, ascii 'u' :: (l ++ r)⟩ = .ok ⟨n + 6, l ++ r⟩ := rfl
  rw [codePoint, fourHex_append hh]
  simp [bind, Except.bind, hnot, hlead, hslash, hu, fourHex_append hl, htrail]

theorem textBody_skim (ht : Quoted t) (soFar : Bytes) {m : Nat} (hm : n + t.length + 1 = m) :
    ∃ bs, textBody .skim soFar ⟨n, t ++ ascii '"' :: r⟩ = .ok (bs, ⟨m, r⟩) := by
  subst hm
  induction ht generalizing n soFar with
  | nil => exact ⟨_, textBody_quote ..⟩
  | @plain b t hb _ ih =>
    obtain ⟨bs, h⟩ := @ih (n + 1) (b :: soFar)
    refine ⟨bs, ?_⟩
    rw [List.cons_append, textBody_plain hb, h, List.length_cons, Nat.add_right_comm n 1,
      Nat.add_assoc n]
  | @short e t he _ ih =>
    obtain ⟨bs, h⟩ := @ih (n + 2) ([e.2].reverse ++ soFar)
    refine ⟨bs, ?_⟩
    rw [List.cons_append, List.cons_append, textBody_escape (escape_short he _), h, List.length_cons,
      List.length_cons, Nat.add_right_comm n 2, Nat.add_assoc n]
  | @unit u t v hu _ ih =>
    obtain ⟨bs, h⟩ := @ih (n + 6) ([].reverse ++ soFar)
    have he : escape .skim ⟨n + 1, ascii 'u' :: (u ++ (t ++ ascii '"' :: r))⟩ =
        .ok ([], ⟨n + 6, t ++ ascii '"' :: r⟩) := codePoint_skim hu
    refine ⟨bs, ?_⟩
    rw [List.cons_append, List.cons_append, List.append_assoc, textBody_escape he, h]
    simp only [List.length_cons, List.length_append, hu.1]
    congr 3
    omega

theorem skipText_append (ht : Quoted t) :
    skipText ⟨n, t ++ ascii '"' :: r⟩ = .ok ⟨n + t.length + 1, r⟩ := by
  obtain ⟨bs, hbs⟩ := textBody_skim (r := r) ht [] rfl
  rw [skipText, hbs]
  rfl

theorem textBody_decode {raw key : Bytes} (h : Spells raw key) (soFar : Bytes) :
    textBody .decode soFar ⟨n, raw ++ ascii '"' :: r⟩ =
      .ok (soFar.reverse ++ key, ⟨n + raw.length + 1, r⟩) := by
  induction h generalizing n soFar with
  | nil => rw [List.nil_append, textBody_quote, List.append_nil, List.length_nil, Nat.add_zero]
  | plain hb _ ih =>
    rw [List.cons_append, textBody_plain hb, ih, List.reverse_cons, List.append_assoc,
      List.length_cons, Nat.add_right_comm n 1, Nat.add_assoc n]
    rfl
  | short he _ ih =>
    rw [List.cons_append, List.cons_append, textBody_escape (escape_short he _), ih,
      List.length_cons, List.length_cons, Nat.add_right_comm n 2, Nat.add_assoc n]
    simp
  | @unit u raw key v hu hlead htrail _ ih =>
    have he : escape .decode ⟨n + 1, ascii 'u' :: (u ++ (raw ++ ascii '"' :: r))⟩ =
        .ok (utf8 v, ⟨n + 6, raw ++ ascii '"' :: r⟩) := codePoint_unit hu hlead htrail
    rw [List.cons_append, List.cons_append, List.append_assoc, textBody_escape he, ih]
    simp only [List.reverse_append, List.reverse_reverse, List.append_assoc, List.length_cons,
      List.length_append, hu.1]
    congr 3
    omega
  | @pair u l raw key high low hu hlead hl htrail _ ih =>
    have he : escape .decode ⟨n + 1, ascii 'u' ::
        (u ++ ascii '\\' :: ascii 'u' :: (l ++ (raw ++ ascii '"' :: r)))⟩ =
        .ok (utf8 ((high - 0xd800) * 0x400 + (low - 0xdc00) + 0x10000),
          ⟨n + 12, raw ++ ascii '"' :: r⟩) := codePoint_pair hu hlead hl htrail
    simp only [List.cons_append, List.append_assoc]
    rw [textBody_escape he, ih]
    simp only [List.reverse_append, List.reverse_reverse, List.append_assoc, List.length_cons,
      List.length_append, hu.1, hl.1]
    congr 3
    omega

theorem text_append {raw key : Bytes} (h : Spells raw key) :
    text ⟨n, raw ++ ascii '"' :: r⟩ = .ok (key, ⟨n + raw.length + 1, r⟩) :=
  textBody_decode h []

end QueuedFiles.Json
