import QueuedFiles.Proofs.Json.Lexing

/-!
Values of every depth are passed over: whatever brackets are open around a value, behind it the reader
goes on inside the innermost of them.
-/

namespace QueuedFiles.Json

open Bytes (ascii)

variable {n : Nat} {b : UInt8} {t r w : Bytes} {k : Bracket} {ks : List Bracket}

theorem Stops.append (hw : Blanks w) (hr : Stops r) : Stops (w ++ r) := by
  cases w with
  | nil => exact hr
  | cons b w =>
    intro x hx
    cases hx
    exact mem_stoppers (hw b (List.mem_cons_self ..))

theorem stops_cons (hb : b ∈ stoppers) : Stops (b :: r) := by
  intro x hx
  cases hx
  exact hb

theorem stops_closing : Stops (k.closing :: r) :=
  stops_cons (by cases k <;> decide)

theorem Blanks.append (hw : Blanks w) (ht : Blanks t) : Blanks (w ++ t) := by
  intro b hb
  rcases List.mem_append.1 hb with h | h
  · exact hw b h
  · exact ht b h

theorem colon_append (hw : Blanks w) :
    colon ⟨n, w ++ ascii ':' :: r⟩ = .ok ⟨n + (w.length + 1), r⟩ := by
  rw [colon, Cursor.skipBlank_append hw, Cursor.skipBlank_cons rfl]
  rfl

theorem skipKey_append {raw gap : Bytes} (hw : Blanks w) (hraw : Quoted raw) (hgap : Blanks gap) :
    skipKey ⟨n, w ++ ascii '"' :: (raw ++ ascii '"' :: (gap ++ ascii ':' :: r))⟩ =
      .ok ⟨n + (w.length + (raw.length + (gap.length + 3))), r⟩ := by
  rw [skipKey, Cursor.skipBlank_append hw, Cursor.skipBlank_cons rfl]
  dsimp only [Cursor.next?_cons]
  rw [if_pos rfl, skipText_append hraw]
  refine (colon_append hgap).trans ?_
  congr 2
  omega

/-! A value and its first byte. -/

theorem Whole.first (h : Whole t) : ∃ b u, t = b :: u ∧ isDigit b = true := by
  cases h with
  | zero => exact ⟨_, _, rfl, rfl⟩
  | digits hb _ _ => exact ⟨_, _, rfl, hb⟩

theorem Numeral.first (h : Numeral t) : ∃ b u, t = b :: u ∧ isDigit b = true := by
  obtain @⟨w, f, e, hw, -, -⟩ := h
  obtain ⟨b, u, rfl, hb⟩ := hw.first
  exact ⟨b, u ++ (f ++ e), rfl, hb⟩

theorem Value.first (h : Value t) :
    ∃ b u, t = b :: u ∧ Cursor.isBlank b = false ∧ ∀ k : Bracket, b ≠ k.closing := by
  cases h with
  | word hw => fin_cases hw <;> exact ⟨_, _, rfl, rfl, by rintro (_ | _) <;> decide⟩
  | number ht =>
    obtain ⟨b, u, rfl, hb⟩ := ht.first
    refine ⟨b, u, rfl, not_blank_of_digit hb, ?_⟩
    rintro (_ | _)
    · exact ne_ascii hb ']' rfl
    · exact ne_ascii hb '\x7d' rfl
  | negative => exact ⟨_, _, rfl, rfl, by rintro (_ | _) <;> decide⟩
  | text => exact ⟨_, _, rfl, rfl, by rintro (_ | _) <;> decide⟩
  | @bracket k =>
    refine ⟨_, _, rfl, ?_⟩
    cases k <;> exact ⟨rfl, by rintro (_ | _) <;> decide⟩

theorem skipStart_number (ht : Numeral t) (hr : Stops r) :
    skipStart ⟨n, t ++ r⟩ = .ok (none, ⟨n + t.length, r⟩) := by
  have hskip := skipNumber_append (n := n) ht hr
  obtain ⟨b, u, rfl, hb⟩ := ht.first
  rw [List.cons_append] at hskip ⊢
  rw [skipStart, Cursor.next?_cons]
  dsimp only
  rw [if_neg (ne_ascii hb 'n' rfl), if_neg (ne_ascii hb 't' rfl), if_neg (ne_ascii hb 'f' rfl),
    if_neg (ne_ascii hb '-' rfl), if_pos hb, hskip]
  rfl

theorem skipStart_opening : skipStart ⟨n, k.opening :: r⟩ = .ok (some k, ⟨n + 1, r⟩) := by
  cases k <;> rfl

/-! Single steps of `skipOpen`. -/

theorem skipOpen_scalar {c d : Cursor} (h : skipStart c.skipBlank = .ok (none, d)) :
    skipOpen .value ks c = skipOpen (.inside true) ks d := by
  rw [skipOpen]
  split
  · next hs => simp [hs] at h
  · next hs => simp [hs] at h
  · next hs =>
    rw [hs] at h
    cases h
    rfl

theorem skipOpen_opening {c d : Cursor} (h : skipStart c.skipBlank = .ok (some k, d)) :
    skipOpen .value ks c = skipOpen (.inside false) (k :: ks) d := by
  rw [skipOpen]
  split
  · next hs => simp [hs] at h
  · next hs =>
    rw [hs] at h
    cases h
    rfl
  · next hs => simp [hs] at h

theorem skipOpen_closing (hw : Blanks w) (comma : Bool) :
    skipOpen (.inside comma) (k :: ks) ⟨n, w ++ k.closing :: r⟩ =
      skipOpen (.inside true) ks ⟨n + (w.length + 1), r⟩ := by
  have hc : Cursor.skipBlank ⟨n, w ++ k.closing :: r⟩ = ⟨n + w.length, k.closing :: r⟩ := by
    rw [Cursor.skipBlank_append hw, Cursor.skipBlank_cons (by cases k <;> rfl)]
  rw [skipOpen]
  split
  · next hn => simp [hc, Cursor.next?] at hn
  · next hn =>
    simp only [hc, Cursor.next?_cons, Option.some.injEq, Prod.mk.injEq] at hn
    obtain ⟨rfl, rfl⟩ := hn
    rw [if_pos rfl, Nat.add_assoc]

/-- Behind an opening bracket, in front of the first value. -/
theorem skipOpen_first {c d : Cursor} (hc : c.skipBlank.rest = b :: t) (hb : b ≠ k.closing)
    (h : k.beforeValue c.skipBlank = .ok d) :
    skipOpen (.inside false) (k :: ks) c = skipOpen .value (k :: ks) d := by
  conv_lhs => rw [skipOpen]
  split
  · next hn => simp [Cursor.next?, hc] at hn
  · next hn =>
    simp only [Cursor.next?, hc, Option.some.injEq, Prod.mk.injEq] at hn
    obtain ⟨rfl, rfl⟩ := hn
    rw [if_neg hb, if_neg (by simp)]
    split
    · next hs => simp [h] at hs
    · next hs =>
      simp only [cond_false, h, Except.ok.injEq] at hs
      rw [hs]

theorem skipOpen_comma {d : Cursor} (hw : Blanks w)
    (h : k.beforeValue ⟨n + (w.length + 1), r⟩ = .ok d) :
    skipOpen (.inside true) (k :: ks) ⟨n, w ++ ascii ',' :: r⟩ = skipOpen .value (k :: ks) d := by
  have hc : Cursor.skipBlank ⟨n, w ++ ascii ',' :: r⟩ = ⟨n + w.length, ascii ',' :: r⟩ := by
    rw [Cursor.skipBlank_append hw, Cursor.skipBlank_cons rfl]
  conv_lhs => rw [skipOpen]
  split
  · next hn => simp [hc, Cursor.next?] at hn
  · next hn =>
    simp only [hc, Cursor.next?_cons, Option.some.injEq, Prod.mk.injEq] at hn
    obtain ⟨rfl, rfl⟩ := hn
    rw [if_neg (by cases k <;> decide), if_neg (by simp)]
    split
    · next hs => simp [Nat.add_assoc, h] at hs
    · next hs =>
      simp only [cond_true, Nat.add_assoc, h, Except.ok.injEq] at hs
      rw [hs]

/-- A reader of values that goes on behind `t`, whatever is open around it. -/
def PassedOver (t : Bytes) : Prop :=
  ∀ (ks : List Bracket) (n : Nat) (w r : Bytes), Blanks w → Stops r →
    skipOpen .value ks ⟨n, w ++ (t ++ r)⟩ =
      skipOpen (.inside true) ks ⟨n + (w.length + t.length), r⟩

theorem passedOver_scalar
    (h : ∀ n r, Stops r → skipStart ⟨n, t ++ r⟩ = .ok (none, ⟨n + t.length, r⟩))
    (hb : ∃ b u, t = b :: u ∧ Cursor.isBlank b = false) : PassedOver t := by
  intro ks n w r hw hr
  obtain ⟨b, u, rfl, hb⟩ := hb
  refine skipOpen_scalar ?_
  rw [Cursor.skipBlank_append hw, List.cons_append, Cursor.skipBlank_cons hb, ← List.cons_append,
    h _ r hr, Nat.add_assoc]

/-- What stands in front of a value is passed over but for blanks. -/
theorem Bracket.Head.beforeValue {h : Bytes} (hh : k.Head h) :
    ∃ j lead, Blanks lead ∧ j + lead.length = h.length ∧
      ∀ n r, k.beforeValue ⟨n, h ++ r⟩ = .ok ⟨n + j, lead ++ r⟩ := by
  cases hh with
  | blank hb => exact ⟨0, h, hb, Nat.zero_add _, fun _ _ ↦ rfl⟩
  | @key before raw gap lead hbefore hraw hgap hlead =>
    refine ⟨before.length + (raw.length + (gap.length + 3)), lead, hlead, ?_, fun n r ↦ ?_⟩
    · simp only [List.length_append, List.length_cons]
      omega
    · simp only [List.append_assoc, List.cons_append]
      exact skipKey_append hbefore hraw hgap

theorem Bracket.Head.first {h : Bytes} (hh : k.Head h) (hb : Cursor.isBlank b = false)
    (hk : b ≠ k.closing) :
    ∃ j lead x u, Blanks lead ∧ j + lead.length = h.length ∧ x ≠ k.closing ∧
      (Cursor.skipBlank ⟨n, h ++ b :: t⟩).rest = x :: u ∧
      k.beforeValue (Cursor.skipBlank ⟨n, h ++ b :: t⟩) = .ok ⟨n + j, lead ++ b :: t⟩ := by
  cases hh with
  | blank hblank =>
    have hskip : Cursor.skipBlank ⟨n, h ++ b :: t⟩ = ⟨n + h.length, b :: t⟩ := by
      rw [Cursor.skipBlank_append hblank, Cursor.skipBlank_cons hb]
    exact ⟨h.length, [], b, t, by simp [Blanks], rfl, hk, by rw [hskip], by rw [hskip]; rfl⟩
  | @key before raw gap lead hbefore hraw hgap hlead =>
    have hskip : Cursor.skipBlank ⟨n, before ++ ascii '"' :: (raw ++ ascii '"' :: (gap ++
        ascii ':' :: lead)) ++ b :: t⟩ = ⟨n + before.length, ascii '"' :: (raw ++ ascii '"' :: (gap ++
        ascii ':' :: (lead ++ b :: t)))⟩ := by
      rw [List.append_assoc, Cursor.skipBlank_append hbefore, List.cons_append,
        Cursor.skipBlank_cons rfl]
      simp
    refine ⟨before.length + (raw.length + (gap.length + 3)), lead, ascii '"', _, hlead, ?_,
      by decide, by rw [hskip], ?_⟩
    · simp only [List.length_append, List.length_cons]
      omega
    · have hkey := skipKey_append (n := n + before.length) (w := []) (r := lead ++ b :: t)
        (by simp [Blanks]) hraw hgap
      rw [hskip]
      refine hkey.trans ?_
      congr 2
      simp only [List.length_nil]
      omega

variable {ps : List Part}

theorem stops_parts {tail : Bytes} (htail : Blanks tail) :
    Stops ((ps.map Part.text).flatMap (ascii ',' :: ·) ++ (tail ++ k.closing :: r)) := by
  cases ps with
  | nil => exact Stops.append (w := tail) htail stops_closing
  | cons p ps => exact stops_cons (by decide)

/-- The values behind commas, and the closing bracket. -/
theorem skipOpen_parts (hhead : ∀ p ∈ ps, k.Head p.head ∧ Blanks p.after)
    (hpass : ∀ p ∈ ps, PassedOver p.value) {tail : Bytes} (htail : Blanks tail) (hw : Blanks w) :
    skipOpen (.inside true) (k :: ks)
      ⟨n, w ++ ((ps.map Part.text).flatMap (ascii ',' :: ·) ++ (tail ++ k.closing :: r))⟩ =
    skipOpen (.inside true) ks ⟨n + (w.length +
      (((ps.map Part.text).flatMap (ascii ',' :: ·)).length + (tail.length + 1))), r⟩ := by
  induction ps generalizing n w with
  | nil =>
    rw [List.map_nil, List.flatMap_nil, List.nil_append, ← List.append_assoc,
      skipOpen_closing (hw.append htail)]
    simp [Nat.add_assoc]
  | cons p ps ih =>
    obtain ⟨hp, hafter⟩ := hhead p (List.mem_cons_self ..)
    obtain ⟨j, lead, hlead, hj, hbefore⟩ := hp.beforeValue
    have hrest := ih (n := n + (w.length + 1) + j + (lead.length + p.value.length))
      (fun q hq ↦ hhead q (List.mem_cons_of_mem _ hq))
      (fun q hq ↦ hpass q (List.mem_cons_of_mem _ hq)) hafter
    have hstops : Stops (p.after ++ ((ps.map Part.text).flatMap (ascii ',' :: ·) ++
        (tail ++ k.closing :: r))) := .append hafter (stops_parts htail)
    have hvalue := hpass p (List.mem_cons_self ..) (k :: ks) (n + (w.length + 1) + j) lead _ hlead
      hstops
    simp only [List.map_cons, List.flatMap_cons, Part.text, List.cons_append, List.append_assoc]
    rw [skipOpen_comma hw (hbefore ..), hvalue, hrest]
    simp only [List.length_cons, List.length_append, ← hj]
    congr 2
    omega

/-- What stands between two brackets, and the closing one. -/
theorem skipOpen_joined (hhead : ∀ p ∈ ps, k.Head p.head ∧ Blanks p.after)
    (hvalue : ∀ p ∈ ps, Value p.value) (hpass : ∀ p ∈ ps, PassedOver p.value) {tail : Bytes}
    (htail : Blanks tail) :
    skipOpen (.inside false) (k :: ks)
      ⟨n, joined (ps.map Part.text) ++ (tail ++ k.closing :: r)⟩ =
    skipOpen (.inside true) ks
      ⟨n + ((joined (ps.map Part.text)).length + (tail.length + 1)), r⟩ := by
  cases ps with
  | nil =>
    simp only [List.map_nil, joined, List.nil_append, List.length_nil, Nat.zero_add]
    exact skipOpen_closing htail false
  | cons p ps =>
    obtain ⟨hp, hafter⟩ := hhead p (List.mem_cons_self ..)
    obtain ⟨b, u, hv, hb, hne⟩ := (hvalue p (List.mem_cons_self ..)).first
    -- What stands behind the first value: its blanks, the other values and the closing bracket.
    let behind := p.after ++ ((ps.map Part.text).flatMap (ascii ',' :: ·) ++
      (tail ++ k.closing :: r))
    have hstops : Stops behind := .append hafter (stops_parts htail)
    obtain ⟨j, lead, x, y, hlead, hj, hx, hrest, hbefore⟩ :=
      hp.first (n := n) (t := u ++ behind) hb (hne k)
    have htext : joined ((p :: ps).map Part.text) ++ (tail ++ k.closing :: r) =
        p.head ++ b :: (u ++ behind) := by
      simp [joined, Part.text, hv, behind]
    rw [htext, skipOpen_first hrest hx hbefore, ← List.cons_append, ← hv,
      hpass p (List.mem_cons_self ..) _ _ _ _ hlead hstops,
      skipOpen_parts (fun q hq ↦ hhead q (List.mem_cons_of_mem _ hq))
        (fun q hq ↦ hpass q (List.mem_cons_of_mem _ hq)) htail hafter]
    simp only [List.map_cons, joined, Part.text, List.length_append, ← hj]
    congr 2
    omega

theorem passedOver_bracket (hhead : ∀ p ∈ ps, k.Head p.head ∧ Blanks p.after)
    (hvalue : ∀ p ∈ ps, Value p.value) (hpass : ∀ p ∈ ps, PassedOver p.value) {tail : Bytes}
    (htail : Blanks tail) :
    PassedOver (k.opening :: (joined (ps.map Part.text) ++ (tail ++ [k.closing]))) := by
  intro ks n w r hw _
  have hopen : skipStart (Cursor.skipBlank
      ⟨n, w ++ (k.opening :: (joined (ps.map Part.text) ++ (tail ++ [k.closing])) ++ r)⟩) =
      .ok (some k, ⟨n + (w.length + 1),
        joined (ps.map Part.text) ++ (tail ++ k.closing :: r)⟩) := by
    rw [Cursor.skipBlank_append hw, List.cons_append,
      Cursor.skipBlank_cons (by cases k <;> rfl), skipStart_opening]
    simp [Nat.add_assoc]
  rw [skipOpen_opening hopen, skipOpen_joined hhead hvalue hpass htail]
  congr 2
  simp only [List.length_cons, List.length_append, List.length_nil]
  omega

theorem Value.starts (ht : Value t) : ∃ b u, t = b :: u ∧ Cursor.isBlank b = false := by
  obtain ⟨b, u, h, hb, -⟩ := ht.first
  exact ⟨b, u, h, hb⟩

theorem Value.passedOver (ht : Value t) : PassedOver t := by
  have hstarts := ht.starts
  induction ht with
  | word hx =>
    refine passedOver_scalar (fun n r _ ↦ ?_) hstarts
    fin_cases hx
    · exact congrArg (Except.map (none, ·)) (word_append ['u', 'l', 'l'])
    · exact congrArg (Except.map (none, ·)) (word_append ['r', 'u', 'e'])
    · exact congrArg (Except.map (none, ·)) (word_append ['a', 'l', 's', 'e'])
  | number ht => exact passedOver_scalar (fun n r hr ↦ skipStart_number ht hr) hstarts
  | @negative t ht =>
    refine passedOver_scalar (fun n r hr ↦ ?_) hstarts
    refine (congrArg (Except.map (none, ·)) (skipNumber_append ht hr)).trans ?_
    simp [Except.map, Nat.add_assoc, Nat.add_comm 1]
  | @text t ht =>
    refine passedOver_scalar (fun n r hr ↦ ?_) hstarts
    rw [List.cons_append, List.append_assoc]
    refine (congrArg (Except.map (none, ·)) (skipText_append ht)).trans ?_
    simp [Except.map, Nat.add_assoc, Nat.add_comm 1]
  | bracket hhead hvalue htail ih =>
    exact passedOver_bracket hhead hvalue (fun p hp ↦ ih p hp (hvalue p hp).starts) htail

theorem skipValue_append (ht : Value t) (hw : Blanks w) (hr : Stops r) :
    skipValue ⟨n, w ++ (t ++ r)⟩ = .ok ⟨n + (w.length + t.length), r⟩ := by
  rw [skipValue, ht.passedOver [] n w r hw hr, skipOpen]

end QueuedFiles.Json
