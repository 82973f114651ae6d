import QueuedFiles.Duration

/-!
Sums of durations are made of words, with carries between them, and are the exact ones: a sum is there
if and only if its exact number of nanoseconds is not beyond the longest duration.
-/

namespace QueuedFiles

namespace Duration

def longest : Duration := ⟨18446744073709551615, 999999999, by decide⟩

theorem toNanos_longest : longest.toNanos + 1 = UInt64.size * 1000000000 := by decide

theorem toNanos_le_longest (d : Duration) : d.toNanos ≤ longest.toNanos := by
  have hs := d.seconds.toNat_lt_size
  have hn := d.nanos_lt
  have hmax := toNanos_longest
  rw [toNanos]
  omega

theorem ofNanos?_eq_none {n : Nat} : ofNanos? n = none ↔ longest.toNanos < n := by
  have hmax := toNanos_longest
  rw [ofNanos?, ite_eq_right_iff]
  simp only [reduceCtorEq, imp_false]
  omega

theorem ofNanos?_toNanos (d : Duration) : ofNanos? d.toNanos = some d := by
  cases h : ofNanos? d.toNanos with
  | some e => rw [toNanos_inj (toNanos_of_ofNanos? h)]
  | none => exact absurd (ofNanos?_eq_none.1 h) (Nat.not_lt.2 d.toNanos_le_longest)

theorem ofNanos?_eq_some {n : Nat} {d : Duration} : ofNanos? n = some d ↔ d.toNanos = n :=
  ⟨toNanos_of_ofNanos?, fun h ↦ h ▸ ofNanos?_toNanos d⟩

theorem toNat_of_addWords? {a b c : UInt64} (h : addWords? a b = some c) :
    c.toNat = a.toNat + b.toNat := by
  obtain ⟨hlt, h⟩ := Option.ite_none_right_eq_some.1 h
  obtain rfl := Option.some.inj h
  rw [UInt64.toNat_add]
  exact Nat.mod_eq_of_lt hlt

theorem full_of_addWords? {a b : UInt64} (h : addWords? a b = none) :
    UInt64.size ≤ a.toNat + b.toNat := by
  rw [addWords?, ite_eq_right_iff] at h
  exact Nat.not_lt.1 fun hlt ↦ Option.some_ne_none _ (h hlt)

theorem add?_eq (a b : Duration) : a.add? b = ofNanos? (a.toNanos + b.toNanos) := by
  have hmax := toNanos_longest
  have ha := a.nanos_lt
  have hb := b.nanos_lt
  have hone : (1 : UInt64).toNat = 1 := rfl
  rw [add?, toNanos, toNanos]
  -- Wherever a word is too small for its part, the exact sum is beyond the longest duration.
  cases hs : addWords? a.seconds b.seconds with
  | none =>
    have hfull := full_of_addWords? hs
    exact (ofNanos?_eq_none.2 (by omega)).symm
  | some s =>
    have hsum := toNat_of_addWords? hs
    rw [Option.bind_eq_bind, Option.bind_some]
    split
    · refine (ofNanos?_eq_some.2 ?_).symm
      show s.toNat * 1000000000 + (a.nanos + b.nanos) = _
      omega
    · cases hc : addWords? s 1 with
      | none =>
        have hfull := full_of_addWords? hc
        exact (ofNanos?_eq_none.2 (by omega)).symm
      | some c =>
        have hcarry := toNat_of_addWords? hc
        refine (ofNanos?_eq_some.2 ?_).symm
        show c.toNat * 1000000000 + (a.nanos + b.nanos - 1000000000) = _
        omega

namespace Tally

def toNanos (t : Tally) : Nat := t.seconds.toNat * 1000000000 + t.nanos.toNat

variable {t u : Tally} {d : Duration}

theorem toNat_nanos (d : Duration) : d.nanos.toUInt64.toNat = d.nanos := by
  have hlt := d.nanos_lt
  rw [Nat.toUInt64, UInt64.toNat_ofNat']
  omega

theorem toNat_whole (n : UInt64) : (n / 1000000000).toNat = n.toNat / 1000000000 :=
  UInt64.toNat_div ..

theorem toNat_rest (n : UInt64) : (n % 1000000000).toNat = n.toNat % 1000000000 :=
  UInt64.toNat_mod ..

/-- What is left of a full word once its seconds are carried over has room for any nanoseconds. -/
theorem toNat_refilled (n : UInt64) (d : Duration) :
    (n % 1000000000 + d.nanos.toUInt64).toNat = n.toNat % 1000000000 + d.nanos := by
  have hd := d.nanos_lt
  rw [UInt64.toNat_add, toNat_rest, toNat_nanos]
  omega

theorem toNanos_of_add? (h : t.add? d = some u) : u.toNanos = t.toNanos + d.toNanos := by
  obtain ⟨s, hs, h⟩ := Option.bind_eq_some_iff.1 h
  have hsum := toNat_of_addWords? hs
  simp only [toNanos, Duration.toNanos]
  split at h
  · next n hn =>
    have hnanos := toNat_of_addWords? hn
    obtain rfl := Option.some.inj h
    rw [toNat_nanos] at hnanos
    dsimp only
    omega
  · obtain ⟨c, hc, h⟩ := Option.bind_eq_some_iff.1 h
    have hcarry := toNat_of_addWords? hc
    obtain rfl := Option.some.inj h
    rw [toNat_whole] at hcarry
    dsimp only
    rw [toNat_refilled]
    omega

theorem full_of_add? (h : t.add? d = none) : longest.toNanos < t.toNanos + d.toNanos := by
  have hmax := toNanos_longest
  have hd : d.toNanos = d.seconds.toNat * 1000000000 + d.nanos := rfl
  rw [toNanos, hd]
  rw [add?] at h
  cases hs : addWords? t.seconds d.seconds with
  | none =>
    have hfull := full_of_addWords? hs
    omega
  | some s =>
    have hsum := toNat_of_addWords? hs
    rw [hs, Option.bind_eq_bind, Option.bind_some] at h
    split at h
    · cases h
    · cases hc : addWords? s (t.nanos / 1000000000) with
      | none =>
        have hfull := full_of_addWords? hc
        rw [toNat_whole] at hfull
        omega
      | some c =>
        rw [hc] at h
        cases h

theorem close?_eq (t : Tally) : t.close? = ofNanos? t.toNanos := by
  have hmax := toNanos_longest
  rw [close?, toNanos]
  cases hs : addWords? t.seconds (t.nanos / 1000000000) with
  | none =>
    have hfull := full_of_addWords? hs
    rw [toNat_whole] at hfull
    exact (ofNanos?_eq_none.2 (by omega)).symm
  | some s =>
    have hsum := toNat_of_addWords? hs
    rw [toNat_whole] at hsum
    refine (ofNanos?_eq_some.2 ?_).symm
    show s.toNat * 1000000000 + (t.nanos % 1000000000).toNat = _
    rw [toNat_rest]
    omega

/-- Wherever the sum breaks off under way, the exact one is too long already. -/
theorem foldlM_add? (t : Tally) (ds : List Duration) :
    (ds.foldlM add? t).bind close? =
      ofNanos? (t.toNanos + ds.foldr (fun d n ↦ d.toNanos + n) 0) := by
  induction ds generalizing t with
  | nil =>
    rw [List.foldlM_nil, List.foldr_nil, Nat.add_zero]
    exact close?_eq t
  | cons d ds ih =>
    rw [List.foldlM_cons, List.foldr_cons, ← Nat.add_assoc]
    cases h : t.add? d with
    | some u =>
      rw [← toNanos_of_add? h]
      exact ih u
    | none =>
      have hfull := full_of_add? h
      rw [ofNanos?_eq_none.2 (Nat.lt_add_right _ hfull)]
      rfl

end Tally

theorem sum?_eq (ds : List Duration) :
    sum? ds = ofNanos? (ds.foldr (fun d n ↦ d.toNanos + n) 0) := by
  rw [sum?, Tally.foldlM_add?]
  exact congrArg ofNanos? (Nat.zero_add _)

end Duration

end QueuedFiles
