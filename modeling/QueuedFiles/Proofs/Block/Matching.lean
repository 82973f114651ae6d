import QueuedFiles.Block.Lz4.Encoder
import QueuedFiles.Proofs.Block.Decoding
import Mathlib.Algebra.GroupWithZero.Nat

/-!
What the search for copies finds. A candidate lies before its position and inside the window, and
the bytes from both on are the same; so copying from the candidate writes the data itself, also
where the copy runs into its own output.
-/

namespace QueuedFiles.Lz4

theorem or_shiftLeft {a b k : Nat} (ha : a < 2 ^ k) : a ||| b <<< k = a + 2 ^ k * b := by
  rw [Nat.or_comm, ← Nat.shiftLeft_add_eq_or_of_lt ha, Nat.shiftLeft_eq, Nat.add_comm,
    Nat.mul_comm]

theorem toNat_byte_shiftLeft (b : UInt8) {k : UInt32} (hk : k.toNat ≤ 24) :
    (b.toUInt32 <<< k).toNat = b.toNat <<< k.toNat := by
  have hb := b.toNat_lt
  have hp : 2 ^ k.toNat ≤ 2 ^ 24 := Nat.pow_le_pow_right (by omega) hk
  rw [UInt32.toNat_shiftLeft, UInt8.toNat_toUInt32, Nat.mod_eq_of_lt (by omega : k.toNat < 32),
    Nat.mod_eq_of_lt]
  calc b.toNat <<< k.toNat = b.toNat * 2 ^ k.toNat := Nat.shiftLeft_eq _ _
    _ < 2 ^ 8 * 2 ^ k.toNat := Nat.mul_lt_mul_of_pos_right hb (Nat.two_pow_pos _)
    _ ≤ 2 ^ 8 * 2 ^ 24 := Nat.mul_le_mul_left _ hp
    _ = 2 ^ 32 := rfl

variable {d : Array UInt8}

theorem toNat_word32 (i : Nat) :
    (word32 d i).toNat = (byteAt d i).toNat + 2 ^ 8 * (byteAt d (i + 1)).toNat +
      2 ^ 16 * (byteAt d (i + 2)).toNat + 2 ^ 24 * (byteAt d (i + 3)).toNat := by
  have h0 := (byteAt d i).toNat_lt
  have h1 := (byteAt d (i + 1)).toNat_lt
  have h2 := (byteAt d (i + 2)).toNat_lt
  rw [word32, UInt32.toNat_or, UInt32.toNat_or, UInt32.toNat_or, UInt8.toNat_toUInt32,
    toNat_byte_shiftLeft _ (by decide), toNat_byte_shiftLeft _ (by decide),
    toNat_byte_shiftLeft _ (by decide)]
  change _ ||| _ <<< 8 ||| _ <<< 16 ||| _ <<< 24 = _
  rw [or_shiftLeft h0, or_shiftLeft (k := 16) (by omega), or_shiftLeft (k := 24) (by omega)]

theorem byteAt_of_agree {i j : Nat} (h : agree d i j = true) {k : Nat} (hk : k < minCopy) :
    byteAt d (i + k) = byteAt d (j + k) := by
  have hw : (word32 d i).toNat = (word32 d j).toNat := by
    rw [beq_iff_eq.1 h]
  rw [toNat_word32, toNat_word32] at hw
  have hi := fun m ↦ (byteAt d (i + m)).toNat_lt
  have hj := fun m ↦ (byteAt d (j + m)).toNat_lt
  have hi0 := hi 0
  have hj0 := hj 0
  have hi1 := hi 1
  have hj1 := hj 1
  have hi2 := hi 2
  have hj2 := hj 2
  simp only [Nat.add_zero] at hi0 hj0
  apply UInt8.toNat_inj.1
  match k, hk with
  | 0, _ => simp only [Nat.add_zero]; omega
  | 1, _ => omega
  | 2, _ => omega
  | 3, _ => omega

/-- A table of positions before `i`. -/
def Earlier (table : Table) (i : Nat) : Prop := ∀ k : Fin slots, table[k] < i

theorem Earlier.mono {table : Table} {i j : Nat} (h : Earlier table i) (hij : i ≤ j) :
    Earlier table j :=
  fun k ↦ Nat.lt_of_lt_of_le (h k) hij

theorem Earlier.set {table : Table} {i p : Nat} (h : Earlier table i) (s : Fin slots) (hp : p < i) :
    Earlier (table.set s p) i := by
  intro k
  by_cases hk : s.val = k.val
  · simp only [Fin.getElem_fin, Vector.getElem_set, hk, if_pos]
    exact hp
  · simp only [Fin.getElem_fin, Vector.getElem_set, hk, if_false]
    exact h k

theorem search_hit {table : Table} {i misses : Nat} {h : Hit} (ht : Earlier table i)
    (hs : search d table i misses = some h) :
    h.candidate < h.position ∧ h.position - h.candidate ≤ window ∧
      agree d h.candidate h.position = true ∧ Earlier h.table (h.position + 1) := by
  fun_induction search d table i misses with
  | case1 => simp at hs
  | case2 table i misses hi s candidate table' hc =>
    obtain rfl := Option.some.inj hs
    exact ⟨ht s, hc.1, hc.2, (ht.mono (Nat.le_succ i)).set s (Nat.lt_succ_self i)⟩
  | case3 table i misses hi s candidate table' hc ih =>
    exact ih ((ht.mono (by omega)).set s (by omega)) hs

theorem agreeBefore_le_left {lit i j k : Nat} (h : k ≤ i) : agreeBefore d lit i j k ≤ i := by
  fun_induction agreeBefore d lit i j k with
  | case1 k hk ih => exact ih (by omega)
  | case2 => exact h

theorem agreeBefore_le_right {lit i j k : Nat} (h : k ≤ j) : agreeBefore d lit i j k ≤ j := by
  fun_induction agreeBefore d lit i j k with
  | case1 k hk ih => exact ih hk.2.1
  | case2 => exact h

theorem byteAt_agreeBefore {lit i j k m : Nat} (hk : k ≤ m)
    (hm : m < agreeBefore d lit i j k) : byteAt d (i - 1 - m) = byteAt d (j - 1 - m) := by
  fun_induction agreeBefore d lit i j k with
  | case1 k h ih =>
    rcases Nat.eq_or_lt_of_le hk with rfl | hlt
    · exact h.2.2
    · exact ih hlt hm
  | case2 => omega

theorem agreeAfter_le {i j k : Nat} (h : i + k ≤ d.size) : i + agreeAfter d i j k ≤ d.size := by
  fun_induction agreeAfter d i j k with
  | case1 k hk ih => exact ih (by omega)
  | case2 => exact h

theorem byteAt_agreeAfter {i j k m : Nat} (hk : k ≤ m) (hm : m < agreeAfter d i j k) :
    byteAt d (i + m) = byteAt d (j + m) := by
  fun_induction agreeAfter d i j k with
  | case1 k h ih =>
    rcases Nat.eq_or_lt_of_le hk with rfl | hlt
    · exact h.2
    · exact ih hlt hm
  | case2 => omega

theorem le_agreeAfter {i j k n : Nat} (hend : i + n ≤ d.size - endMargin)
    (hsame : ∀ m < n, byteAt d (i + m) = byteAt d (j + m)) : n ≤ agreeAfter d i j k := by
  fun_induction agreeAfter d i j k with
  | case1 k h ih => exact ih
  | case2 k h =>
    rcases Nat.lt_or_ge k n with hlt | hge
    · exact absurd ⟨by omega, hsame k hlt⟩ h
    · exact hge

section

variable {p c lit : Nat} (hlt : c < p) (hagree : agree d c p = true)

include hagree in
/-- The bytes in front of a hit, and the four that were compared as one word. -/
theorem byteAt_reached {k : Nat} (hk : k < agreeBefore d lit p c 0 + minCopy) :
    byteAt d (p - agreeBefore d lit p c 0 + k) = byteAt d (c - agreeBefore d lit p c 0 + k) := by
  have hp : agreeBefore d lit p c 0 ≤ p := agreeBefore_le_left (Nat.zero_le p)
  have hc : agreeBefore d lit p c 0 ≤ c := agreeBefore_le_right (Nat.zero_le c)
  have before : ∀ m, m < agreeBefore d lit p c 0 → byteAt d (p - 1 - m) = byteAt d (c - 1 - m) :=
    fun m ↦ byteAt_agreeBefore (Nat.zero_le m)
  generalize agreeBefore d lit p c 0 = back at hk hp hc before ⊢
  rcases Nat.lt_or_ge k back with hkb | hkb
  · have hp' : p - back + k = p - 1 - (back - 1 - k) := by omega
    have hc' : c - back + k = c - 1 - (back - 1 - k) := by omega
    rw [hp', hc', before _ (by omega)]
  · have hp' : p - back + k = p + (k - back) := by omega
    have hc' : c - back + k = c + (k - back) := by omega
    rw [hp', hc', byteAt_of_agree hagree (by omega)]

include hlt hagree in
theorem byteAt_match {k : Nat}
    (hk : k < minCopy + agreeAfter d (p - agreeBefore d lit p c 0 + minCopy)
      (c - agreeBefore d lit p c 0 + minCopy) 0) :
    byteAt d (p - agreeBefore d lit p c 0 + k) =
      byteAt d (p - agreeBefore d lit p c 0 + k - (p - c)) := by
  have hc : agreeBefore d lit p c 0 ≤ c := agreeBefore_le_right (Nat.zero_le c)
  have reached : ∀ m, m < agreeBefore d lit p c 0 + minCopy →
      byteAt d (p - agreeBefore d lit p c 0 + m) = byteAt d (c - agreeBefore d lit p c 0 + m) :=
    fun m ↦ byteAt_reached hagree
  generalize agreeBefore d lit p c 0 = back at hk hc reached ⊢
  have hread : p - back + k - (p - c) = c - back + k := by omega
  rw [hread]
  rcases Nat.lt_or_ge k minCopy with hk4 | hk4
  · exact reached k (by omega)
  · have hp' : p - back + k = p - back + minCopy + (k - minCopy) := by omega
    have hc' : c - back + k = c - back + minCopy + (k - minCopy) := by omega
    rw [hp', hc']
    exact byteAt_agreeAfter (Nat.zero_le _) (Nat.sub_lt_left_of_lt_add hk4 hk)

include hagree in
/-- A match ends behind its hit, however far in front of the hit it starts. -/
theorem hit_lt_stop (hend : p + minCopy ≤ d.size - endMargin) :
    p < p - agreeBefore d lit p c 0 + minCopy +
      agreeAfter d (p - agreeBefore d lit p c 0 + minCopy)
        (c - agreeBefore d lit p c 0 + minCopy) 0 := by
  have hp : agreeBefore d lit p c 0 ≤ p := agreeBefore_le_left (Nat.zero_le p)
  have hle : agreeBefore d lit p c 0 ≤ agreeAfter d (p - agreeBefore d lit p c 0 + minCopy)
      (c - agreeBefore d lit p c 0 + minCopy) 0 := by
    apply le_agreeAfter (by omega)
    intro m hm
    have hm' : minCopy + m < agreeBefore d lit p c 0 + minCopy := by omega
    have hsame := byteAt_reached hagree hm'
    rwa [← Nat.add_assoc, ← Nat.add_assoc] at hsame
  simp only [minCopy] at *
  omega

end

/-- Copying what the data repeats writes the data. The induction is on the bytes still to copy, so
that each of them is read from what is written already. -/
theorem copyBack_extract {offset : Nat} (hpos : 0 < offset) (n : Nat) {start : Nat}
    (hle : offset ≤ start) (hend : start + n ≤ d.size)
    (hsame : ∀ k < n, byteAt d (start + k) = byteAt d (start + k - offset)) :
    copyBack offset n (d.extract 0 start) = d.extract 0 (start + n) := by
  induction n generalizing start with
  | zero => rfl
  | succ n ih =>
    have hsize : (d.extract 0 start).size = start := by
      rw [Array.size_extract]
      omega
    have hread : (d.extract 0 start).getD (start - offset) 0 = byteAt d start := by
      have hfirst : byteAt d start = byteAt d (start - offset) := hsame 0 (Nat.succ_pos n)
      rw [hfirst, byteAt, Array.getD_eq_getD_getElem?, Array.getD_eq_getD_getElem?,
        Array.getElem?_extract, if_pos (by omega), Nat.zero_add]
    have hpush : (d.extract 0 start).push (byteAt d start) = d.extract 0 (start + 1) := by
      have hlt : start < d.size := by omega
      rw [byteAt, Array.getD_eq_getD_getElem?, Array.getElem?_eq_getElem hlt, Option.getD_some]
      simp
    rw [copyBack, hsize, hread, hpush, ih (by omega) (by omega), Nat.add_right_comm]
    · rfl
    · intro k hk
      have := hsame (k + 1) (by omega)
      rwa [← Nat.add_assoc, Nat.add_right_comm] at this

end QueuedFiles.Lz4
