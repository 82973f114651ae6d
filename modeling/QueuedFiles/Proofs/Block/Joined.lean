import QueuedFiles.Proofs.Block.Roundtrip

/-!
Two blocks, one behind the other. A block has no end mark: it ends where its input ends. Behind the
literals of the first block the decoder therefore looks for a copy, and takes the beginning of the
second block for one.
-/

namespace QueuedFiles.Lz4

theorem toList_prefix_copyBack (offset n : Nat) (out : Array UInt8) :
    out.toList <+: (copyBack offset n out).toList := by
  induction n generalizing out with
  | zero => exact List.prefix_refl _
  | succ n ih =>
    refine List.IsPrefix.trans ?_ (ih _)
    rw [Array.toList_push]
    exact List.prefix_append _ _

/-- A copy from farther back than it is long does not run into its own output. -/
theorem toList_copyBack {offset n : Nat} {out : Array UInt8} (hn : n ≤ offset)
    (hle : offset ≤ out.size) :
    (copyBack offset n out).toList = out.toList ++ (out.toList.drop (out.size - offset)).take n := by
  induction n generalizing out with
  | zero => simp [copyBack]
  | succ n ih =>
    have hlt : out.size - offset < out.toList.length := by
      rw [Array.length_toList]
      omega
    have hnext : out.size + 1 - offset = out.size - offset + 1 := by omega
    have hread : out.getD (out.size - offset) 0 = out.toList[out.size - offset] := by
      rw [Array.getD_eq_getD_getElem?, ← Array.getElem?_toList, List.getElem?_eq_getElem hlt]
      rfl
    rw [copyBack, hread, ih (by omega) (by rw [Array.size_push]; omega), Array.size_push,
      Array.toList_push, hnext, List.drop_append_of_le_length (by omega),
      List.take_append_of_le_length (by rw [List.length_drop, Array.length_toList]; omega),
      List.append_assoc, List.singleton_append, List.drop_eq_getElem_cons hlt, List.take_succ_cons]

section

variable {cap n : Nat} {out out' : Array UInt8} {block rest : Bytes}

theorem readLiterals_extends (h : readLiterals cap out n block = .ok (out', rest)) :
    out.toList <+: out'.toList ∧ out'.size ≤ cap := by
  unfold readLiterals at h
  split at h
  · cases h
  · next m r _ =>
    dsimp only at h
    split at h
    · cases h
    · next hlength =>
      split at h
      · cases h
      · next hroom =>
        cases h
        rw [Array.toList_appendList]
        refine ⟨List.prefix_append _ _, ?_⟩
        rw [size_append, List.length_take]
        omega

theorem readCopy_extends (h : readCopy cap out n block = .ok (out', rest)) :
    out.toList <+: out'.toList := by
  unfold readCopy at h
  split at h
  · dsimp only at h
    split at h
    · cases h
    · split at h
      · cases h
      · split at h
        · cases h
        · split at h
          · cases h
          · cases h
            exact toList_prefix_copyBack _ _ out
  · cases h

/-- Decoding never takes back what is written, and does not write beyond its room. -/
theorem decodeFrom_extends (h : decodeFrom cap out block = .ok out') :
    out.toList <+: out'.toList ∧ out'.size ≤ cap := by
  fun_induction decodeFrom cap out block with
  | case1 => cases h
  | case2 => cases h
  | case3 out t r out₁ hl =>
    cases h
    exact readLiterals_extends hl
  | case4 => cases h
  | case5 out t r out₁ b r' hl out₂ r₂ hc ih =>
    obtain ⟨hle, hroom⟩ := ih h
    exact ⟨(readLiterals_extends hl).1.trans ((readCopy_extends hc).trans hle), hroom⟩

end

/-- The first two bytes of a block as an offset. -/
def distance : Bytes → Nat
  | low :: high :: _ => low.toNat + 256 * high.toNat
  | _ => 0

variable (cap : Nat) (out : Array UInt8)

theorem readCopy_short {next : Bytes} (hlong : 2 ≤ next.length) (hfar : 0 < distance next) :
    readCopy cap out 0 next =
      if cap < out.size + minCopy then .error .outputFull
      else if out.size < distance next then .error .offsetBeyondOutput
      else .ok (copyBack (distance next) minCopy out, next.drop 2) := by
  match next, hlong with
  | low :: high :: rest, _ =>
    have hne : low.toNat + 256 * high.toNat ≠ 0 := Nat.ne_of_gt hfar
    unfold readCopy
    dsimp only
    rw [if_neg hne]
    rfl

/-- What stands behind the literals that should end a block is read as a copy. -/
theorem decodeFrom_behind (tail : Bytes) {next : Bytes} (hlong : 2 ≤ next.length)
    (hfar : 0 < distance next) :
    decodeFrom cap out (encodeTail tail ++ next) =
      if cap < (out ++ tail).size + minCopy then .error .outputFull
      else if (out ++ tail).size < distance next then .error .offsetBeyondOutput
      else decodeFrom cap (copyBack (distance next) minCopy (out ++ tail)) (next.drop 2) := by
  have hcopy := readCopy_short cap (out ++ tail) hlong hfar
  obtain ⟨low, rest, hnext⟩ := List.exists_cons_of_length_pos (l := next) (by omega)
  rw [encodeTail, List.cons_append, List.cons_append, List.append_assoc, decodeFrom_cons,
    (toNat_token _ _).1, (toNat_token _ _).2, readLiterals_encode, hnext, ← size_append]
  by_cases hliterals : cap < (out ++ tail).size
  · rw [if_pos hliterals, if_pos (by omega)]
  · rw [if_neg hliterals]
    dsimp only
    rw [Nat.zero_min, ← hnext, hcopy]
    by_cases hfull : cap < (out ++ tail).size + minCopy
    · rw [if_pos hfull, if_pos hfull]
    · rw [if_neg hfull, if_neg hfull]
      by_cases hout : (out ++ tail).size < distance next
      · rw [if_pos hout, if_pos hout]
      · rw [if_neg hout, if_neg hout]

/-- A token that counts literals is no small number. -/
theorem distance_token {literals : Bytes} (hne : literals ≠ []) (extra : Nat) (rest : Bytes) :
    2 ≤ (token literals.length extra ::
      (lengthBytes literals.length ++ (literals ++ rest))).length ∧
    16 ≤ distance (token literals.length extra ::
      (lengthBytes literals.length ++ (literals ++ rest))) := by
  have hpos := List.length_pos_iff.2 hne
  have htoken := (toNat_token literals.length extra).1
  cases hbytes : lengthBytes literals.length ++ (literals ++ rest) with
  | nil => simp [hne] at hbytes
  | cons high rest =>
    simp only [List.length_cons, distance]
    omega

/-- A block that stands for some bytes begins with such a token. -/
theorem encode_begins {b : Block} (h : Fits #[] b.sequences) (hne : b.expand ≠ #[]) :
    2 ≤ b.encode.length ∧ 16 ≤ distance b.encode := by
  obtain ⟨ss, tail⟩ := b
  cases ss with
  | nil =>
    have htail : tail ≠ [] := by
      rintro rfl
      exact hne rfl
    have hencode : Block.encode ⟨[], tail⟩ =
        token tail.length 0 :: (lengthBytes tail.length ++ (tail ++ [])) := by
      simp [Block.encode, encodeTail]
    rw [hencode]
    exact distance_token htail 0 []
  | cons s ss =>
    -- The first copy has nothing but the literals before it to reach back into.
    have hliterals : s.literals ≠ [] := by
      have hreaches := h.1.reaches
      have hpositive := h.1.positive
      rw [Array.size_empty] at hreaches
      exact List.ne_nil_of_length_pos (by omega)
    have hencode : Block.encode ⟨s :: ss, tail⟩ =
        s.encode ++ (ss.flatMap Sequence.encode ++ encodeTail tail) := by
      simp [Block.encode]
    rw [hencode, s.encode_append]
    exact distance_token hliterals s.extra _

/-- A block with another behind it. Its literals are not the end, and a copy follows. -/
theorem decode_behind {b : Block} (h : Fits #[] b.sequences) {next : Bytes}
    (hlong : 2 ≤ next.length) (hfar : 0 < distance next) :
    decode cap (b.encode ++ next) =
      if cap < b.expand.size + minCopy then .error .outputFull
      else if b.expand.size < distance next then .error .offsetBeyondOutput
      else (decodeFrom cap (copyBack (distance next) minCopy b.expand) (next.drop 2)).map
        Array.toList := by
  have hne : (b.encode ++ next).isEmpty = false := by
    simp [Block.encode, encodeTail]
  have hsize : b.expand.size = (b.sequences.foldl Sequence.expand #[]).size + b.tail.length :=
    size_append _ _
  rw [decode, hne, if_neg Bool.false_ne_true, Block.encode, List.append_assoc,
    decodeFrom_sequences cap #[] (Nat.zero_le cap) h, decodeFrom_behind _ _ _ hlong hfar,
    ← Block.expand]
  by_cases hfull : cap < b.expand.size + minCopy
  · rw [if_pos hfull, if_pos hfull, ite_self]
    rfl
  · rw [if_neg (by omega), if_neg hfull, if_neg hfull]
    split <;> rfl

section

variable {x y block next : Bytes}

theorem compress_begins (hx : x ≠ []) (h : compress x = .ok block) :
    2 ≤ block.length ∧ 16 ≤ distance block := by
  obtain rfl : _ = block := Except.ok.inj ((compress_of_ne_nil hx).symm.trans h)
  obtain ⟨hfits, hexpand⟩ := blockOf_spec x.toArray
  refine encode_begins hfits ?_
  rw [hexpand]
  simpa using hx

/-- What comes of the block of `x` with `next`, the block of `y`, behind it. If both payloads have
bytes, then four bytes are copied behind `x`, from as far back as the first two bytes of `next` say,
and the rest of `next` goes on from there. -/
def joined (cap : Nat) (x y next : Bytes) : Except BlockError Bytes :=
  if x = [] ∨ y = [] then .ok (x ++ y)
  else if cap < x.length + minCopy then .error (.outputTooLarge cap)
  else if x.length < distance next then .error (.failed name Defect.offsetBeyondOutput.message)
  else
    ((decodeFrom cap (copyBack (distance next) minCopy x.toArray) (next.drop 2)).map
      Array.toList).mapError (Defect.toBlockError cap)

theorem decompress_joined (hx : compress x = .ok block) (hy : compress y = .ok next)
    (hroom : x.length + y.length ≤ cap) :
    decompress (block ++ next) cap = joined cap x y next := by
  by_cases hxe : x = []
  · subst hxe
    obtain rfl : [] = block := Except.ok.inj (compress_nil.symm.trans hx)
    rw [decompress, List.nil_append, decode_compress hy, if_neg (by omega), joined, if_pos (.inl rfl)]
    rfl
  by_cases hye : y = []
  · subst hye
    obtain rfl : [] = next := Except.ok.inj (compress_nil.symm.trans hy)
    rw [decompress, List.append_nil, decode_compress hx, if_neg (by omega), joined, if_pos (.inr rfl),
      List.append_nil]
    rfl
  obtain ⟨hlong, hfar⟩ := compress_begins hye hy
  obtain rfl : _ = block := Except.ok.inj ((compress_of_ne_nil hxe).symm.trans hx)
  obtain ⟨hfits, hexpand⟩ := blockOf_spec x.toArray
  rw [decompress, decode_behind cap hfits hlong (by omega), hexpand, List.size_toArray, joined,
    if_neg (not_or.2 ⟨hxe, hye⟩)]
  split
  · rfl
  · split <;> rfl

theorem length_decompress_le {bytes : Bytes} (h : decompress block cap = .ok bytes) :
    bytes.length ≤ cap := by
  unfold decompress decode at h
  split at h
  · cases h
    exact Nat.zero_le cap
  · cases hd : decodeFrom cap #[] block with
    | error defect =>
      rw [hd] at h
      cases h
    | ok out =>
      rw [hd] at h
      cases h
      exact (decodeFrom_extends hd).2

/-- If both payloads have bytes and something comes out, then the first payload does, and behind it
four of its own bytes once more. -/
theorem joined_begins (hx : x ≠ []) (hye : y ≠ []) (hy : compress y = .ok next) {bytes : Bytes}
    (h : joined cap x y next = .ok bytes) :
    x ++ (x.drop (x.length - distance next)).take minCopy <+: bytes := by
  have hfar := (compress_begins hye hy).2
  rw [joined, if_neg (not_or.2 ⟨hx, hye⟩)] at h
  split at h
  · cases h
  · split at h
    · cases h
    · next hnear =>
      have hapart : minCopy ≤ distance next := Nat.le_trans (by decide) hfar
      have hcopy : (copyBack (distance next) minCopy x.toArray).toList =
          x ++ (x.drop (x.length - distance next)).take minCopy :=
        toList_copyBack hapart (Nat.not_lt.1 hnear)
      cases hd : decodeFrom cap (copyBack (distance next) minCopy x.toArray) (next.drop 2) with
      | error defect =>
        rw [hd] at h
        cases h
      | ok out =>
        rw [hd] at h
        cases h
        exact hcopy ▸ (decodeFrom_extends hd).1

/-- Something else may come out without a word: two zeros behind 32 bytes or more are read as four of
these bytes. -/
theorem joined_zeros (hx : 32 ≤ x.length) (hroom : x.length + minCopy ≤ cap) :
    ∃ next, compress [0, 0] = .ok next ∧
      joined cap x [0, 0] next = .ok (x ++ (x.drop (x.length - 32)).take minCopy) := by
  refine ⟨[0x20, 0, 0], rfl, ?_⟩
  have hne : ¬ (x = [] ∨ ([0, 0] : Bytes) = []) := by
    rintro (rfl | h)
    · simp at hx
    · cases h
  have hdistance : distance [0x20, 0, 0] = 32 := rfl
  have hcopy : (copyBack 32 minCopy x.toArray).toList =
      x ++ (x.drop (x.length - 32)).take minCopy :=
    toList_copyBack (by decide) hx
  have hrest : ([0x20, 0, 0] : Bytes).drop 2 = encodeTail [] := rfl
  rw [joined, if_neg hne, if_neg (Nat.not_lt.2 hroom), hdistance, if_neg (Nat.not_lt.2 hx), hrest,
    decodeFrom_tail, size_copyBack, List.size_toArray, List.length_nil, Nat.add_zero,
    if_neg (Nat.not_lt.2 hroom)]
  change Except.ok (copyBack 32 minCopy x.toArray ++ ([] : Bytes)).toList = _
  rw [Array.toList_appendList, List.append_nil, hcopy]

end

end QueuedFiles.Lz4
