import QueuedFiles.Block.Lz4.Decoder

/-!
Decoding an encoded block. Lengths, literals and copies come back as they were written, one part
after the other; the output is full exactly when the block stands for more bytes than it has room
for.
-/

namespace QueuedFiles.Lz4

/-- A sequence whose copy can be written in two bytes and stays inside the output. -/
structure Sequence.Fits (s : Sequence) (out : Array UInt8) : Prop where
  positive : 0 < s.offset
  near : s.offset < 65536
  reaches : s.offset ≤ out.size + s.literals.length

/-- Sequences that fit one behind the other. -/
def Fits (out : Array UInt8) : List Sequence → Prop
  | [] => True
  | s :: ss => s.Fits out ∧ Fits (s.expand out) ss

theorem addLength_replicate (n k : Nat) (rest : Bytes) :
    addLength n (List.replicate k 255 ++ rest) = addLength (n + 255 * k) rest := by
  induction k generalizing n with
  | zero => simp
  | succ k ih =>
    rw [List.replicate_succ, List.cons_append, addLength, if_pos rfl, ih]
    congr 1
    omega

theorem readLength_lengthBytes (n : Nat) (rest : Bytes) :
    readLength (min n 15) (lengthBytes n ++ rest) = some (n, rest) := by
  by_cases h : n < 15
  · have hm : min n 15 = n := by omega
    have hne : n ≠ 15 := by omega
    simp [readLength, lengthBytes, h, hm, hne]
  · have hm : min n 15 = 15 := by omega
    have hlast : ((n - 15) % 255).toUInt8.toNat = (n - 15) % 255 := by
      simp only [Nat.toUInt8_eq, UInt8.toNat_ofNat']
      omega
    have hne : ((n - 15) % 255).toUInt8 ≠ 255 := by
      intro he
      have := congrArg UInt8.toNat he
      rw [hlast] at this
      simp at this
      omega
    rw [readLength, hm, if_pos rfl, lengthBytes, if_neg h, List.append_assoc, addLength_replicate,
      List.singleton_append, addLength, if_neg hne, hlast]
    congr 2
    omega

theorem toNat_token (literals extra : Nat) :
    (token literals extra).toNat / 16 = min literals 15 ∧
      (token literals extra).toNat % 16 = min extra 15 := by
  have h : (token literals extra).toNat = 16 * min literals 15 + min extra 15 := by
    simp only [token, Nat.toUInt8_eq, UInt8.toNat_ofNat']
    omega
  omega

theorem size_append (out : Array UInt8) (bytes : Bytes) :
    (out ++ bytes).size = out.size + bytes.length := by
  rw [← Array.length_toList, Array.toList_appendList, List.length_append, Array.length_toList]

variable (cap : Nat) (out : Array UInt8)

theorem readLiterals_encode (literals rest : Bytes) :
    readLiterals cap out (min literals.length 15) (lengthBytes literals.length ++ (literals ++ rest)) =
      if cap < out.size + literals.length then .error .outputFull
      else .ok (out ++ literals, rest) := by
  simp [readLiterals, readLength_lengthBytes]

theorem offset_bytes {n : Nat} (h : n < 65536) :
    (n % 256).toUInt8.toNat + 256 * (n / 256).toUInt8.toNat = n := by
  simp only [Nat.toUInt8_eq, UInt8.toNat_ofNat']
  omega

theorem readCopy_encode {offset : Nat} (extra : Nat) (rest : Bytes) (hpos : 0 < offset)
    (hnear : offset < 65536) (hreach : offset ≤ out.size) :
    readCopy cap out (min extra 15)
        ((offset % 256).toUInt8 :: (offset / 256).toUInt8 :: (lengthBytes extra ++ rest)) =
      if cap < out.size + (minCopy + extra) then .error .outputFull
      else .ok (copyBack offset (minCopy + extra) out, rest) := by
  unfold readCopy
  dsimp only
  rw [offset_bytes hnear, if_neg (by omega), readLength_lengthBytes]
  dsimp only
  rw [if_neg (Nat.not_lt.2 hreach)]

theorem decodeFrom_cons (t : UInt8) (r : Bytes) :
    decodeFrom cap out (t :: r) =
      match readLiterals cap out (t.toNat / 16) r with
      | .error e => .error e
      | .ok (out, []) => .ok out
      | .ok (out, b :: r') =>
        match readCopy cap out (t.toNat % 16) (b :: r') with
        | .error e => .error e
        | .ok (out, r) => decodeFrom cap out r := by
  rw [decodeFrom]
  cases readLiterals cap out (t.toNat / 16) r with
  | error e => rfl
  | ok p =>
    obtain ⟨out, r⟩ := p
    cases r with
    | nil => rfl
    | cons b r =>
      dsimp only
      cases readCopy cap out (t.toNat % 16) (b :: r) <;> rfl

theorem decodeFrom_tail (tail : Bytes) :
    decodeFrom cap out (encodeTail tail) =
      if cap < out.size + tail.length then .error .outputFull else .ok (out ++ tail) := by
  have hread := readLiterals_encode cap out tail []
  rw [List.append_nil] at hread
  rw [encodeTail, List.cons_append, decodeFrom_cons, (toNat_token _ _).1, hread]
  by_cases h : cap < out.size + tail.length
  · rw [if_pos h, if_pos h]
  · rw [if_neg h, if_neg h]

theorem Sequence.encode_append (s : Sequence) (rest : Bytes) :
    s.encode ++ rest = token s.literals.length s.extra :: (lengthBytes s.literals.length ++
      (s.literals ++ ((s.offset % 256).toUInt8 :: (s.offset / 256).toUInt8 ::
        (lengthBytes s.extra ++ rest)))) := by
  simp [encode]

theorem Sequence.size_expand (s : Sequence) :
    (s.expand out).size = out.size + s.literals.length + (minCopy + s.extra) := by
  rw [expand, size_copyBack, size_append]

theorem decodeFrom_sequence {s : Sequence} (h : s.Fits out) (rest : Bytes) :
    decodeFrom cap out (s.encode ++ rest) =
      if cap < (s.expand out).size then .error .outputFull
      else decodeFrom cap (s.expand out) rest := by
  have hreach : s.offset ≤ (out ++ s.literals).size := by
    rw [size_append]
    exact h.reaches
  rw [s.encode_append, decodeFrom_cons, (toNat_token _ _).1, (toNat_token _ _).2,
    readLiterals_encode, s.size_expand]
  by_cases hl : cap < out.size + s.literals.length
  · rw [if_pos hl, if_pos (by omega)]
  · rw [if_neg hl]
    dsimp only
    rw [readCopy_encode cap _ _ _ h.positive h.near hreach]
    rw [size_append]
    by_cases hc : cap < out.size + s.literals.length + (minCopy + s.extra)
    · rw [if_pos hc, if_pos hc]
    · rw [if_neg hc, if_neg hc]
      rfl

theorem le_size_foldl (ss : List Sequence) : out.size ≤ (ss.foldl Sequence.expand out).size := by
  induction ss generalizing out with
  | nil => exact Nat.le_refl _
  | cons s ss ih =>
    have := s.size_expand out
    have := ih (s.expand out)
    rw [List.foldl_cons]
    omega

/-- Sequences that fit are decoded as far as there is room, and the rest of the block behind them. -/
theorem decodeFrom_sequences {ss : List Sequence} (hroom : out.size ≤ cap) (h : Fits out ss)
    (rest : Bytes) :
    decodeFrom cap out (ss.flatMap Sequence.encode ++ rest) =
      if cap < (ss.foldl Sequence.expand out).size then .error .outputFull
      else decodeFrom cap (ss.foldl Sequence.expand out) rest := by
  induction ss generalizing out with
  | nil => rw [List.flatMap_nil, List.nil_append, List.foldl_nil, if_neg (Nat.not_lt.2 hroom)]
  | cons s ss ih =>
    rw [List.flatMap_cons, List.append_assoc, decodeFrom_sequence cap out h.1, List.foldl_cons]
    by_cases hs : cap < (s.expand out).size
    · rw [if_pos hs, if_pos (Nat.lt_of_lt_of_le hs (le_size_foldl _ ss))]
    · rw [if_neg hs, ih _ (Nat.not_lt.1 hs) h.2]

/-- A block whose sequences fit is decoded if there is room for all that it stands for. -/
theorem decode_encode {b : Block} (h : Fits #[] b.sequences) :
    decode cap b.encode =
      if cap < b.expand.size then .error .outputFull else .ok b.expand.toList := by
  have hne : b.encode.isEmpty = false := by
    simp [Block.encode, encodeTail]
  have hsize : b.expand.size = (b.sequences.foldl Sequence.expand #[]).size + b.tail.length :=
    size_append _ _
  rw [decode, hne, if_neg Bool.false_ne_true, Block.encode,
    decodeFrom_sequences cap #[] (Nat.zero_le cap) h, decodeFrom_tail]
  by_cases hcap : cap < b.expand.size
  · rw [if_pos (c := cap < b.expand.size) hcap]
    split
    · rfl
    · rw [if_pos (by omega)]
      rfl
  · rw [if_neg hcap, if_neg (by omega), if_neg (by omega)]
    rfl

end QueuedFiles.Lz4
