import QueuedFiles.Proofs.Block.Matching

/-!
The block of given data stands for the data, and the space it takes. Each copy saves what its token,
its offset and the bytes of its lengths cost, so that only the literals at the end can make a block
longer than its payload.
-/

namespace QueuedFiles.Lz4

theorem Fits.concat {out : Array UInt8} {ss : List Sequence} {s : Sequence} (h : Fits out ss)
    (hs : s.Fits (ss.foldl Sequence.expand out)) : Fits out (ss ++ [s]) := by
  induction ss generalizing out with
  | nil => exact ⟨hs, trivial⟩
  | cons t ss ih => exact ⟨h.1, ih h.2 hs⟩

variable {d : Array UInt8}

/-- Sequences that stand for the data before `i`. -/
structure Covers (d : Array UInt8) (ss : List Sequence) (i : Nat) : Prop where
  fits : Fits #[] ss
  expands : ss.foldl Sequence.expand #[] = d.extract 0 i

theorem extract_append_extract {i j : Nat} (h : i ≤ j) :
    d.extract 0 i ++ (d.extract i j).toList = d.extract 0 j := by
  apply Array.toList_inj.1
  rw [Array.toList_appendList, ← Array.toList_append, Array.extract_append_extract,
    Nat.min_eq_left (Nat.zero_le i), Nat.max_eq_right h]

/-- One step of the search: a copy from the candidate, behind the literals in front of it. -/
theorem Covers.push {ss : List Sequence} {lit start offset extra : Nat} (h : Covers d ss lit)
    (hlit : lit ≤ start) (hpos : 0 < offset) (hnear : offset < 65536) (hle : offset ≤ start)
    (hend : start + (minCopy + extra) ≤ d.size)
    (hsame : ∀ k < minCopy + extra, byteAt d (start + k) = byteAt d (start + k - offset)) :
    Covers d (ss ++ [⟨(d.extract lit start).toList, offset, extra⟩])
      (start + (minCopy + extra)) where
  fits := by
    have hsize : (ss.foldl Sequence.expand #[] ++ (d.extract lit start).toList).size = start := by
      rw [h.expands, extract_append_extract hlit, Array.size_extract]
      omega
    refine h.fits.concat ⟨hpos, hnear, ?_⟩
    rw [← size_append, hsize]
    exact hle
  expands := by
    rw [List.foldl_append, List.foldl_cons, List.foldl_nil, h.expands, Sequence.expand,
      extract_append_extract hlit, copyBack_extract hpos _ hle hend hsame]

theorem findSequences_covers {table : Table} {lit gap : Nat} {found : Array Sequence}
    (ht : Earlier table (lit + gap)) (hlit : lit ≤ d.size) (h : Covers d found.toList lit) :
    Fits #[] (findSequences d table lit gap found).sequences ∧
      (findSequences d table lit gap found).expand = d := by
  fun_induction findSequences d table lit gap found with
  | case1 table lit gap found hs =>
    refine ⟨h.fits, ?_⟩
    rw [Block.expand, h.expands, extract_append_extract hlit, Array.extract_size]
  | case2 table lit gap found hit hs back start extra stop table' s ih =>
    obtain ⟨hlt, hnear, hagree, hearlier⟩ := search_hit ht hs
    obtain ⟨hfrom, hroom⟩ := search_bounds hs
    have hback : lit + back ≤ hit.position := agreeBefore_le (by omega)
    have hbackc : back ≤ hit.candidate := agreeBefore_le_right (Nat.zero_le _)
    have hextra : start + minCopy + extra ≤ d.size :=
      agreeAfter_le (by simp only [copyMargin, minCopy, start] at *; omega)
    have hbehind : hit.position < stop :=
      hit_lt_stop hagree (by simp only [copyMargin, minCopy, endMargin] at *; omega)
    refine ih ((hearlier.mono hbehind).set _ (by omega)) hextra ?_
    have hstop : stop = start + (minCopy + extra) := Nat.add_assoc _ _ _
    rw [Array.toList_push, hstop]
    exact h.push (by omega) (by omega) (Nat.lt_succ_of_le hnear) (by omega) (by omega)
      fun k hk ↦ byteAt_match hlt hagree hk

theorem blockOf_spec (d : Array UInt8) :
    Fits #[] (blockOf d).sequences ∧ (blockOf d).expand = d := by
  unfold blockOf
  split
  · exact ⟨trivial, by simp [Block.expand]⟩
  · have ht : Earlier ((Vector.replicate slots 0 : Table).set (slot d 0) 0) (0 + 1) := by
      refine Earlier.set ?_ _ Nat.one_pos
      intro k
      simp
    exact findSequences_covers ht (Nat.zero_le _) ⟨trivial, by simp⟩

theorem length_lengthBytes (n : Nat) : 255 * (lengthBytes n).length ≤ n + 240 := by
  unfold lengthBytes
  split
  · simp
  · rw [List.length_append, List.length_replicate, List.length_singleton]
    omega

theorem lengthBytes_of_lt {n : Nat} (h : n < 15) : lengthBytes n = [] := if_pos h

/-- What a sequence takes, against what it stands for: less than a part in 255 more. -/
theorem Sequence.length_encode_le (s : Sequence) (out : Array UInt8) :
    255 * s.encode.length + 256 * out.size ≤ 256 * (s.expand out).size := by
  have hlit := length_lengthBytes s.literals.length
  have hext := length_lengthBytes s.extra
  have hshort := @lengthBytes_of_lt s.extra
  rw [s.size_expand]
  simp only [encode, List.length_cons, List.length_append, List.length_nil, minCopy]
  by_cases h : s.extra < 15
  · rw [hshort h, List.length_nil]
    omega
  · omega

theorem length_flatMap_encode_le (ss : List Sequence) (out : Array UInt8) :
    255 * (ss.flatMap Sequence.encode).length + 256 * out.size ≤
      256 * (ss.foldl Sequence.expand out).size := by
  induction ss generalizing out with
  | nil => simp
  | cons s ss ih =>
    have hs := s.length_encode_le out
    have hss := ih (s.expand out)
    rw [List.flatMap_cons, List.length_append, List.foldl_cons]
    omega

theorem Block.length_encode_le (b : Block) :
    255 * b.encode.length ≤ 256 * b.expand.size + 495 := by
  have hseq := length_flatMap_encode_le b.sequences #[]
  have htail := length_lengthBytes b.tail.length
  rw [Block.encode, Block.expand, size_append, List.length_append, encodeTail]
  simp only [List.length_cons, List.length_append, Array.size_empty] at *
  omega

end QueuedFiles.Lz4
