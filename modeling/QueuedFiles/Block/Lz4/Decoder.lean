import QueuedFiles.Block.Lz4.Format

/-!
Decoding of LZ4 blocks into an output of limited size. Each part of the block is checked before it
is acted on: literals against the input, then against the output; copies for a missing and a zero
offset, against the output, then against what has been written.
-/

namespace QueuedFiles.Lz4

inductive Defect where
  | byteMissing
  | literalsBeyondInput
  | zeroOffset
  | offsetBeyondOutput
  | outputFull
deriving DecidableEq

/-- The bytes of a long length added to `n`, up to the first that is not 255. -/
def addLength (n : Nat) : Bytes → Option (Nat × Bytes)
  | [] => none
  | b :: r => if b = 255 then addLength (n + 255) r else some (n + b.toNat, r)

/-- A length from its four bits and, if they are full, the bytes that follow. -/
def readLength (nibble : Nat) (r : Bytes) : Option (Nat × Bytes) :=
  if nibble = 15 then addLength 15 r else some (nibble, r)

theorem length_addLength {n m : Nat} {r s : Bytes} (h : addLength n r = some (m, s)) :
    s.length ≤ r.length := by
  fun_induction addLength n r with
  | case1 => simp at h
  | case2 n r ih => exact Nat.le_succ_of_le (ih h)
  | case3 n b r hb =>
    simp only [Option.some.injEq, Prod.mk.injEq] at h
    simp [← h.2]

theorem length_readLength {n m : Nat} {r s : Bytes} (h : readLength n r = some (m, s)) :
    s.length ≤ r.length := by
  unfold readLength at h
  split at h
  · exact length_addLength h
  · simp only [Option.some.injEq, Prod.mk.injEq] at h
    simp [← h.2]

def readLiterals (cap : Nat) (out : Array UInt8) (nibble : Nat) (r : Bytes) :
    Except Defect (Array UInt8 × Bytes) :=
  match readLength nibble r with
  | none => .error .byteMissing
  | some (n, r) =>
    let literals := r.take n
    if literals.length < n then .error .literalsBeyondInput
    else if cap < out.size + n then .error .outputFull
    else .ok (out ++ literals, r.drop n)

def readCopy (cap : Nat) (out : Array UInt8) (nibble : Nat) : Bytes →
    Except Defect (Array UInt8 × Bytes)
  | low :: high :: r =>
    let offset := low.toNat + 256 * high.toNat
    if offset = 0 then .error .zeroOffset
    else
      match readLength nibble r with
      | none => .error .byteMissing
      | some (extra, r) =>
        if cap < out.size + (minCopy + extra) then .error .outputFull
        else if out.size < offset then .error .offsetBeyondOutput
        else .ok (copyBack offset (minCopy + extra) out, r)
  | _ => .error .byteMissing

theorem length_readLiterals {cap n : Nat} {out out' : Array UInt8} {r s : Bytes}
    (h : readLiterals cap out n r = .ok (out', s)) : s.length ≤ r.length := by
  unfold readLiterals at h
  split at h
  · simp at h
  · next m r' hr =>
    have := length_readLength hr
    dsimp only at h
    split at h
    · simp at h
    · split at h
      · simp at h
      · simp only [Except.ok.injEq, Prod.mk.injEq] at h
        rw [← h.2, List.length_drop]
        omega

theorem length_readCopy {cap n : Nat} {out out' : Array UInt8} {r s : Bytes}
    (h : readCopy cap out n r = .ok (out', s)) : s.length ≤ r.length := by
  unfold readCopy at h
  split at h
  · next low high r =>
    dsimp only at h
    split at h
    · simp at h
    · split at h
      · simp at h
      · next extra r' hr =>
        have := length_readLength hr
        split at h
        · simp at h
        · split at h
          · simp at h
          · simp only [Except.ok.injEq, Prod.mk.injEq] at h
            rw [← h.2]
            simp only [List.length_cons]
            omega
  · simp at h

set_option linter.unusedVariables false in
/-- The output of a block behind `out`. The block ends with literals. -/
def decodeFrom (cap : Nat) (out : Array UInt8) (block : Bytes) : Except Defect (Array UInt8) :=
  match hb : block with
  | [] => .error .byteMissing
  | t :: r =>
    match hl : readLiterals cap out (t.toNat / 16) r with
    | .error e => .error e
    | .ok (out, []) => .ok out
    | .ok (out, b :: r') =>
      match hc : readCopy cap out (t.toNat % 16) (b :: r') with
      | .error e => .error e
      | .ok (out, r) => decodeFrom cap out r
termination_by block.length
decreasing_by
  have := length_readLiterals hl
  have := length_readCopy hc
  simp only [hb, List.length_cons] at *
  omega

/-- The bytes that a block stands for, at most `cap` of them. An empty block stands for none. -/
def decode (cap : Nat) (block : Bytes) : Except Defect Bytes :=
  if block.isEmpty then .ok [] else (decodeFrom cap #[] block).map Array.toList

end QueuedFiles.Lz4
