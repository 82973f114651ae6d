import QueuedFiles.Block.Lz4.Format

/-!
Greedy search for copies. A table remembers, for each hash of the bytes at a position, the latest
position seen with it; a candidate is taken when its first four bytes agree. The longer the search
goes on without success, the longer its steps.
-/

namespace QueuedFiles.Lz4

def byteAt (d : Array UInt8) (i : Nat) : UInt8 := d.getD i 0

def word32 (d : Array UInt8) (i : Nat) : UInt32 :=
  (byteAt d i).toUInt32 ||| (byteAt d (i + 1)).toUInt32 <<< 8 |||
    (byteAt d (i + 2)).toUInt32 <<< 16 ||| (byteAt d (i + 3)).toUInt32 <<< 24

def word64 (d : Array UInt8) (i : Nat) : UInt64 :=
  (word32 d i).toUInt64 ||| (word32 d (i + 4)).toUInt64 <<< 32

abbrev slots : Nat := 4096

/-- For each slot the latest position with that hash; zero at first. -/
abbrev Table := Vector Nat slots

/-- The slot of a position: four bytes are hashed in short data, five in long data. -/
def slot (d : Array UInt8) (i : Nat) : Fin slots :=
  if d.size < 65535 then Fin.ofNat slots ((word32 d i * 2654435761) >>> 20).toNat
  else Fin.ofNat slots (((word64 d i <<< 24) * 889523592379) >>> 52).toNat

def window : Nat := 65535

/-- A copy starts at least this far from the end of the data. -/
def copyMargin : Nat := 12

/-- A copy ends at least this far from the end of the data. -/
def endMargin : Nat := 6

def agree (d : Array UInt8) (i j : Nat) : Bool := word32 d i == word32 d j

/-- Two positions that agree, and the table after the search for them. -/
structure Hit where
  position : Nat
  candidate : Nat
  table : Table

/-- The next position, from `i` on, that agrees with an earlier one in the window. Each 32 misses
lengthen the step by one. -/
def search (d : Array UInt8) (table : Table) (i misses : Nat) : Option Hit :=
  if h : d.size < i + copyMargin then none
  else
    let s := slot d i
    let candidate := table[s]
    let table := table.set s i
    if i - candidate ≤ window ∧ agree d candidate i then some ⟨i, candidate, table⟩
    else search d table (i + (1 + misses / 32)) (misses + 1)
termination_by d.size - i
decreasing_by
  simp only [copyMargin] at h
  omega

/-- How many bytes in front of two positions agree, not going before `lit` or the start. -/
def agreeBefore (d : Array UInt8) (lit i j k : Nat) : Nat :=
  if lit + k < i ∧ k < j ∧ byteAt d (i - 1 - k) = byteAt d (j - 1 - k) then
    agreeBefore d lit i j (k + 1)
  else k
termination_by i - (lit + k)
decreasing_by omega

/-- How many bytes from two positions on agree, short of the end margin. -/
def agreeAfter (d : Array UInt8) (i j k : Nat) : Nat :=
  if i + k < d.size - endMargin ∧ byteAt d (i + k) = byteAt d (j + k) then
    agreeAfter d i j (k + 1)
  else k
termination_by d.size - (i + k)
decreasing_by omega

theorem search_bounds {d : Array UInt8} {table : Table} {i misses : Nat} {h : Hit}
    (hs : search d table i misses = some h) :
    i ≤ h.position ∧ h.position + copyMargin ≤ d.size := by
  fun_induction search d table i misses with
  | case1 => simp at hs
  | case2 table i misses hi s candidate table' hc =>
    obtain rfl := Option.some.inj hs
    dsimp only
    omega
  | case3 table i misses hi s candidate table' hc ih =>
    have := ih hs
    omega

theorem agreeBefore_le {d : Array UInt8} {lit i j k : Nat} (h : lit + k ≤ i) :
    lit + agreeBefore d lit i j k ≤ i := by
  fun_induction agreeBefore d lit i j k with
  | case1 k hk ih => exact ih (by omega)
  | case2 => exact h

/-- The sequences of `d` from `lit` on, behind those in `found`. The first search starts `gap` bytes
further on. -/
def findSequences (d : Array UInt8) (table : Table) (lit gap : Nat) (found : Array Sequence) :
    Block :=
  match hs : search d table (lit + gap) 0 with
  | none => ⟨found.toList, (d.extract lit d.size).toList⟩
  | some h =>
    let back := agreeBefore d lit h.position h.candidate 0
    let start := h.position - back
    let extra := agreeAfter d (start + minCopy) (h.candidate - back + minCopy) 0
    let stop := start + minCopy + extra
    let table := h.table.set (slot d (stop - 2)) (stop - 2)
    let s : Sequence := ⟨(d.extract lit start).toList, h.position - h.candidate, extra⟩
    findSequences d table stop 0 (found.push s)
termination_by d.size - lit
decreasing_by
  have := search_bounds hs
  have : lit + agreeBefore d lit h.position h.candidate 0 ≤ h.position :=
    agreeBefore_le (by omega)
  simp only [copyMargin, minCopy] at *
  omega

/-- The block for given data. Short data is all literals. -/
def blockOf (d : Array UInt8) : Block :=
  if d.size < 13 then ⟨[], d.toList⟩
  else
    let table : Table := Vector.replicate slots 0
    findSequences d (table.set (slot d 0) 0) 0 1 #[]

end QueuedFiles.Lz4
