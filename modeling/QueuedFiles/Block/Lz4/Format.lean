import QueuedFiles.Bytes

/-!
The byte form of LZ4 blocks. A block is a list of sequences, each some literals and a copy of
earlier output, and at the end literals alone. Each part starts with a token that holds two lengths
of four bits; a length that fills its bits goes on in further bytes.
-/

namespace QueuedFiles.Lz4

/-- Literals, then a copy of `4 + extra` bytes from `offset` bytes back in the output. -/
structure Sequence where
  literals : Bytes
  offset : Nat
  extra : Nat
deriving DecidableEq

def minCopy : Nat := 4

/-- Sequences and the literals behind them. -/
structure Block where
  sequences : List Sequence
  tail : Bytes
deriving DecidableEq

/-- What of a length does not fit in its four bits: bytes of 255, then one that is less. -/
def lengthBytes (n : Nat) : Bytes :=
  if n < 15 then [] else List.replicate ((n - 15) / 255) 255 ++ [((n - 15) % 255).toUInt8]

/-- The two lengths of a token, each cut to four bits. -/
def token (literals extra : Nat) : UInt8 := (16 * min literals 15 + min extra 15).toUInt8

def Sequence.encode (s : Sequence) : Bytes :=
  token s.literals.length s.extra :: lengthBytes s.literals.length ++ s.literals ++
    [(s.offset % 256).toUInt8, (s.offset / 256).toUInt8] ++ lengthBytes s.extra

def encodeTail (tail : Bytes) : Bytes :=
  token tail.length 0 :: lengthBytes tail.length ++ tail

def Block.encode (b : Block) : Bytes := b.sequences.flatMap Sequence.encode ++ encodeTail b.tail

/-- `n` bytes, each a copy of the one `offset` bytes back; a copy may run into its own output. -/
def copyBack (offset : Nat) : Nat → Array UInt8 → Array UInt8
  | 0, out => out
  | n + 1, out => copyBack offset n (out.push (out.getD (out.size - offset) 0))

def Sequence.expand (out : Array UInt8) (s : Sequence) : Array UInt8 :=
  copyBack s.offset (minCopy + s.extra) (out ++ s.literals)

def Block.expand (b : Block) : Array UInt8 := b.sequences.foldl Sequence.expand #[] ++ b.tail

theorem size_copyBack (offset n : Nat) (out : Array UInt8) :
    (copyBack offset n out).size = out.size + n := by
  induction n generalizing out with
  | zero => rfl
  | succ n ih =>
    rw [copyBack, ih, Array.size_push]
    omega

end QueuedFiles.Lz4
