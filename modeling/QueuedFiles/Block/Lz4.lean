import QueuedFiles.Block.Codec
import QueuedFiles.Block.Lz4.Decoder
import QueuedFiles.Block.Lz4.Encoder

/-!
The LZ4 codec: bare blocks, without a size in front or a checksum behind. The empty payload is the
empty block.
-/

namespace QueuedFiles.Lz4

def name : String := "lz4"

/-- Room kept for the block of `n` bytes: the payload, a tenth more, and a margin. -/
def compressBound (n : Nat) : Nat := 20 + n * 110 / 100

def Defect.message : Defect → String
  | .byteMissing => "expected another byte, found none"
  | .literalsBeyondInput => "literal is out of bounds of the input"
  | .zeroOffset => "0 is not a valid match offset"
  | .offsetBeyondOutput => "the offset to copy is not contained in the decompressed buffer"
  | .outputFull => "provided output is too small"

/-- A full output is reported with its size, any other defect in words. -/
def Defect.toBlockError (cap : Nat) : Defect → BlockError
  | .outputFull => .outputTooLarge cap
  | d => .failed name d.message

/-- How an encoder says that its output cannot take the block. -/
def noRoom : String :=
  "output is too small for the compressed data, use get_maximum_output_size to reserve enough space"

/-- The block of a payload in an output of `room` bytes, if it fits. -/
def encodeInto (room : Nat) (payload : Bytes) : Except BlockError Bytes :=
  let block := (blockOf payload.toArray).encode
  if room < block.length then .error (.failed name noRoom) else .ok block

/-- The block of a payload, in an output of the size that is kept for it. -/
def compress (payload : Bytes) : Except BlockError Bytes :=
  if payload.isEmpty then .ok []
  else
    match encodeInto (compressBound payload.length) payload with
    | .error e => .error e
    | .ok block =>
      if block.isEmpty then .error (.emptyOutput name payload.length) else .ok block

/-- The payload of a block, if it has at most `cap` bytes. -/
def decompress (block : Bytes) (cap : Nat) : Except BlockError Bytes :=
  (decode cap block).mapError (Defect.toBlockError cap)

/-- The codec: the bytes it writes are the payload, and it reports their number. -/
def codec : Codec.Pure where
  name := name
  compress := compress
  decompress block cap :=
    match decompress block cap with
    | .ok payload => ⟨payload, .ok payload.length⟩
    | .error e => ⟨[], .error e⟩

end QueuedFiles.Lz4
