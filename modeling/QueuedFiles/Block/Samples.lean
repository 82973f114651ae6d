import QueuedFiles.Block.Codec

/-!
Small codecs. One is honest and plain, one honest but for its extra byte; the others fail or mislead
in one way each.
-/

namespace QueuedFiles.Codec

def sampleName : String := "test"

def storing : Pure where
  name := sampleName
  compress x := .ok x
  decompress b max :=
    if b.length ≤ max then ⟨b, .ok b.length⟩ else ⟨[], .error (.outputTooLarge max)⟩

/-- Flips bits and marks the end with one byte; what does not fit is cut off. -/
def masking : Pure where
  name := sampleName
  compress x := .ok (x.map (· ^^^ 0x5a) ++ [1])
  decompress b max :=
    let plain := (b.take (min (b.length - 1) max)).map (· ^^^ 0x5a)
    ⟨plain, .ok plain.length⟩

/-- Makes no blocks and reads none. -/
def failing : Pure where
  name := sampleName
  compress _ := .ok []
  decompress _ _ := ⟨[], .error (.failed sampleName "always fails")⟩

/-- Refuses payloads, and calls blocks empty. -/
def refusing : Pure where
  name := sampleName
  compress _ := .error (.failed sampleName "refused")
  decompress b _ := ⟨[], .error (.emptyOutput sampleName b.length)⟩

/-- Reports more bytes than it was offered room for. -/
def overrunning : Pure where
  name := sampleName
  compress x := .ok x
  decompress _ max := ⟨List.replicate max 0xee, .ok (max + 7)⟩

/-- Fills its output before it gives up. -/
def halfway : Pure where
  name := sampleName
  compress x := .ok x
  decompress _ max := ⟨List.replicate max 0xdd, .error (.failed sampleName "gave up")⟩

/-- Takes its worker down with every call. -/
def crashing : Codec where
  State := Unit
  name := sampleName
  compress _ _ := .crashes
  decompress _ _ _ := .crashes

end QueuedFiles.Codec
