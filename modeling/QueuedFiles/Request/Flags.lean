/-!
Flags of a request: three bits of a byte. The other bits mean nothing but may be carried along.
-/

namespace QueuedFiles

structure Flags where
  bits : UInt8
deriving DecidableEq

namespace Flags

/-- A zero byte goes behind the data that was read. -/
def nullTerminate : Flags := ⟨1⟩

/-- The request passes through the codec. -/
def useCompression : Flags := ⟨2⟩

/-- A write extends an existing file. -/
def appendMode : Flags := ⟨4⟩

def empty : Flags := ⟨0⟩

/-- The known flags with their names, in bit order. -/
def known : List (String × Flags) :=
  [("NULL_TERMINATE", nullTerminate), ("USE_COMPRESSION", useCompression),
    ("APPEND_MODE", appendMode)]

def all : Flags := ⟨7⟩

def union (f g : Flags) : Flags := ⟨f.bits ||| g.bits⟩

instance : Union Flags := ⟨union⟩

def contains (f g : Flags) : Bool := f.bits &&& g.bits == g.bits

def isEmpty (f : Flags) : Bool := f.bits == 0

def optional (f : Flags) (wanted : Bool) : Flags := if wanted then f else empty

def forRead (terminated compressed : Bool) : Flags :=
  nullTerminate.optional terminated ∪ useCompression.optional compressed

def forWrite (compressed append : Bool) : Flags :=
  useCompression.optional compressed ∪ appendMode.optional append

def ofBits (b : UInt8) : Flags := ⟨b⟩

def ofKnownBits (b : UInt8) : Flags := ⟨b &&& all.bits⟩

/-- Bits without unknown ones, if there are none. -/
def ofBits? (b : UInt8) : Option Flags :=
  if b &&& all.bits = b then some ⟨b⟩ else none

def hex (n : UInt8) : String := "0x" ++ String.ofList (Nat.toDigits 16 n.toNat)

/-- Names of the set flags, then the unknown bits as one number. -/
def render (f : Flags) : String :=
  let names := (known.filter fun k ↦ f.contains k.2).map (·.1)
  let rest := f.bits &&& ~~~all.bits
  let parts := names ++ (if rest = 0 then [] else [hex rest])
  "WorkFlags(" ++ (if parts.isEmpty then "0x0" else String.intercalate " | " parts) ++ ")"

end Flags

end QueuedFiles
