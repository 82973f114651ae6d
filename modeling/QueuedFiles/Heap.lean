import QueuedFiles.Bytes
import QueuedFiles.Text.Quoted

/-!
Heaps that know which of their buffers are still out. A buffer carries its number in its heap; the
heap keeps the length of every buffer under that number until the buffer is given up.
-/

namespace QueuedFiles

/-- The books of one heap: the number of the next buffer, and the length of each that is out. -/
structure Heap where
  name : String
  nextId : Nat
  live : List (Nat × Nat)
deriving DecidableEq

/-- What a heap reports: buffers out and their bytes. -/
structure HeapStats where
  allocations : Nat
  bytes : Nat
deriving DecidableEq

namespace Heap

def create (name : String) : Heap := ⟨name, 0, []⟩

def register (h : Heap) (length : Nat) : Heap :=
  { h with nextId := h.nextId + 1, live := (h.nextId, length) :: h.live }

def resize (h : Heap) (id length : Nat) : Heap :=
  { h with live := h.live.map fun e ↦ if e.1 = id then (id, length) else e }

def release (h : Heap) (id : Nat) : Heap := { h with live := h.live.filter fun e ↦ e.1 ≠ id }

def stats (h : Heap) : HeapStats := ⟨h.live.length, h.live.foldr (fun e n ↦ e.2 + n) 0⟩

def leaks (h : Heap) : Nat := h.live.length

def render (h : Heap) : String :=
  "Heap \x7b name: " ++ Text.quoted h.name ++ ", stats: HeapStats \x7b allocations: " ++
    toString h.stats.allocations ++ ", bytes: " ++ toString h.stats.bytes ++ " \x7d \x7d"

end Heap

/-- A heap's place among all heaps. -/
abbrev HeapId := Nat

structure Buffer where
  heap : HeapId
  id : Nat
  bytes : Bytes
deriving DecidableEq

/-- Room for a buffer: its zeros are not written out. -/
structure Reservation where
  heap : HeapId
  id : Nat
  length : Nat
deriving DecidableEq

/-- All heaps, in the order of their creation. -/
structure Heaps where
  heaps : List Heap
deriving DecidableEq

namespace Heaps

def empty : Heaps := ⟨[]⟩

instance : Inhabited Heaps := ⟨empty⟩

def create (hs : Heaps) (name : String) : HeapId × Heaps :=
  (hs.heaps.length, ⟨hs.heaps ++ [.create name]⟩)

def has (hs : Heaps) (h : HeapId) : Bool := h < hs.heaps.length

def get (hs : Heaps) (h : HeapId) : Heap := hs.heaps.getD h (.create "")

def name (hs : Heaps) (h : HeapId) : String := (hs.get h).name

def stats (hs : Heaps) (h : HeapId) : HeapStats := (hs.get h).stats

def leaks (hs : Heaps) (h : HeapId) : Nat := (hs.get h).leaks

def update (hs : Heaps) (h : HeapId) (f : Heap → Heap) : Heaps := ⟨hs.heaps.modify h f⟩

def adopt (hs : Heaps) (h : HeapId) (bytes : Bytes) : Buffer × Heaps :=
  (⟨h, (hs.get h).nextId, bytes⟩, hs.update h (·.register bytes.length))

/-- Room for a buffer, which has a number and a length before it has bytes of its own. -/
def reserve (hs : Heaps) (h : HeapId) (length : Nat) : Reservation × Heaps :=
  (⟨h, (hs.get h).nextId, length⟩, hs.update h (·.register length))

/-- The buffer in reserved room, cut to the bytes that it holds. -/
def fill (hs : Heaps) (r : Reservation) (bytes : Bytes) : Buffer × Heaps :=
  (⟨r.heap, r.id, bytes⟩, hs.update r.heap (·.resize r.id bytes.length))

def cancel (hs : Heaps) (r : Reservation) : Heaps := hs.update r.heap (·.release r.id)

def alloc (hs : Heaps) (h : HeapId) (length : Nat) : Buffer × Heaps :=
  hs.adopt h (List.replicate length 0)

def truncate (hs : Heaps) (b : Buffer) (n : Nat) : Buffer × Heaps :=
  let bytes := b.bytes.take n
  ({ b with bytes := bytes }, hs.update b.heap (·.resize b.id bytes.length))

def release (hs : Heaps) (b : Buffer) : Heaps := hs.update b.heap (·.release b.id)

def releaseOption (hs : Heaps) (b : Option Buffer) : Heaps := b.elim hs hs.release

/-- The bytes of a buffer, which its heap no longer counts. -/
def intoBytes (hs : Heaps) (b : Buffer) : Bytes × Heaps := (b.bytes, hs.release b)

end Heaps

namespace Buffer

def length (b : Buffer) : Nat := b.bytes.length

/-- What sets a buffer apart from all others: its heap and its number there. -/
def key (b : Buffer) : HeapId × Nat := (b.heap, b.id)

/-- The buffer with one byte changed; a place outside of it changes nothing. -/
def set (b : Buffer) (i : Nat) (x : UInt8) : Buffer := { b with bytes := b.bytes.set i x }

def render (b : Buffer) (heapName : String) : String :=
  "HeapBuffer \x7b heap: " ++ Text.quoted heapName ++ ", len: " ++ toString b.length ++ " \x7d"

end Buffer

end QueuedFiles
