import QueuedFiles.Service.Caller
import QueuedFiles.Service.Closing
import QueuedFiles.Service.Work

/-!
All moves of a service, in any order that its state admits.
-/

namespace QueuedFiles

namespace Service

variable {fs : FileSystem} {codec : Codec}

inductive Move where
  /-- A caller makes a heap to read into. -/
  | newHeap (name : String)
  | enter (o : Order)
  | push (id : Nat)
  | work (lane : Lane)
  | close
  | ask (id : Nat) (q : Question)
  | forget (id : Nat)
  | giveBack (b : Buffer)

/-- Whether an order names a heap that is there. Writes name none. -/
def admits (s : Service fs codec) : Order → Bool
  | .read _ heap _ _ => s.heaps.has heap
  | .write .. => true

/-- The state after a move that can be made. Orders are taken as long as nobody closes the service,
and only buffers that were taken are given back. -/
def step (s : Service fs codec) : Move → Option (Service fs codec)
  | .newHeap name => some { s with heaps := (s.heaps.create name).2 }
  | .enter o => if s.closing = .notYet ∧ s.admits o then some (s.enter o).2 else none
  | .push id => (s.push id).map (·.2)
  | .work lane => s.work lane
  | .close => s.close
  | .ask id q => (s.ask id q).map (·.2)
  | .forget id => some (s.forget id)
  | .giveBack b => if b ∈ s.taken then some (s.giveBack b) else none

end Service

end QueuedFiles
