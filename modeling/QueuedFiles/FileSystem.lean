import QueuedFiles.Bytes
import QueuedFiles.Fault

/-!
File access as the service sees it. Nothing is assumed of what the calls answer; whatever they
depend on and change is the file system's state.
-/

namespace QueuedFiles

/-- What one call that reads from an open file answers. -/
inductive ReadEvent where
  /-- Some bytes; none at the end of the file. -/
  | bytes (b : Bytes)
  /-- The call was broken off and may be made again. -/
  | interrupted
  | failed (fault : Fault)
deriving DecidableEq

inductive WriteMode where
  | truncate
  | append
deriving DecidableEq

/-- The calls of a file system. Each may change its state. -/
structure FileSystem where
  State : Type
  Handle : Type
  openToRead : State → String → Except Fault Handle × State
  /-- The size of an open file. It is one that a read can have the memory for, with a byte more: file
  sizes stay below 2 ^ 63, and a program that is refused memory ends there, which is left out. -/
  size : State → Handle → Except Fault Nat × State
  /-- The answers to the calls that read one file, first call first; behind them the file ends. -/
  read : State → Handle → List ReadEvent × State
  /-- Whether something other than a directory is there. -/
  isExtensible : State → String → Bool × State
  openToWrite : State → String → WriteMode → Except Fault Handle × State
  seekEnd : State → Handle → Except Fault Unit × State
  write : State → Handle → Bytes → Except Fault Unit × State

/-- Reads into `room` bytes until they are full or the file ends. -/
def readFull (room : Nat) : List ReadEvent → Except Fault Bytes
  | [] => .ok []
  | event :: events =>
    if room = 0 then .ok []
    else
      match event with
      | .interrupted => readFull room events
      | .failed fault => .error fault
      | .bytes b =>
        let b := b.take room
        if b.isEmpty then .ok []
        else (readFull (room - b.length) events).map (b ++ ·)

end QueuedFiles
