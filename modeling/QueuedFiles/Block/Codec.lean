import QueuedFiles.Bytes

/-!
Block codecs. A codec turns a whole payload into one block and back. Nothing is assumed of one: it
may answer anything, keep a state, take its time, or take its worker down with it.
-/

namespace QueuedFiles

/-- Why a codec gave no result. -/
inductive BlockError where
  /-- The codec returned no bytes for a payload of some. -/
  | emptyOutput (codec : String) (inputLength : Nat)
  | failed (codec message : String)
  /-- The payload does not fit the output offered. -/
  | outputTooLarge (max : Nat)
deriving DecidableEq

def BlockError.message : BlockError → String
  | .emptyOutput codec n =>
    "codec " ++ codec ++ " produced no output for " ++ toString n ++ " input bytes"
  | .failed codec m => "codec " ++ codec ++ " process failed: " ++ m
  | .outputTooLarge max => "decompressed payload exceeds " ++ toString max ++ " bytes"

/-- What decompressing does to the zeroed output it was offered: the bytes it wrote from the front
on, and the length it reports or the error it gives. -/
structure Decoded where
  written : Bytes
  reported : Except BlockError Nat

/-- How a call of a codec in state `σ` comes out. -/
inductive Call (σ α : Type) where
  /-- It has not come back yet. -/
  | waits
  /-- It takes down the worker that made it. -/
  | crashes
  | returns (answer : α) (state : σ)

/-- A block codec with its state. `decompress` is told how many bytes of output it is offered. -/
structure Codec where
  State : Type
  name : String
  compress : State → Bytes → Call State (Except BlockError Bytes)
  decompress : State → Bytes → Nat → Call State Decoded

namespace Codec

/-- Every call of the codec comes back. -/
def Returns (c : Codec) : Prop :=
  (∀ s x, ∃ a t, c.compress s x = .returns a t) ∧
    ∀ s b max, ∃ a t, c.decompress s b max = .returns a t

/-- A codec without state whose calls come back at once. -/
structure Pure where
  name : String
  compress : Bytes → Except BlockError Bytes
  decompress : Bytes → Nat → Decoded

def ofPure (p : Pure) : Codec where
  State := Unit
  name := p.name
  compress _ x := .returns (p.compress x) ()
  decompress _ b max := .returns (p.decompress b max) ()

theorem ofPure_returns (p : Pure) : (ofPure p).Returns :=
  ⟨fun _ _ ↦ ⟨_, _, rfl⟩, fun _ _ _ ↦ ⟨_, _, rfl⟩⟩

/-- How many calls are let through: a number of them, or all. -/
inductive Permits where
  | limited (n : Nat)
  | unlimited
deriving DecidableEq

namespace Permits

/-- What is left once a call has gone through, if one may. -/
def take? : Permits → Option Permits
  | .limited 0 => none
  | .limited (n + 1) => some (.limited n)
  | .unlimited => some .unlimited

def give (p : Permits) (k : Nat) : Permits :=
  match p with
  | .limited n => .limited (n + k)
  | .unlimited => .unlimited

end Permits

/-- A call made under permits: it waits until there is one, and uses it up. -/
def gate {σ α : Type} (p : Permits) (call : Call σ α) : Call (Permits × σ) α :=
  match p.take?, call with
  | none, _ => .waits
  | some _, .waits => .waits
  | some _, .crashes => .crashes
  | some q, .returns a s => .returns a (q, s)

/-- A codec whose calls need permits. -/
def gated (c : Codec) : Codec where
  State := Permits × c.State
  name := c.name
  compress s x := gate s.1 (c.compress s.2 x)
  decompress s b max := gate s.1 (c.decompress s.2 b max)

end Codec

end QueuedFiles
