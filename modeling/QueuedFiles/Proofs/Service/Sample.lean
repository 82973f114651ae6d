import QueuedFiles.Disk
import QueuedFiles.Proofs.Service.History

/-!
Small services: a file system that is one file, a codec that changes nothing, a disk with nothing on
it, and runs that go by a list of moves.
-/

namespace QueuedFiles

/-- One file, whatever the path. Nothing fails. -/
def FileSystem.single : FileSystem where
  State := Bytes
  Handle := Unit
  openToRead content _ := (.ok (), content)
  size content _ := (.ok content.length, content)
  read content _ := ([.bytes content], content)
  isExtensible content _ := (true, content)
  openToWrite content _ mode := (.ok (), match mode with | .truncate => [] | .append => content)
  seekEnd content _ := (.ok (), content)
  write content _ bytes := (.ok (), content ++ bytes)

/-- The codec whose blocks are the payloads themselves. -/
def Codec.Pure.verbatim : Codec.Pure where
  name := "verbatim"
  compress := .ok
  decompress block max := ⟨block.take max, .ok (min block.length max)⟩

namespace Service

variable {fs : FileSystem} {codec : Codec}

/-- A fresh service with one heap. -/
def sample (config : Config) (codec : Codec) (codecState : codec.State) :
    Service FileSystem.single codec :=
  fresh config 0 (Heaps.empty.create "").2 [] codecState

/-- A fresh service with one heap, on a disk that is empty but for the devices. -/
def sampleDisk (config : Config) (codec : Codec.Pure) : Service Disk.fileSystem (.ofPure codec) :=
  fresh config 0 (Heaps.empty.create "").2 Disk.initial ()

/-- The log and the end of a run by given moves, if they can all be made. -/
def follow (s : Service fs codec) : List Move → Option (List Incident × Service fs codec)
  | [] => some ([], s)
  | m :: ms => (s.step m).bind fun t ↦ (t.follow ms).map fun u ↦ (s.record m ++ u.1, u.2)

theorem Run.of_follow {s t : Service fs codec} {ms : List Move} {log : List Incident}
    (h : s.follow ms = some (log, t)) : Run s log t := by
  induction ms generalizing s log with
  | nil =>
    cases h
    exact .refl
  | cons m ms ih =>
    obtain ⟨u, hu, h⟩ := Option.bind_eq_some_iff.1 h
    obtain ⟨v, hv, h⟩ := Option.map_eq_some_iff.1 h
    cases h
    exact (Run.one m hu).trans (ih hv)

theorem Run.of_isSome {s : Service fs codec} {ms : List Move} (h : (s.follow ms).isSome = true) :
    Run s ((s.follow ms).get h).1 ((s.follow ms).get h).2 :=
  of_follow (Option.some_get h).symm

end Service

end QueuedFiles
