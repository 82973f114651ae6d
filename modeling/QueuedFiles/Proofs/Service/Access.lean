import QueuedFiles.Proofs.Service.History

/-!
The stages with every slice and every index checked: an access out of range has no result. There is
none as long as payloads are inside their buffers and room is as large as it should be.
-/

namespace QueuedFiles

namespace Bytes

/-- The first `n` bytes, if there are so many. -/
def upTo? (b : Bytes) (n : Nat) : Option Bytes := if n ≤ b.length then some (b.take n) else none

/-- What is behind the first `n` bytes, if there are so many. -/
def from? (b : Bytes) (n : Nat) : Option Bytes := if n ≤ b.length then some (b.drop n) else none

/-- One byte changed, if it is there. -/
def put? (b : Bytes) (i : Nat) (x : UInt8) : Option Bytes :=
  if i < b.length then some (b.set i x) else none

theorem upTo?_of_le {b : Bytes} {n : Nat} (h : n ≤ b.length) : b.upTo? n = some (b.take n) :=
  if_pos h

theorem fit_zero (written : Bytes) : written.fit 0 = [] := by simp [fit]

theorem from?_append (filled rest : Bytes) : from? (filled ++ rest) filled.length = some rest := by
  simp [from?]

/-- A byte is put behind some others, and what is behind it is cut off. -/
theorem terminated (filled : Bytes) {rest : Bytes} (hrest : 0 < rest.length) (x : UInt8) :
    ∃ bytes, put? (filled ++ rest) filled.length x = some bytes ∧
      bytes.take (filled.length + 1) = filled ++ [x] := by
  cases rest with
  | nil => cases hrest
  | cons y rest =>
    refine ⟨filled ++ x :: rest, ?_, ?_⟩
    · simp [put?]
    · rw [List.take_append, List.take_of_length_le (Nat.le_succ filled.length)]
      simp

end Bytes

theorem readFull_le {room : Nat} {events : List ReadEvent} {data : Bytes}
    (h : readFull room events = .ok data) : data.length ≤ room := by
  induction events generalizing room data with
  | nil =>
    cases h
    exact Nat.zero_le room
  | cons event events ih =>
    unfold readFull at h
    split at h
    · cases h
      exact Nat.zero_le room
    · cases event with
      | interrupted => exact ih h
      | failed fault => cases h
      | bytes b =>
        simp only at h
        split at h
        · cases h
          exact Nat.zero_le room
        · cases hmore : readFull (room - (b.take room).length) events with
          | error fault =>
            rw [hmore] at h
            cases h
          | ok more =>
            have hle := ih hmore
            rw [hmore] at h
            cases h
            rw [List.length_append]
            have htake := b.length_take_le room
            omega

namespace Checked

/-- The bytes that count, as long as they are in the buffer. -/
def payload (r : Request) : Option Bytes :=
  match r.buffer with
  | some b => b.bytes.upTo? r.size
  | none => Bytes.upTo? [] r.size

/-- Reads into a buffer from a place on: the place that the bytes end at, and the buffer. -/
def readFull (buffer : Bytes) (place : Nat) : List ReadEvent → Option (Except Fault (Nat × Bytes))
  | [] => some (.ok (place, buffer))
  | event :: events =>
    if place < buffer.length then
      match event with
      | .interrupted => readFull buffer place events
      | .failed fault => some (.error fault)
      | .bytes b =>
        (buffer.from? place).bind fun room ↦
          let b := b.take room.length
          if b.isEmpty then some (.ok (place, buffer))
          else readFull (buffer.take place ++ b ++ room.drop b.length) (place + b.length) events
    else some (.ok (place, buffer))

theorem readFull_eq (filled rest : Bytes) (events : List ReadEvent) :
    readFull (filled ++ rest) filled.length events =
      some ((QueuedFiles.readFull rest.length events).map fun data ↦
        (filled.length + data.length, filled ++ data ++ rest.drop data.length)) := by
  induction events generalizing filled rest with
  | nil => simp [readFull, QueuedFiles.readFull, Except.map]
  | cons event events ih =>
    unfold readFull QueuedFiles.readFull
    by_cases hrest : rest.length = 0
    · simp [hrest, Except.map]
    · have hroom : filled.length < (filled ++ rest).length := by
        rw [List.length_append]
        omega
      rw [if_pos hroom, if_neg hrest]
      cases event with
      | interrupted => exact ih filled rest
      | failed fault => rfl
      | bytes b =>
        simp only [Bytes.from?_append, Option.bind_some, List.take_left]
        split
        · simp [Except.map]
        · -- The bytes just read are now part of what is filled.
          have hrec := ih (filled ++ b.take rest.length) (rest.drop (b.take rest.length).length)
          rw [List.length_append, List.length_drop] at hrec
          rw [hrec]
          cases QueuedFiles.readFull (rest.length - (b.take rest.length).length) events with
          | error fault => rfl
          | ok data => simp [Except.map, Nat.add_assoc]

/-- The bytes of a file in a buffer of its size, with a terminator behind them if there is to be
one: how many they are, and the buffer cut to them. The addition does not wrap round, since there is
memory for the buffer (see `FileSystem.size`). -/
def fetch (terminated : Bool) (size : Nat) (events : List ReadEvent) :
    Option (Except Fault (Nat × Bytes)) := do
  let buffer : Bytes := List.replicate (if terminated then size + 1 else size) 0
  match ← readFull (← buffer.upTo? size) 0 events with
  | .error fault => some (.error fault)
  | .ok (place, filled) =>
    let buffer := filled ++ (← buffer.from? size)
    if terminated then
      let buffer ← buffer.put? place Limits.terminator
      some (.ok (place, buffer.take (place + 1)))
    else some (.ok (place, buffer.take place))

theorem fetch_eq (terminated : Bool) (size : Nat) (events : List ReadEvent) :
    fetch terminated size events = some ((QueuedFiles.readFull size events).map fun data ↦
      (data.length, if terminated then data ++ [Limits.terminator] else data)) := by
  have hread := readFull_eq [] (List.replicate size 0) events
  simp only [List.nil_append, List.length_nil, List.length_replicate, Nat.zero_add] at hread
  cases terminated with
  | false =>
    simp only [fetch, Bytes.upTo?, Bytes.from?, hread, Bool.false_eq_true, if_false,
      List.length_replicate, Nat.le_refl, if_true, bind, Option.bind_some, List.take_replicate,
      Nat.min_self]
    cases QueuedFiles.readFull size events with
    | error fault => rfl
    | ok data => simp [Except.map]
  | true =>
    simp only [fetch, Bytes.upTo?, Bytes.from?, hread, if_true, List.length_replicate,
      Nat.le_add_right, bind, Option.bind_some, List.take_replicate, Nat.min_eq_left]
    cases hdata : QueuedFiles.readFull size events with
    | error fault => rfl
    | ok data =>
      have hle := readFull_le hdata
      have hspare : 0 < ((List.replicate size (0 : UInt8)).drop data.length ++
          (List.replicate (size + 1) 0).drop size).length := by
        simp
      obtain ⟨bytes, hput, htake⟩ := Bytes.terminated data hspare Limits.terminator
      simp only [Except.map, List.append_assoc, hput, Option.bind_some, htake]

variable {fs : FileSystem}

def read (fs : FileSystem) (files : fs.State) (heaps : Heaps) (r : Request) :
    Option (Staged × fs.State) :=
  let path := r.path.text
  match r.path.native with
  | .error e => some (⟨r, heaps, .error e⟩, files)
  | .ok native =>
    match fs.openToRead files native with
    | (.error fault, files) => some (⟨r, heaps, .error (.file .opening path fault)⟩, files)
    | (.ok handle, files) =>
      match fs.size files handle with
      | (.error fault, files) => some (⟨r, heaps, .error (.file .sizeQuery path fault)⟩, files)
      | (.ok size, files) =>
        let terminated := r.flags.contains .nullTerminate
        let (room, heaps) := heaps.reserve r.heap (if terminated then size + 1 else size)
        let (events, files) := fs.read files handle
        (fetch terminated size events).map fun
          | .error fault => (⟨r, heaps.cancel room, .error (.file .reading path fault)⟩, files)
          | .ok (place, bytes) =>
            let (buffer, heaps) := heaps.fill room bytes
            (⟨{ r with buffer := some buffer, size := place }, heaps.releaseOption r.buffer,
              .ok ()⟩, files)

def write (fs : FileSystem) (files : fs.State) (heaps : Heaps) (r : Request) :
    Option (Staged × fs.State) :=
  let path := r.path.text
  match r.path.native with
  | .error e => some (⟨r, heaps, .error e⟩, files)
  | .ok native =>
    let (append, files) :=
      if r.flags.contains .appendMode then fs.isExtensible files native else (false, files)
    match fs.openToWrite files native (if append then .append else .truncate) with
    | (.error fault, files) => some (⟨r, heaps, .error (.file .opening path fault)⟩, files)
    | (.ok handle, files) =>
      match (if append then fs.seekEnd files handle else (.ok (), files)) with
      | (.error fault, files) => some (⟨r, heaps, .error (.file .seeking path fault)⟩, files)
      | (.ok (), files) =>
        (payload r).map fun payload ↦
          match fs.write files handle payload with
          | (.error fault, files) => (⟨r, heaps, .error (.file .writing path fault)⟩, files)
          | (.ok (), files) => (⟨{ r with size := payload.length }, heaps, .ok ()⟩, files)

def run (fs : FileSystem) (files : fs.State) (heaps : Heaps) (r : Request) :
    Option (Staged × fs.State) :=
  match r.operation with
  | .read => read fs files heaps r
  | .write => write fs files heaps r

theorem read_eq (files : fs.State) (heaps : Heaps) (r : Request) :
    read fs files heaps r = some (FileStage.read fs files heaps r) := by
  simp only [read, FileStage.read, fetch_eq]
  cases r.path.native with
  | error e => rfl
  | ok native =>
    cases ho : fs.openToRead files native with
    | mk answer files =>
      cases answer with
      | error fault => simp [ho]
      | ok handle =>
        cases hs : fs.size files handle with
        | mk answer files =>
          cases answer with
          | error fault => simp [ho, hs]
          | ok size =>
            cases hr : QueuedFiles.readFull size (fs.read files handle).1 with
            | error fault => simp [ho, hs, hr, Except.map]
            | ok data => simp [ho, hs, hr, Except.map]

theorem write_eq (files : fs.State) (heaps : Heaps) {r : Request} (hp : payload r = some r.payload) :
    write fs files heaps r = some (FileStage.write fs files heaps r) := by
  simp only [write, FileStage.write, hp, Option.map_some]
  repeat' split
  all_goals simp_all

theorem run_eq (files : fs.State) (heaps : Heaps) {r : Request} (hp : payload r = some r.payload) :
    run fs files heaps r = some (FileStage.run fs files heaps r) := by
  unfold run FileStage.run
  cases r.operation with
  | read => exact read_eq files heaps r
  | write => exact write_eq files heaps hp

/-- What a decompression leaves of the output it has offered to the codec: the bytes that count,
with a terminator behind them. -/
def output (max : Nat) (room : Reservation) (d : Decoded) : Option (Nat × Bytes) := do
  let out : Bytes := List.replicate room.length 0
  let offered ← out.upTo? max
  let out := d.written.fit offered.length ++ (← out.from? max)
  let size := match d.reported with
    | .ok n => min n max
    | .error _ => 0
  let out ← out.put? size Limits.terminator
  some (size, out.take (size + 1))

theorem output_eq {max : Nat} {room : Reservation} (hroom : room.length = max + 1) (d : Decoded) :
    output max room d = some (match d.reported with
      | .ok n => (min n max, d.written.fit (min n max) ++ [Limits.terminator])
      | .error _ => (0, [Limits.terminator])) := by
  have hcut : ∀ size, size ≤ max →
      ∃ out, (d.written.fit max ++ [0]).put? size Limits.terminator = some out ∧
        out.take (size + 1) = d.written.fit size ++ [Limits.terminator] := by
    intro size hsize
    have hlength : (d.written.fit size).length = size := Bytes.length_fit _ _
    have hsplit : d.written.fit max ++ [0] =
        d.written.fit size ++ ((d.written.fit max).drop size ++ [0]) := by
      rw [← Bytes.take_fit d.written hsize, ← List.append_assoc, List.take_append_drop]
    have hspare : 0 < ((d.written.fit max).drop size ++ [0]).length := by simp
    have hput := Bytes.terminated (d.written.fit size) hspare Limits.terminator
    rwa [← hsplit, hlength] at hput
  simp only [output, hroom, Bytes.upTo?, Bytes.from?, List.length_replicate, Nat.le_add_right,
    if_true, bind, Option.bind_some, List.take_replicate, List.drop_replicate,
    Nat.min_eq_left, Nat.add_sub_cancel_left, List.replicate_one]
  cases d.reported with
  | ok n =>
    obtain ⟨out, hput, htake⟩ := hcut (min n max) (Nat.min_le_right n max)
    simp only [hput, Option.bind_some, htake]
  | error e =>
    obtain ⟨out, hput, htake⟩ := hcut 0 (Nat.zero_le max)
    simp only [hput, Option.bind_some, htake, Bytes.fit_zero, List.nil_append]

def decompressed (max : Nat) (heaps : Heaps) (r : Request) (room : Reservation) (d : Decoded) :
    Option Staged :=
  (output max room d).map fun (size, bytes) ↦
    let (buffer, heaps) := heaps.fill room bytes
    ⟨{ r with buffer := some buffer, size := size }, heaps.releaseOption r.buffer,
      match d.reported with
      | .ok _ => .ok ()
      | .error e => .error (.decompression e)⟩

theorem decompressed_eq {max : Nat} {room : Reservation} (hroom : room.length = max + 1)
    (heaps : Heaps) (r : Request) (d : Decoded) :
    decompressed max heaps r room d =
      some (CodecStage.decompressed max heaps r room d.written d.reported) := by
  rw [decompressed, output_eq hroom]
  unfold CodecStage.decompressed
  cases d.reported with
  | ok n => rfl
  | error e => simp [Bytes.fit_zero]

end Checked

namespace Service

variable {fs : FileSystem} {codec : Codec}

/-- The stage that the next move of a worker ends, if it ends one and no access is out of range. -/
def checkedStage (s : Service fs codec) (lane : Lane) : Option (Option Staged) :=
  match lane, s.worker lane with
  | .file, .serving r => (Checked.run fs s.files s.heaps r).map fun staged ↦ some staged.1
  | .codec, .coding r none =>
    (Checked.payload r).map fun payload ↦
      match codec.compress s.codecState payload with
      | .returns answer _ =>
        some (CodecStage.compressed s.heaps r (CodecStage.checkedBlock codec.name r answer))
      | _ => none
  | .codec, .coding r (some room) =>
    let max := s.config.maxDecompressedSize.toNat
    (Checked.payload r).bind fun payload ↦
      match codec.decompress s.codecState payload max with
      | .returns d _ => (Checked.decompressed max s.heaps r room d).map some
      | _ => some none
  | _, _ => some (s.stage? lane)

theorem checkedStage_eq {s : Service fs codec} {lane : Lane}
    (hpayload : ∀ r ∈ (s.worker lane).requests, Checked.payload r = some r.payload)
    (hroom : ∀ r room, s.worker lane = .coding r (some room) →
      room.length = s.config.maxDecompressedSize.toNat + 1) :
    s.checkedStage lane = some (s.stage? lane) := by
  unfold checkedStage
  split
  · next r hw =>
    have hp := hpayload r (by simp [hw])
    simp [Checked.run_eq _ _ hp, stage?, hw]
  · next r hw =>
    have hp := hpayload r (by simp [hw])
    cases hc : codec.compress s.codecState r.payload <;> simp [hp, stage?, hw, hc]
  · next r room hw =>
    have hp := hpayload r (by simp [hw])
    have hlength := hroom r room hw
    cases hc : codec.decompress s.codecState r.payload s.config.maxDecompressedSize.toNat <;>
      simp [hp, Checked.decompressed_eq hlength, stage?, hw, hc]
  · rfl

end Service

end QueuedFiles
