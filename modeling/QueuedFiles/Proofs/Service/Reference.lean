import QueuedFiles.Proofs.Script
import QueuedFiles.Proofs.Service.Stage

/-!
Orders carried out one at a time, without queues, workers or heaps. What an order does is said in
terms of whole files, payloads and blocks, with the calls of the file system and the codec only; the
stages of the service are shown to do the same.
-/

namespace QueuedFiles

/-- What a caller gets for an order. -/
structure Reply where
  result : Except Error Unit
  /-- The whole buffer, its terminator included. -/
  bytes : Option Bytes
  size : Nat

def Outcome.reply (o : Outcome) : Reply := ⟨o.result, o.buffer.map (·.bytes), o.size⟩

/-- What a caller would get for a request as it stands. -/
def Request.reply (r : Request) : Reply := r.outcome.reply

@[simp] theorem Flags.contains_forRead (terminated compressed : Bool) :
    (forRead terminated compressed).contains .nullTerminate = terminated ∧
    (forRead terminated compressed).contains .useCompression = compressed := by
  cases terminated <;> cases compressed <;> decide

@[simp] theorem Flags.contains_forWrite (compressed append : Bool) :
    (forWrite compressed append).contains .useCompression = compressed ∧
    (forWrite compressed append).contains .appendMode = append := by
  cases compressed <;> cases append <;> decide

namespace Reference

section

variable (fs : FileSystem) (files : fs.State) (path : Path)

/-- The name that a path is for the file system: the path itself, unless it is empty or has a zero
character in it. -/
def name : Except Error String :=
  if path.text = "" then .error (.pathEncoding path.text .empty)
  else if '\x00' ∈ path.text.toList then .error (.pathEncoding path.text .nulByte)
  else .ok path.text

/-- A whole file of some size: all that the calls bring, as far as the size goes. A failure counts
if it comes before that much is there. -/
def content (size : Nat) (script : List ReadEvent) : Except Fault Bytes :=
  match failure? script with
  | some fault =>
    if (delivered script).length < size then .error fault else .ok ((delivered script).take size)
  | none => .ok ((delivered script).take size)

/-- The content of a file. -/
def readFile : Except Error Bytes × fs.State :=
  match name path with
  | .error e => (.error e, files)
  | .ok name =>
    match fs.openToRead files name with
    | (.error fault, files) => (.error (.file .opening path.text fault), files)
    | (.ok handle, files) =>
      match fs.size files handle with
      | (.error fault, files) => (.error (.file .sizeQuery path.text fault), files)
      | (.ok size, files) =>
        let (script, files) := fs.read files handle
        match content size script with
        | .error fault => (.error (.file .reading path.text fault), files)
        | .ok data => (.ok data, files)

/-- Bytes put into a file, in place of its content or behind it. -/
def writeFile (append : Bool) (payload : Bytes) : Except Error Unit × fs.State :=
  match name path with
  | .error e => (.error e, files)
  | .ok name =>
    let (extend, files) := if append then fs.isExtensible files name else (false, files)
    match fs.openToWrite files name (if extend then .append else .truncate) with
    | (.error fault, files) => (.error (.file .opening path.text fault), files)
    | (.ok handle, files) =>
      match (if extend then fs.seekEnd files handle else (.ok (), files)) with
      | (.error fault, files) => (.error (.file .seeking path.text fault), files)
      | (.ok (), files) =>
        match fs.write files handle payload with
        | (.error fault, files) => (.error (.file .writing path.text fault), files)
        | (.ok (), files) => (.ok (), files)

end

variable (codec : Codec.Pure)

/-- The block of a payload. A block of nothing for a payload of something counts as a failure. -/
def compress (bytes : Bytes) : Except Error Bytes :=
  match codec.compress bytes with
  | .error e => .error (.compression e)
  | .ok block =>
    if block.isEmpty ∧ 0 < bytes.length then
      .error (.compression (.emptyOutput codec.name bytes.length))
    else .ok block

/-- A block decompressed into at most `max` bytes, with a zero behind them: what the codec has
written, as far as it says, and zeros where it has written nothing. If as many bytes are more than a
word can count, it is not tried. -/
def decompress (max : Nat) (block : Bytes) : Reply :=
  if UInt64.size ≤ max + 1 then ⟨.error (.decompression (.outputTooLarge max)), some [0], 0⟩
  else
    let d := codec.decompress block max
    match d.reported with
    | .error e => ⟨.error (.decompression e), some [0], 0⟩
    | .ok n =>
      let size := min n max
      ⟨.ok (), some ((d.written ++ List.replicate size 0).take size ++ [0]), size⟩

/-- What a write puts into its file, and the failure of its compression. -/
def payload (bytes : Bytes) (compressed : Bool) : Bytes × Except Error Unit :=
  if compressed then
    match compress codec bytes with
    | .ok block => (block, .ok ())
    | .error e => ([], .error e)
  else (bytes, .ok ())

/-- What a request has when its order comes in. -/
def draft : Order → Reply
  | .read .. => ⟨.ok (), none, 0⟩
  | .write _ bytes _ _ => ⟨.ok (), some bytes, bytes.length⟩

/-- What a request has when it comes to its file. -/
def encoded : Order → Reply
  | .read .. => ⟨.ok (), none, 0⟩
  | .write _ bytes compressed _ =>
    ⟨(payload codec bytes compressed).2, some (payload codec bytes compressed).1,
      (payload codec bytes compressed).1.length⟩

/-- One order, from beginning to end. A write whose compression has failed writes nothing, and its
last failure is the one that counts. -/
def execute (fs : FileSystem) (max : Nat) (files : fs.State) : Order → Reply × fs.State
  | .read path _ terminated compressed =>
    match readFile fs files ⟨path⟩ with
    | (.error e, files) => (⟨.error e, none, 0⟩, files)
    | (.ok data, files) =>
      if compressed then (decompress codec max data, files)
      else
        (⟨.ok (), some (if terminated then data ++ [0] else data), data.length⟩, files)
  | .write path bytes compressed append =>
    let (data, coded) := payload codec bytes compressed
    match writeFile fs files ⟨path⟩ append data with
    | (.error e, files) => (⟨.error e, some data, data.length⟩, files)
    | (.ok (), files) => (⟨coded, some data, data.length⟩, files)

/-- Orders with their numbers, one at a time: the replies, and the files behind the last. -/
def sequence (fs : FileSystem) (max : Nat) (files : fs.State) :
    List (Nat × Order) → List (Nat × Reply) × fs.State
  | [] => ([], files)
  | (id, o) :: rest =>
    let (reply, files) := execute codec fs max files o
    let (replies, files) := sequence fs max files rest
    ((id, reply) :: replies, files)

theorem name_eq (path : Path) : name path = path.native := by
  simp only [name, Path.native, String.isEmpty_iff, List.contains_iff_mem]

/-- However the calls cut a file into pieces, reading it brings the whole of it. -/
theorem content_eq (size : Nat) (script : List ReadEvent) :
    content size script = readFull size script := by
  unfold content
  cases hf : failure? script with
  | none =>
    exact (readFull_of_not_breaksOff fun fault hb ↦ by simp [breaksOff_iff, hf] at hb).symm
  | some fault =>
    dsimp only
    split
    · next hlt => exact (readFull_eq_error_iff.2 (breaksOff_iff.2 ⟨hf, hlt⟩)).symm
    · next hlt => exact (readFull_of_not_breaksOff fun _ hb ↦ hlt (breaksOff_iff.1 hb).2).symm

theorem decompress_of_capacity {max : Nat} (hc : CodecStage.capacity? max ≠ none) (block : Bytes) :
    decompress codec max block = match (codec.decompress block max).reported with
      | .error e => ⟨.error (.decompression e), some [0], 0⟩
      | .ok n => ⟨.ok (), some (Bytes.fit (codec.decompress block max).written (min n max) ++ [0]),
          min n max⟩ := by
  have hroom : ¬ UInt64.size ≤ max + 1 := fun hge ↦ hc (if_neg (Nat.not_lt.2 hge))
  rw [decompress, if_neg hroom]
  simp only [Bytes.fit_eq]

theorem encoded_of_plain {o : Order}
    (h : o.operation = .read ∨ o.flags.contains .useCompression = false) :
    encoded codec o = draft o := by
  cases o with
  | read => rfl
  | write path bytes compressed append =>
    rcases h with h | h
    · cases h
    · obtain rfl : compressed = false := by simpa [Order.flags] using h
      rfl

variable {fs : FileSystem} (max : Nat) (files : fs.State)

theorem sequence_append (os os' : List (Nat × Order)) :
    sequence codec fs max files (os ++ os') =
      ((sequence codec fs max files os).1 ++
        (sequence codec fs max (sequence codec fs max files os).2 os').1,
        (sequence codec fs max (sequence codec fs max files os).2 os').2) := by
  induction os generalizing files with
  | nil => rfl
  | cons e os ih => simp only [List.cons_append, sequence, ih]

theorem sequence_snoc (os : List (Nat × Order)) (id : Nat) (o : Order) :
    sequence codec fs max files (os ++ [(id, o)]) =
      ((sequence codec fs max files os).1 ++
        [(id, (execute codec fs max (sequence codec fs max files os).2 o).1)],
        (execute codec fs max (sequence codec fs max files os).2 o).2) := by
  rw [sequence_append]
  rfl

theorem mem_sequence (before after : List (Nat × Order)) (id : Nat) (o : Order) :
    (id, (execute codec fs max (sequence codec fs max files before).2 o).1) ∈
      (sequence codec fs max files (before ++ (id, o) :: after)).1 := by
  rw [sequence_append]
  exact List.mem_append_right _ (List.mem_cons_self ..)

theorem execute_compressed {path : String} {k : HeapId} {terminated : Bool} {data : Bytes}
    (hdata : (readFile fs files ⟨path⟩).1 = .ok data) :
    (execute codec fs max files (.read path k terminated true)).1 = decompress codec max data := by
  cases hc : readFile fs files ⟨path⟩ with
  | mk answer after =>
    rw [hc] at hdata
    subst hdata
    simp [execute, hc]

theorem map_fst_sequence (os : List (Nat × Order)) :
    (sequence codec fs max files os).1.map (·.1) = os.map (·.1) := by
  induction os generalizing files with
  | nil => rfl
  | cons e os ih => simp only [sequence, List.map_cons, ih]

end Reference

/-- What the caller would get for a request as it leaves a stage. -/
def Staged.reply (staged : Staged) : Reply :=
  ⟨match staged.result with
    | .ok () => staged.request.result
    | .error e => .error e, staged.request.buffer.map (·.bytes), staged.request.size⟩

theorem Staged.reply_routed (staged : Staged) (lane : Lane) :
    (staged.routed lane).reply = staged.reply := by
  have hsettled : staged.settled.reply = staged.reply := by
    cases hr : staged.result <;>
      simp [reply, settled, hr, Request.reply, Request.outcome, Outcome.reply, Request.fail]
  rw [← hsettled]
  unfold routed
  cases staged.next lane <;> rfl

namespace FileStage

variable {fs : FileSystem} (files : fs.State) (heaps : Heaps) (r : Request)

theorem read_eq :
    (read fs files heaps r).2 = (Reference.readFile fs files r.path).2 ∧
    match (Reference.readFile fs files r.path).1 with
    | .error e => (read fs files heaps r).1.result = .error e ∧
        (read fs files heaps r).1.request = r
    | .ok data => (read fs files heaps r).1.result = .ok () ∧
        ∃ b, (read fs files heaps r).1.request = { r with buffer := some b, size := data.length } ∧
          b.bytes = if r.flags.contains .nullTerminate then data ++ [Limits.terminator] else data := by
  simp only [read, Reference.readFile, Reference.name_eq, Reference.content_eq]
  cases r.path.native with
  | error e => simp
  | ok native =>
    cases ho : fs.openToRead files native with
    | mk answer files =>
      cases answer with
      | error fault => simp [ho]
      | ok handle =>
        cases hs : fs.size files handle with
        | mk answer files =>
          cases answer with
          | error fault => simp [ho, hs]
          | ok size =>
            cases hr : readFull size (fs.read files handle).1 with
            | error fault => simp [ho, hs, hr]
            | ok data => simp [ho, hs, hr, Heaps.fill]

/-- What a write leaves: a success sets the size to what has been written. -/
theorem write_reference :
    write fs files heaps r =
      (⟨match (Reference.writeFile fs files r.path (r.flags.contains .appendMode) r.payload).1 with
        | .ok () => { r with size := r.payload.length }
        | .error _ => r, heaps,
        (Reference.writeFile fs files r.path (r.flags.contains .appendMode) r.payload).1⟩,
        (Reference.writeFile fs files r.path (r.flags.contains .appendMode) r.payload).2) := by
  simp only [write, Reference.writeFile, Reference.name_eq]
  repeat' split
  all_goals simp_all

theorem write_eq (hsize : r.payload.length = r.size) :
    write fs files heaps r =
      (⟨r, heaps, (Reference.writeFile fs files r.path (r.flags.contains .appendMode) r.payload).1⟩,
        (Reference.writeFile fs files r.path (r.flags.contains .appendMode) r.payload).2) := by
  rw [write_reference, hsize]
  split <;> rfl

theorem run_read {path : String} {k : HeapId} {terminated compressed : Bool}
    (hop : r.operation = .read) (hpath : r.path = ⟨path⟩)
    (hflags : r.flags = .forRead terminated compressed) (codec : Codec.Pure) (max : Nat)
    (hr : r.reply = Reference.encoded codec (.read path k terminated compressed)) :
    (run fs files heaps r).2 =
      (Reference.execute codec fs max files (.read path k terminated compressed)).2 ∧
    match (run fs files heaps r).1.next .file with
    | .complete => (run fs files heaps r).1.reply =
        (Reference.execute codec fs max files (.read path k terminated compressed)).1
    | .handOff _ => compressed = true ∧ ∃ data, (Reference.readFile fs files ⟨path⟩).1 = .ok data ∧
        (run fs files heaps r).1.result = .ok () ∧ (run fs files heaps r).1.request.result = .ok () ∧
        (run fs files heaps r).1.request.payload = data := by
  have hrun : run fs files heaps r = read fs files heaps r := by simp [run, hop]
  obtain ⟨hres, hbuf, hsize⟩ : r.result = .ok () ∧ r.buffer = none ∧ r.size = 0 := by
    simpa [Request.reply, Request.outcome, Outcome.reply, Reference.encoded] using hr
  have heq := read_eq files heaps r
  rw [hpath] at heq
  rw [hrun]
  cases hc : Reference.readFile fs files ⟨path⟩ with
  | mk answer after =>
    rw [hc] at heq
    cases answer with
    | error e =>
      obtain ⟨hfiles, hresult, hreq⟩ := heq
      have hnext : (read fs files heaps r).1.next .file = .complete := by
        simp [Staged.next, hresult, hreq, hop, nextAfter, Except.isOk, Except.toBool]
      rw [hnext]
      refine ⟨by simp [Reference.execute, hc, hfiles], ?_⟩
      simp [Staged.reply, hresult, hreq, Reference.execute, hc, hbuf, hsize]
    | ok data =>
      obtain ⟨hfiles, hresult, b, hreq, hb⟩ := heq
      cases compressed with
      | false =>
        have hnext : (read fs files heaps r).1.next .file = .complete := by
          simp [Staged.next, hresult, hreq, hop, hflags, nextAfter]
        rw [hnext]
        refine ⟨by simp [Reference.execute, hc, hfiles], ?_⟩
        simp [Staged.reply, hresult, hreq, Reference.execute, hc, hres, hb, hflags, Limits.terminator]
      | true =>
        have hnext : (read fs files heaps r).1.next .file = .handOff .codec := by
          simp [Staged.next, hresult, hreq, hop, hflags, nextAfter, Except.isOk, Except.toBool]
        rw [hnext]
        refine ⟨by simp [Reference.execute, hc, hfiles], rfl, data, rfl, hresult, ?_, ?_⟩
        · simp [hreq, hres]
        · cases terminated <;> simp [hreq, Request.payload, hb, hflags]

theorem run_write {path : String} {bytes : Bytes} {compressed append : Bool}
    (hop : r.operation = .write) (hpath : r.path = ⟨path⟩)
    (hflags : r.flags = .forWrite compressed append) (codec : Codec.Pure) (max : Nat)
    (hr : r.reply = Reference.encoded codec (.write path bytes compressed append)) :
    (run fs files heaps r).2 =
      (Reference.execute codec fs max files (.write path bytes compressed append)).2 ∧
    (run fs files heaps r).1.reply =
      (Reference.execute codec fs max files (.write path bytes compressed append)).1 := by
  obtain ⟨hres, ⟨b, hb, hbytes⟩, hsize⟩ : r.result = (Reference.payload codec bytes compressed).2 ∧
      (∃ b, r.buffer = some b ∧ b.bytes = (Reference.payload codec bytes compressed).1) ∧
      r.size = (Reference.payload codec bytes compressed).1.length := by
    simpa [Request.reply, Request.outcome, Outcome.reply, Reference.encoded] using hr
  have hpay : r.payload = (Reference.payload codec bytes compressed).1 := by
    simp [Request.payload, hb, hbytes, hsize]
  have hrun : run fs files heaps r = write fs files heaps r := by simp [run, hop]
  rw [hrun, write_eq files heaps r (by rw [hpay, hsize]), hpath, hflags, hpay]
  simp only [Flags.contains_forWrite, Reference.execute, Staged.reply, hb, hres, hsize,
    Option.map_some, hbytes]
  cases Reference.writeFile fs files ⟨path⟩ append (Reference.payload codec bytes compressed).1 with
  | mk answer after => cases answer <;> exact ⟨rfl, rfl⟩

end FileStage

namespace CodecStage

variable (codec : Codec.Pure) (max : Nat) (heaps : Heaps) (r : Request)

theorem compressed_eq (hsize : r.payload.length = r.size) {staged : Staged}
    (hs : staged = compressed heaps r (checkedBlock codec.name r (codec.compress r.payload))) :
    staged.result = (Reference.payload codec r.payload true).2 ∧
    staged.request.result = r.result ∧
    staged.request.buffer.map (·.bytes) = some (Reference.payload codec r.payload true).1 ∧
    staged.request.size = (Reference.payload codec r.payload true).1.length := by
  subst hs
  simp only [checkedBlock, Reference.payload, Reference.compress, hsize]
  cases codec.compress r.payload with
  | error e => simp [compressed, Heaps.alloc, Heaps.adopt]
  | ok block =>
    by_cases he : block.isEmpty ∧ 0 < r.size
    · simp only [if_pos he]
      simp [compressed, Heaps.alloc, Heaps.adopt]
    · simp only [if_neg he]
      simp [compressed, Heaps.adopt]

theorem compressed_reply {path : String} {bytes : Bytes} {compressed append : Bool}
    (hr : r.reply = Reference.draft (.write path bytes compressed append)) :
    (CodecStage.compressed heaps r (checkedBlock codec.name r (codec.compress r.payload))).reply =
      Reference.encoded codec (.write path bytes true append) := by
  obtain ⟨hres, ⟨b, hb, hbytes⟩, hsize⟩ :
      r.result = .ok () ∧ (∃ b, r.buffer = some b ∧ b.bytes = bytes) ∧ r.size = bytes.length := by
    simpa [Request.reply, Request.outcome, Outcome.reply, Reference.draft] using hr
  have hpay : r.payload = bytes := by simp [Request.payload, hb, hbytes, hsize]
  obtain ⟨hresult, hkept, hbuffer, hlength⟩ :=
    compressed_eq codec heaps r (by rw [hpay, hsize]) rfl
  rw [Staged.reply, hbuffer, hlength, hresult, hkept, hres, hpay]
  simp only [Reference.encoded]
  cases (Reference.payload codec bytes true).2 <;> rfl

theorem overflow_eq (hc : capacity? max = none) (data : Bytes) :
    (overflow max heaps r).reply = Reference.decompress codec max data := by
  have hge : UInt64.size ≤ max + 1 := by
    refine Nat.not_lt.1 fun hlt ↦ ?_
    rw [capacity?, if_pos hlt] at hc
    cases hc
  rw [Reference.decompress, if_pos hge]
  rfl

theorem decompressed_eq (hc : capacity? max ≠ none) (hr : r.result = .ok ()) (room : Reservation)
    {d : Decoded} (hd : d = codec.decompress r.payload max) :
    (decompressed max heaps r room d.written d.reported).reply =
      Reference.decompress codec max r.payload := by
  subst hd
  rw [Reference.decompress_of_capacity codec hc]
  cases he : (codec.decompress r.payload max).reported with
  | error e => simp [decompressed, Staged.reply, Heaps.fill, Bytes.fit, Limits.terminator]
  | ok n => simp [decompressed, Staged.reply, Heaps.fill, hr, Limits.terminator]

end CodecStage

end QueuedFiles
