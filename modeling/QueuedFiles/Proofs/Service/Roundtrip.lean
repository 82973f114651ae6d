import QueuedFiles.Block.Samples
import QueuedFiles.Proofs.Block.Roundtrip
import QueuedFiles.Proofs.Disk
import QueuedFiles.Proofs.Service.Effort
import QueuedFiles.Proofs.Service.Linear

/-!
What is written through the codec comes back through the codec: the block is in the file, and a read
behind the write gets the payload with a terminator, or is told that it is too large. A device or a
pipe keeps nothing, so there it does not.
-/

namespace QueuedFiles

namespace Reference

/-- What a compressed read gets out of the block of some bytes. -/
def restored (max : Nat) (bytes : Bytes) : Reply :=
  if bytes.length ≤ max then ⟨.ok (), some (bytes ++ [Limits.terminator]), bytes.length⟩
  else ⟨.error (.decompression (.outputTooLarge max)), some [Limits.terminator], 0⟩

variable {codec : Codec.Pure} {max : Nat} {bytes block : Bytes} {d : Disk} {path : String}

theorem decompress_restored (hf : codec.Faithful) (hb : codec.compress bytes = .ok block)
    (hroom : CodecStage.capacity? max ≠ none) :
    decompress codec max block = restored max bytes := by
  rw [decompress_of_capacity codec hroom, restored]
  by_cases hfit : bytes.length ≤ max
  · obtain ⟨hlength, hback⟩ := hf.restores hb hfit
    rw [Bytes.take_fit _ hfit] at hback
    simp only [hlength, if_pos hfit, Nat.min_eq_left hfit, hback, Limits.terminator]
  · simp only [hf.refuses hb (Nat.not_le.1 hfit), if_neg hfit, Limits.terminator]

theorem payload_of_ok (hok : (payload codec bytes true).2 = .ok ()) :
    ∃ block, codec.compress bytes = .ok block ∧ payload codec bytes true = (block, .ok ()) := by
  simp only [payload, compress, if_true] at hok ⊢
  cases hc : codec.compress bytes with
  | error fault => simp [hc] at hok
  | ok block =>
    refine ⟨block, rfl, ?_⟩
    by_cases hempty : block.isEmpty ∧ 0 < bytes.length
    · simp only [hc, if_pos hempty] at hok
      cases hok
    · simp only [if_neg hempty]

/-- A compressed write that goes through leaves the block of its payload, and nothing else. -/
theorem execute_written (hp : d.Plain (d.locate path))
    (hok : (execute codec Disk.fileSystem max d (.write path bytes true false)).1.result = .ok ()) :
    ∃ block, codec.compress bytes = .ok block ∧
      (execute codec Disk.fileSystem max d (.write path bytes true false)).1 =
        ⟨.ok (), some block, block.length⟩ ∧
      (execute codec Disk.fileSystem max d (.write path bytes true false)).2.Holds path block ∧
      Path.native ⟨path⟩ = .ok path := by
  have hwritten (hw : (writeFile Disk.fileSystem d ⟨path⟩ false (payload codec bytes true).1).1 =
      .ok ()) := Disk.writeFile_holds hp hw
  simp only [execute] at hok ⊢
  cases hw : writeFile Disk.fileSystem d ⟨path⟩ false (payload codec bytes true).1 with
  | mk answer e =>
    rw [hw] at hwritten
    cases answer with
    | error fault => simp [hw] at hok
    | ok =>
      obtain ⟨hholds, hnative⟩ := hwritten rfl
      simp only [hw] at hok
      obtain ⟨block, hb, hpay⟩ := payload_of_ok hok
      rw [hpay] at hholds ⊢
      exact ⟨block, hb, rfl, hholds, hnative⟩

theorem execute_restored {k : HeapId} {terminated : Bool} (h : d.Holds path block)
    (hn : Path.native ⟨path⟩ = .ok path) (hf : codec.Faithful)
    (hb : codec.compress bytes = .ok block) (hroom : CodecStage.capacity? max ≠ none) :
    (execute codec Disk.fileSystem max d (.read path k terminated true)).1 = restored max bytes := by
  have hdata : (readFile Disk.fileSystem d ⟨path⟩).1 = .ok block := by rw [h.readFile hn]
  exact (@execute_compressed codec Disk.fileSystem max d path k terminated block hdata).trans
    (decompress_restored hf hb hroom)

theorem holds_behind {os more : List (Nat × Order)}
    (h : (sequence codec Disk.fileSystem max d os).2.Holds path block)
    (hno : ∀ e ∈ more, e.2.operation = .write → d.locate e.2.path ≠ d.locate path) :
    (sequence codec Disk.fileSystem max d (os ++ more)).2.Holds path block := by
  have hgrows := (Disk.sequence_keeps codec max d os).1
  have hmore := h.sequence codec max more fun e he hop ↦ by
    rw [hgrows.locate, hgrows.locate]
    exact hno e he hop
  have hsplit := congrArg Prod.snd (@sequence_append codec Disk.fileSystem max d os more)
  exact hsplit ▸ hmore

end Reference

theorem mem_of_behind {α : Type} {l l' : List α} {a b : α} (hn : (l ++ a :: l').Nodup)
    (h : [a, b].Sublist (l ++ a :: l')) : b ∈ l' := by
  have ha : a ∉ l := fun ha ↦ (List.disjoint_of_nodup_append hn) ha (List.mem_cons_self ..)
  obtain ⟨k, k', hk, hl, hl'⟩ := List.sublist_append_iff.1 h
  cases k with
  | nil =>
    obtain rfl : [a, b] = k' := hk
    exact List.singleton_sublist.1 (List.cons_sublist_cons.1 hl')
  | cons x k =>
    obtain rfl : a = x := (List.cons.inj hk).1
    exact absurd (hl.subset (List.mem_cons_self ..)) ha

/-- No write to the location of a path comes to the file worker between two requests. -/
def Undisturbed (files : Disk) (path : String) (log : List Incident) (w r : Nat) : Prop :=
  ∀ id o, .entered id o ∈ log → o.operation = .write → files.locate o.path = files.locate path →
    ¬ [w, id, r].Sublist ((processed log).map (·.1))

theorem undisturbed_of_length {files : Disk} {path : String} {log : List Incident} {w r : Nat}
    (h : (processed log).length ≤ 2) : Undisturbed files path log w r := by
  intro id o _ _ _ hsub
  have hle := hsub.length_le
  simp only [List.length_cons, List.length_nil, List.length_map] at hle
  omega

theorem undisturbed_of_forall {files : Disk} {path : String} {log : List Incident} {w r : Nat}
    (h : ∀ id ∈ (processed log).map (·.1), ¬ [w, id, r].Sublist ((processed log).map (·.1))) :
    Undisturbed files path log w r :=
  fun id _ _ _ _ hsub ↦ h id (hsub.subset (by simp)) hsub

/-- No write to the location of a path has come to the file worker behind a request. -/
def Latest (files : Disk) (path : String) (log : List Incident) (w : Nat) : Prop :=
  ∀ id o, .entered id o ∈ log → o.operation = .write → files.locate o.path = files.locate path →
    ¬ [w, id].Sublist ((processed log).map (·.1))

namespace Service

section

variable {fs : FileSystem} {codec : Codec.Pure} {config : Config} {heap : HeapId} {heaps : Heaps}
  {files : fs.State} {codecState : Codec.State (.ofPure codec)} {log : List Incident}
  {s : Service fs (.ofPure codec)} {id : Nat} {o : Order} {left : Outcome}
  {before after : List (Nat × Order)}

theorem Run.turn (h : Run (fresh config heap heaps files codecState) log s)
    (ho : .entered id o ∈ log) (hl : .published id left ∈ log) : (id, o) ∈ processed log := by
  have hid := h.filed_of_published (mem_published.2 ⟨left, hl⟩)
  rw [← h.processed_ids] at hid
  obtain ⟨⟨k, o'⟩, he, hk⟩ := List.mem_map.1 hid
  obtain rfl : k = id := hk
  rwa [h.census.order_unique ho (h.entered_of_processed he)]

/-- The outcome of a request is what its order gets behind all orders before it. -/
theorem Run.reply_at (h : Run (fresh config heap heaps files codecState) log s)
    (hl : .published id left ∈ log) (hp : processed log = before ++ (id, o) :: after) :
    left.reply = (Reference.execute codec fs config.maxDecompressedSize.toNat
      (Reference.sequence codec fs config.maxDecompressedSize.toNat files before).2 o).1 := by
  have hreplied := h.replied hl
  have hmem := Reference.mem_sequence codec config.maxDecompressedSize.toNat files before after id o
  rw [← hp] at hmem
  have hn := h.processed_nodup
  rw [← Reference.map_fst_sequence codec config.maxDecompressedSize.toNat files] at hn
  exact congrArg Prod.snd (List.inj_on_of_nodup_map hn hreplied hmem rfl)

end

theorem capacity_of_validate {config : Config} (h : config.validate = .ok ()) :
    CodecStage.capacity? config.maxDecompressedSize.toNat ≠ none := by
  have hbound := (bounds_of_validate h).2.2
  have hroom : config.maxDecompressedSize.toNat + 1 < UInt64.size := by
    unfold Limits.decompressedSizeCeiling at hbound
    unfold UInt64.size
    omega
  simp [CodecStage.capacity?, hroom]

section

variable {codec : Codec.Pure} {config : Config} {heap : HeapId} {heaps : Heaps} {files : Disk}
  {codecState : Codec.State (.ofPure codec)} {log : List Incident}
  {s : Service Disk.fileSystem (.ofPure codec)} {path : String} {bytes block : Bytes} {w r : Nat}
  {left out : Outcome} {k : HeapId} {terminated : Bool}

/-- A write has had its turn, and has left the block of some bytes in the file of a path. -/
structure Deposited (codec : Codec.Pure) (max : Nat) (files : Disk) (log : List Incident) (w : Nat)
    (path : String) (bytes block : Bytes) : Prop where
  compressed : codec.compress bytes = .ok block
  native : Path.native ⟨path⟩ = .ok path
  turn : ∃ before o after, processed log = before ++ (w, o) :: after ∧
    (Reference.sequence codec Disk.fileSystem max files (before ++ [(w, o)])).2.Holds path block

theorem Run.deposited (h : Run (fresh config heap heaps files codecState) log s)
    (hp : files.Plain (files.locate path)) (hw : .entered w (.write path bytes true false) ∈ log)
    (hl : .published w left ∈ log) (hok : left.result = .ok ()) :
    ∃ block, Deposited codec config.maxDecompressedSize.toNat files log w path bytes block ∧
      left.reply = ⟨.ok (), some block, block.length⟩ := by
  obtain ⟨before, after, hturn⟩ := List.append_of_mem (h.turn hw hl)
  have hreply := h.reply_at hl hturn
  obtain ⟨hgrows, hplain⟩ := Disk.sequence_keeps codec config.maxDecompressedSize.toNat files before
  have hp' := hplain _ hp
  rw [← hgrows.locate path] at hp'
  have hres : left.reply.result = .ok () := hok
  rw [hreply] at hres
  obtain ⟨block, hb, hwrite, hholds, hnative⟩ := Reference.execute_written hp' hres
  have hsnoc := congrArg Prod.snd (@Reference.sequence_snoc codec Disk.fileSystem
    config.maxDecompressedSize.toNat files before w (.write path bytes true false))
  exact ⟨block, ⟨hb, hnative, before, _, after, hturn, hsnoc ▸ hholds⟩, hreply.trans hwrite⟩

/-- A request has had its turn, and has left a file with this content at a path. -/
def Saved (codec : Codec.Pure) (max : Nat) (files : Disk) (log : List Incident) (w : Nat)
    (path : String) (content : Bytes) : Prop :=
  ∃ before o after, processed log = before ++ (w, o) :: after ∧
    (Reference.sequence codec Disk.fileSystem max files (before ++ [(w, o)])).2.Holds path content

/-- A turn that is over stays as it was. -/
theorem Run.saved_append (h : Run (fresh config heap heaps files codecState) log s) {max : Nat}
    {content : Bytes} (hl : Saved codec max files log w path content) (more : List Incident) :
    Saved codec max files (log ++ more) w path content := by
  obtain ⟨before, o, after, hturn, hholds⟩ := hl
  have hmore := h.processed_append more
  rw [hturn, List.append_assoc, List.cons_append] at hmore
  exact ⟨before, o, _, hmore, hholds⟩

theorem Run.content_kept (h : Run (fresh config heap heaps files codecState) log s) {content : Bytes}
    (hl : Saved codec config.maxDecompressedSize.toNat files log w path content)
    (hno : Latest files path log w) : s.files.inspect path = some (.file content) := by
  obtain ⟨before, o, after, hturn, hholds⟩ := hl
  have hall : processed log = before ++ [(w, o)] ++ after := by simp [hturn]
  have hfiles := h.replayed config.maxDecompressedSize.toNat
  rw [hall] at hfiles
  refine Disk.Holds.inspect (hfiles ▸ Reference.holds_behind hholds ?_)
  intro e he hop hloc
  refine hno e.1 e.2 (h.entered_of_processed (by simp [hturn, he])) hop hloc ?_
  rw [hall, List.map_append]
  exact (List.singleton_sublist.2 (by simp)).append
    (List.singleton_sublist.2 (List.mem_map_of_mem he))

theorem Run.block_kept (h : Run (fresh config heap heaps files codecState) log s)
    (hd : Deposited codec config.maxDecompressedSize.toNat files log w path bytes block)
    (hno : Latest files path log w) : s.files.inspect path = some (.file block) :=
  h.content_kept hd.turn hno

/-- What is submitted behind a request finds the content that this has left, if nothing was written
there in between. -/
theorem Run.turn_behind (h : Run (fresh config heap heaps files codecState) log s) {content : Bytes}
    {o : Order} (hl : Saved codec config.maxDecompressedSize.toNat files log w path content)
    (hbehind : [.published w left, .entered r o].Sublist log) (hout : .published r out ∈ log)
    (hno : Undisturbed files path log w r) :
    ∃ before after, processed log = before ++ (r, o) :: after ∧
      (Reference.sequence codec Disk.fileSystem config.maxDecompressedSize.toNat files before).2.Holds
        path content := by
  obtain ⟨before, ow, after, hturn, hholds⟩ := hl
  have hentered : .entered r o ∈ log := hbehind.subset (by simp)
  -- What is complete before another request is submitted precedes it.
  have horder := h.precedes hbehind rfl rfl (h.filed_of_published (mem_published.2 ⟨out, hout⟩))
  have hnodup := h.processed_nodup
  rw [← h.processed_ids] at horder
  rw [hturn, List.map_append, List.map_cons] at horder hnodup
  obtain ⟨⟨r', o'⟩, he, hr'⟩ := List.mem_map.1 (mem_of_behind hnodup horder)
  obtain rfl : r' = r := hr'
  have hprocessed : (r', o') ∈ processed log := by simp [hturn, he]
  obtain rfl := h.census.order_unique hentered (h.entered_of_processed hprocessed)
  obtain ⟨between, rest, rfl⟩ := List.append_of_mem he
  have hcut : processed log = (before ++ [(w, ow)] ++ between) ++ (r', o) :: rest := by simp [hturn]
  refine ⟨_, rest, hcut, Reference.holds_behind hholds ?_⟩
  intro e he hop hloc
  refine hno e.1 e.2 (h.entered_of_processed (by simp [hcut, he])) hop hloc ?_
  rw [hcut, List.map_append, List.map_append]
  exact ((List.singleton_sublist.2 (by simp)).append
    (List.singleton_sublist.2 (List.mem_map_of_mem he))).append (List.singleton_sublist.2 (by simp))

theorem Run.read_restored (h : Run (fresh config heap heaps files codecState) log s)
    (hf : codec.Faithful) (hv : config.validate = .ok ())
    (hd : Deposited codec config.maxDecompressedSize.toNat files log w path bytes block)
    (hbehind : [.published w left, .entered r (.read path k terminated true)].Sublist log)
    (hout : .published r out ∈ log) (hno : Undisturbed files path log w r) :
    out.reply = Reference.restored config.maxDecompressedSize.toNat bytes := by
  obtain ⟨before, after, hturn, hholds⟩ := h.turn_behind hd.turn hbehind hout hno
  rw [h.reply_at hout hturn]
  exact Reference.execute_restored hholds hd.native hf hd.compressed (capacity_of_validate hv)

/-- What becomes of a compressed read behind a compressed write of some bytes to the same path. -/
structure ReadsBack (files : Disk) (path : String) (bytes : Bytes) (log : List Incident)
    (s : Service Disk.fileSystem (.ofPure codec)) (w r : Nat) : Prop where
  reply : ∀ out, .published r out ∈ log → Undisturbed files path log w r →
    out.reply = Reference.restored s.config.maxDecompressedSize.toNat bytes
  /-- It does come to its end: the workers have so many moves at most, in any order, and when they
  have no more, then it is complete, or its push gets in. -/
  completes : (inFlight log).length ≤ s.config.queueCapacity.toNat + 1 →
    ∀ (lanes : List Lane) more t, s.follow (lanes.map .work) = some (more, t) →
      lanes.length ≤ s.movesLeft ∧
      ((∀ lane, t.work lane = none) → (∃ u, t.push r = some (.ok (), u)) ∨
        .signaled r ∈ log ++ more ∧ ∃ out, .published r out ∈ log ++ more ∧
          (Undisturbed files path (log ++ more) w r →
            out.reply = Reference.restored s.config.maxDecompressedSize.toNat bytes))

/-- The round trip, from any files on, in every state that can be reached and with every codec that
is faithful, as LZ4 is. -/
theorem round_trip :
    Lz4.codec.Faithful ∧
    ∀ {codec : Codec.Pure} {config : Config} {heap : HeapId} {heaps : Heaps} {files : Disk}
      {log : List Incident} {s : Service Disk.fileSystem (.ofPure codec)} {path : String}
      {bytes : Bytes} {w : Nat} {left : Outcome}, codec.Faithful → config.validate = .ok () →
      Run (fresh config heap heaps files ()) log s → files.Plain (files.locate path) →
      .entered w (.write path bytes true false) ∈ log → .published w left ∈ log →
      left.result = .ok () →
      ∃ block, codec.compress bytes = .ok block ∧
        left.reply = ⟨.ok (), some block, block.length⟩ ∧
        (Latest files path log w → s.files.inspect path = some (.file block)) ∧
        ∀ r k terminated,
          [.published w left, .entered r (.read path k terminated true)].Sublist log →
          ReadsBack files path bytes log s w r := by
  refine ⟨Lz4.codec_faithful, ?_⟩
  intro codec config heap heaps files log s path bytes w left hf hv h hp hw hl hok
  obtain ⟨block, hd, hreply⟩ := h.deposited hp hw hl hok
  refine ⟨block, hd.compressed, hreply, h.block_kept hd, ?_⟩
  intro r k terminated hbehind
  have hconfig := h.frame.1
  have hread : .entered r (.read path k terminated true) ∈ log := hbehind.subset (by simp)
  constructor
  · intro out hout hno
    rw [hconfig]
    exact h.read_restored hf hv hd hbehind hout hno
  · intro hrule lanes more t hmoves
    rw [hconfig] at hrule ⊢
    have hcapacity := (bounds_of_validate hv).1
    obtain ⟨hle, hend⟩ := h.read_goes_on (Codec.ofPure_returns codec) (by omega) hread rfl hmoves
    refine ⟨hle, fun hrest ↦ (hend hrest).imp_right fun hsignaled ↦ ⟨hsignaled, ?_⟩⟩
    have ht := h.trans (.of_follow hmoves)
    obtain ⟨out, hout⟩ := mem_published.1 (ht.published_of_completes hsignaled rfl)
    refine ⟨out, hout, fun hno ↦ ?_⟩
    obtain ⟨block', hd', -⟩ :=
      ht.deposited hp (List.mem_append_left more hw) (List.mem_append_left more hl) hok
    exact ht.read_restored hf hv hd' (hbehind.trans (List.sublist_append_left log more)) hout hno

end

/-- A service on a disk that is empty but for the devices, with LZ4 and one heap. -/
def onDisk (config : Config) : Service Disk.fileSystem (.ofPure Lz4.codec) :=
  fresh config 0 (Heaps.empty.create "").2 Disk.initial ()

def writing (path : String) : List Move :=
  [.enter (.write path [1, 2, 3] true false), .push 1, .work .codec, .work .codec, .work .codec,
    .work .codec, .work .file, .work .file, .work .file, .work .file, .work .file]

def reading (path : String) : List Move :=
  [.enter (.read path 0 false true), .push 2, .work .file, .work .file, .work .file, .work .codec,
    .work .codec, .work .codec, .work .codec, .work .codec, .work .codec]

def stored : List Incident × Service Disk.fileSystem (.ofPure Lz4.codec) :=
  ((onDisk default).follow (writing "f" ++ reading "f")).get (by decide)

theorem round_trip_stored :
    ∃ left out, Run (onDisk default) stored.1 stored.2 ∧ left.result = .ok () ∧
      [.published 1 left, .entered 2 (.read "f" 0 false true)].Sublist stored.1 ∧
      .published 2 out ∈ stored.1 ∧ Undisturbed Disk.initial "f" stored.1 1 2 ∧
      ReadsBack Disk.initial "f" [1, 2, 3] stored.1 stored.2 1 2 ∧
      out.reply = ⟨.ok (), some [1, 2, 3, 0], 3⟩ ∧
      stored.2.files.inspect "f" = some (.file [0x30, 1, 2, 3]) := by
  have hrun : Run (onDisk default) stored.1 stored.2 := .of_isSome _
  have hplain : Disk.initial.Plain (Disk.initial.locate "f") := Disk.plain_of_none (by decide)
  have hwrite : .entered 1 (.write "f" [1, 2, 3] true false) ∈ stored.1 :=
    List.mem_of_getElem? (i := 0) rfl
  obtain ⟨left, hl, hok⟩ : ∃ left, .published 1 left ∈ stored.1.take 10 ∧ left.result = .ok () :=
    ⟨_, List.mem_of_getElem? (i := 7) rfl, rfl⟩
  have hread : .entered 2 (.read "f" 0 false true) ∈ stored.1.drop 10 :=
    List.mem_of_getElem? (i := 0) rfl
  have hbehind : [.published 1 left, .entered 2 (.read "f" 0 false true)].Sublist stored.1 :=
    (List.singleton_sublist.2 hl).append (List.singleton_sublist.2 hread)
  have hquiet : Undisturbed Disk.initial "f" stored.1 1 2 := undisturbed_of_length (by decide)
  -- The decoder recurses on what is left of its block, which only the kernel evaluates.
  have hdone : 2 ∈ stored.1.filterMap Incident.published? := by decide +kernel
  obtain ⟨out, hout⟩ := mem_published.1 hdone
  obtain ⟨block, -, -, -, hback⟩ := round_trip.2 Lz4.codec_faithful rfl hrun hplain hwrite
    (List.mem_of_mem_take hl) hok
  have hback := hback 2 0 false hbehind
  exact ⟨left, out, hrun, hok, hbehind, hout, hquiet, hback, hback.reply out hout hquiet, by decide⟩

/-- The same orders for the device that swallows writes. -/
def swallowed : List Incident × Service Disk.fileSystem (.ofPure Lz4.codec) :=
  ((onDisk default).follow (writing "/dev/null" ++ reading "/dev/null")).get (by decide)

/-- A compressed write that is complete, then a compressed read of the same path in a standstill with
writes to another: two compressed ones that have come to the codec, and a plain one that waits for
its turn at the file. -/
def stuck : List Incident × Service Disk.fileSystem (.ofPure Lz4.codec) :=
  ((onDisk (.ofCapacity 1)).follow (writing "f" ++ [.enter (.read "f" 0 false true), .push 2,
    .work .file, .work .file, .enter (.write "g" [] true false), .push 3, .work .codec, .work .codec,
    .work .codec, .enter (.write "g" [] true false), .push 4, .enter (.write "g" [] false false),
    .push 5])).get (by decide)

theorem stuck_jammed : stuck.2.Jammed := by
  refine ⟨⟨_, rfl⟩, ⟨_, rfl⟩, ?_, .inl rfl⟩
  intro lane
  cases lane <;> decide

/-- A device lets the write through and gives nothing back, and a read in a standstill never gets its
flag, though in both the write is complete and no other comes between. -/
theorem no_round_trip :
    (∃ left out, Run (onDisk default) swallowed.1 swallowed.2 ∧ left.result = .ok () ∧
      .entered 1 (.write "/dev/null" [1, 2, 3] true false) ∈ swallowed.1 ∧
      [.published 1 left, .entered 2 (.read "/dev/null" 0 false true)].Sublist swallowed.1 ∧
      Undisturbed Disk.initial "/dev/null" swallowed.1 1 2 ∧ .published 2 out ∈ swallowed.1 ∧
      out.reply = ⟨.ok (), some [0], 0⟩ ∧
      Reference.restored (default : Config).maxDecompressedSize.toNat [1, 2, 3] =
        ⟨.ok (), some [1, 2, 3, 0], 3⟩) ∧
    ∃ left, Config.validate (.ofCapacity 1) = .ok () ∧
      Run (onDisk (.ofCapacity 1)) stuck.1 stuck.2 ∧ left.result = .ok () ∧
      .entered 1 (.write "f" [1, 2, 3] true false) ∈ stuck.1 ∧
      [.published 1 left, .entered 2 (.read "f" 0 false true)].Sublist stuck.1 ∧
      Undisturbed Disk.initial "f" stuck.1 1 2 ∧
      ∀ more t, Run stuck.2 more t → .signaled 2 ∉ stuck.1 ++ more := by
  constructor
  · have hrun : Run (onDisk default) swallowed.1 swallowed.2 := .of_isSome _
    obtain ⟨left, hl, hok⟩ : ∃ left, .published 1 left ∈ swallowed.1.take 10 ∧
        left.result = .ok () :=
      ⟨_, List.mem_of_getElem? (i := 7) rfl, rfl⟩
    have hread : .entered 2 (.read "/dev/null" 0 false true) ∈ swallowed.1.drop 10 :=
      List.mem_of_getElem? (i := 0) rfl
    obtain ⟨out, hout, hreply⟩ : ∃ out, .published 2 out ∈ swallowed.1 ∧
        out.reply = ⟨.ok (), some [0], 0⟩ :=
      ⟨_, List.mem_of_getElem? (i := 17) rfl, rfl⟩
    exact ⟨left, out, hrun, hok, List.mem_of_getElem? (i := 0) rfl,
      (List.singleton_sublist.2 hl).append (List.singleton_sublist.2 hread),
      undisturbed_of_length (by decide), hout, hreply, rfl⟩
  · have hrun : Run (onDisk (.ofCapacity 1)) stuck.1 stuck.2 := .of_isSome _
    obtain ⟨left, hl, hok⟩ : ∃ left, .published 1 left ∈ stuck.1.take 10 ∧ left.result = .ok () :=
      ⟨_, List.mem_of_getElem? (i := 7) rfl, rfl⟩
    have hread : .entered 2 (.read "f" 0 false true) ∈ stuck.1.drop 10 :=
      List.mem_of_getElem? (i := 0) rfl
    refine ⟨left, rfl, hrun, hok, List.mem_of_getElem? (i := 0) rfl,
      (List.singleton_sublist.2 hl).append (List.singleton_sublist.2 hread),
      undisturbed_of_length (by decide), ?_⟩
    intro more t h hsignaled
    exact (h.unfinished stuck_jammed (by decide) (by decide) (by decide)).2.1 hsignaled

end Service

end QueuedFiles
