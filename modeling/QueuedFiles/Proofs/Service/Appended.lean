import QueuedFiles.Proofs.Block.Joined
import QueuedFiles.Proofs.Disk.Writes
import QueuedFiles.Proofs.Service.Roundtrip
import QueuedFiles.Proofs.Service.Sample

/-!
Compressed writes that append. The file gets one block behind the other, and a compressed read takes
all of it for one block. The payloads come back if one of them is empty; in general they do not.
-/

namespace QueuedFiles

namespace Reference

/-- What a compressed read is told for the answer of its decoder. -/
def answered : Except BlockError Bytes → Reply
  | .ok bytes => ⟨.ok (), some (bytes ++ [Limits.terminator]), bytes.length⟩
  | .error e => ⟨.error (.decompression e), some [Limits.terminator], 0⟩

variable {max : Nat} {block : Bytes}

theorem decompress_answered (hroom : CodecStage.capacity? max ≠ none) :
    decompress Lz4.codec max block = answered (Lz4.decompress block max) := by
  rw [decompress_of_capacity Lz4.codec hroom]
  simp only [Lz4.codec]
  cases hd : Lz4.decompress block max with
  | error e => rfl
  | ok bytes =>
    have hle := Lz4.length_decompress_le max hd
    have hfit : Bytes.fit bytes bytes.length = bytes := by simp [Bytes.fit]
    simp only [answered, Nat.min_eq_left hle, hfit, Limits.terminator]

/-- A compressed write that goes through behind the content of a file leaves its block there. -/
theorem execute_extended {codec : Codec.Pure} {d : Disk} {path : String} {bytes content : Bytes}
    (h : d.Holds path content)
    (hok : (execute codec Disk.fileSystem max d (.write path bytes true true)).1.result = .ok ()) :
    ∃ block, codec.compress bytes = .ok block ∧
      (execute codec Disk.fileSystem max d (.write path bytes true true)).1 =
        ⟨.ok (), some block, block.length⟩ ∧
      (execute codec Disk.fileSystem max d (.write path bytes true true)).2.Holds path
        (content ++ block) := by
  have hwritten (hw : (writeFile Disk.fileSystem d ⟨path⟩ true (payload codec bytes true).1).1 =
      .ok ()) := h.extended hw
  simp only [execute] at hok ⊢
  cases hw : writeFile Disk.fileSystem d ⟨path⟩ true (payload codec bytes true).1 with
  | mk answer e =>
    rw [hw] at hwritten
    cases answer with
    | error fault => simp [hw] at hok
    | ok =>
      have hholds := hwritten rfl
      simp only [hw] at hok
      obtain ⟨block, hb, hpay⟩ := payload_of_ok hok
      rw [hpay] at hholds ⊢
      exact ⟨block, hb, rfl, hholds⟩

end Reference

namespace Service

section

variable {codec : Codec.Pure} {config : Config} {heap : HeapId} {heaps : Heaps} {files : Disk}
  {log : List Incident} {path : String} {x y block next content : Bytes} {w v r : Nat}
  {left behind out : Outcome} {k : HeapId} {terminated : Bool}

theorem Run.extended {codecState : Codec.State (.ofPure codec)}
    {s : Service Disk.fileSystem (.ofPure codec)}
    (h : Run (fresh config heap heaps files codecState) log s)
    (hl : Saved codec config.maxDecompressedSize.toNat files log w path content)
    (hbehind : [.published w left, .entered v (.write path y true true)].Sublist log)
    (hout : .published v behind ∈ log) (hok : behind.result = .ok ())
    (hno : Undisturbed files path log w v) :
    ∃ next, codec.compress y = .ok next ∧ behind.reply = ⟨.ok (), some next, next.length⟩ ∧
      Saved codec config.maxDecompressedSize.toNat files log v path (content ++ next) := by
  obtain ⟨before, after, hturn, hholds⟩ := h.turn_behind hl hbehind hout hno
  have hreply := h.reply_at hout hturn
  have hres : behind.reply.result = .ok () := hok
  rw [hreply] at hres
  obtain ⟨next, hnext, hwrite, hleft⟩ := Reference.execute_extended hholds hres
  have hsnoc := congrArg Prod.snd (@Reference.sequence_snoc codec Disk.fileSystem
    config.maxDecompressedSize.toNat files before v (.write path y true true))
  exact ⟨next, hnext, hreply.trans hwrite, before, _, after, hturn, hsnoc ▸ hleft⟩

variable {s : Service Disk.fileSystem (.ofPure Lz4.codec)}

theorem Run.read_joined (h : Run (fresh config heap heaps files ()) log s)
    (hv : config.validate = .ok ()) (hnative : Path.native ⟨path⟩ = .ok path)
    (hx : Lz4.compress x = .ok block) (hy : Lz4.compress y = .ok next)
    (hroom : x.length + y.length ≤ config.maxDecompressedSize.toNat)
    (hl : Saved Lz4.codec config.maxDecompressedSize.toNat files log v path (block ++ next))
    (hbehind : [.published v behind, .entered r (.read path k terminated true)].Sublist log)
    (hout : .published r out ∈ log) (hno : Undisturbed files path log v r) :
    out.reply =
      Reference.answered (Lz4.joined config.maxDecompressedSize.toNat x y next) := by
  obtain ⟨before, after, hturn, hholds⟩ := h.turn_behind hl hbehind hout hno
  rw [h.reply_at hout hturn, ← Lz4.decompress_joined _ hx hy hroom,
    ← Reference.decompress_answered (capacity_of_validate hv)]
  exact Reference.execute_compressed _ _ _ (by rw [hholds.readFile hnative])

/-- What becomes of a compressed read behind a compressed write of `x` and one that appends `y`, with
`next` for its block. -/
structure ReadsJoined (files : Disk) (path : String) (x y next : Bytes) (log : List Incident)
    (s : Service Disk.fileSystem (.ofPure Lz4.codec)) (v r : Nat) : Prop where
  reply : ∀ out, .published r out ∈ log → Undisturbed files path log v r →
    out.reply = Reference.answered (Lz4.joined s.config.maxDecompressedSize.toNat x y next)
  /-- It does come to its end, as any read does. -/
  completes : (inFlight log).length ≤ s.config.queueCapacity.toNat + 1 →
    ∀ (lanes : List Lane) more t, s.follow (lanes.map .work) = some (more, t) →
      lanes.length ≤ s.movesLeft ∧
      ((∀ lane, t.work lane = none) → (∃ u, t.push r = some (.ok (), u)) ∨
        .signaled r ∈ log ++ more ∧ ∃ out, .published r out ∈ log ++ more ∧
          (Undisturbed files path (log ++ more) v r →
            out.reply = Reference.answered (Lz4.joined s.config.maxDecompressedSize.toNat x y next)))

/-- A compressed write, then one that appends, then a compressed read. -/
theorem Run.append_joins (h : Run (fresh config heap heaps files ()) log s)
    (hv : config.validate = .ok ()) (hp : files.Plain (files.locate path))
    (hroom : x.length + y.length ≤ config.maxDecompressedSize.toNat)
    (hw : .entered w (.write path x true false) ∈ log) (hok : left.result = .ok ())
    (hbehind : [.published w left, .entered v (.write path y true true)].Sublist log)
    (hl : .published v behind ∈ log) (hok' : behind.result = .ok ())
    (hno : Undisturbed files path log w v) :
    ∃ block next, Lz4.compress x = .ok block ∧ Lz4.compress y = .ok next ∧
      left.reply = ⟨.ok (), some block, block.length⟩ ∧
      behind.reply = ⟨.ok (), some next, next.length⟩ ∧
      (Latest files path log v → s.files.inspect path = some (.file (block ++ next))) ∧
      (x ≠ [] → y ≠ [] → 16 ≤ Lz4.distance next ∧
        ∀ bytes, Lz4.joined config.maxDecompressedSize.toNat x y next = .ok bytes →
          x ++ (x.drop (x.length - Lz4.distance next)).take Lz4.minCopy <+: bytes) ∧
      ∀ r k terminated,
        [.published v behind, .entered r (.read path k terminated true)].Sublist log →
        ReadsJoined files path x y next log s v r := by
  obtain ⟨block, hd, hreply⟩ := h.deposited hp hw (hbehind.subset (by simp)) hok
  obtain ⟨next, hnext, hreply', hsaved⟩ := h.extended hd.turn hbehind hl hok' hno
  refine ⟨block, next, hd.compressed, hnext, hreply, hreply', h.content_kept hsaved, ?_, ?_⟩
  · intro hx hy
    exact ⟨(Lz4.compress_begins hy hnext).2, fun bytes ↦ Lz4.joined_begins _ hx hy hnext⟩
  intro r k terminated hread
  have hconfig := h.frame.1
  have hentered : .entered r (.read path k terminated true) ∈ log := hread.subset (by simp)
  constructor
  · intro out hout hquiet
    rw [hconfig]
    exact h.read_joined hv hd.native hd.compressed hnext hroom hsaved hread hout hquiet
  · intro hrule lanes more t hmoves
    rw [hconfig] at hrule ⊢
    have hcapacity := (bounds_of_validate hv).1
    obtain ⟨hle, hend⟩ :=
      h.read_goes_on (Codec.ofPure_returns Lz4.codec) (by omega) hentered rfl hmoves
    refine ⟨hle, fun hrest ↦ (hend hrest).imp_right fun hsignaled ↦ ⟨hsignaled, ?_⟩⟩
    have ht := h.trans (.of_follow hmoves)
    have hlater : log.Sublist (log ++ more) := List.sublist_append_left log more
    obtain ⟨out, hout⟩ := mem_published.1 (ht.published_of_completes hsignaled rfl)
    refine ⟨out, hout, fun hquiet ↦ ?_⟩
    exact ht.read_joined hv hd.native hd.compressed hnext hroom (h.saved_append hsaved more)
      (hread.trans hlater) hout hquiet

/-- A compressed write and one that appends, both complete, then a compressed read, and nothing else
written there in between. -/
structure Appends (files : Disk) (path : String) (x y : Bytes) (log : List Incident) (left : Outcome)
    (w : Nat) (behind : Outcome) (v r : Nat) : Prop where
  entered : .entered w (.write path x true false) ∈ log
  written : left.result = .ok ()
  appended : [.published w left, .entered v (.write path y true true)].Sublist log
  extended : behind.result = .ok ()
  read : [.published v behind, .entered r (.read path 0 false true)].Sublist log
  undisturbed : Undisturbed files path log w v ∧ Undisturbed files path log v r

/-- Each of the writes leaves ten incidents if there is nothing else going on. -/
theorem appends_of_log (hw : log[0]? = some (.entered w (.write path x true false)))
    (hl : log[7]? = some (.published w left)) (hok : left.result = .ok ())
    (hv : log[10]? = some (.entered v (.write path y true true)))
    (hl' : log[17]? = some (.published v behind)) (hok' : behind.result = .ok ())
    (hr : log[20]? = some (.entered r (.read path 0 false true)))
    (hfirst : ∀ id ∈ (processed log).map (·.1), ¬ [w, id, v].Sublist ((processed log).map (·.1)))
    (hthen : ∀ id ∈ (processed log).map (·.1), ¬ [v, id, r].Sublist ((processed log).map (·.1))) :
    Appends files path x y log left w behind v r :=
  ⟨List.mem_of_getElem? hw, hok, sublist_of_getElem? (by decide) hl hv, hok',
    sublist_of_getElem? (by decide) hl' hr, undisturbed_of_forall hfirst, undisturbed_of_forall hthen⟩

end

def storing (id : Nat) (path : String) (bytes : Bytes) (append : Bool) : List Move :=
  [.enter (.write path bytes true append), .push id, .work .codec, .work .codec, .work .codec,
    .work .codec, .work .file, .work .file, .work .file, .work .file, .work .file]

def loading (id : Nat) (path : String) : List Move :=
  [.enter (.read path 0 false true), .push id, .work .file, .work .file, .work .file, .work .codec,
    .work .codec, .work .codec, .work .codec, .work .codec, .work .codec]

/-- One byte is written, then another behind it, and then they are read. -/
def torn : List Incident × Service Disk.fileSystem (.ofPure Lz4.codec) :=
  ((onDisk default).follow (storing 1 "f" [0x61] false ++ storing 2 "f" [0x62] true ++
    loading 3 "f")).get (by decide)

theorem torn_appends :
    ∃ left behind out, Appends Disk.initial "f" [0x61] [0x62] torn.1 left 1 behind 2 3 ∧
      .published 3 out ∈ torn.1 := by
  -- The decoder recurses on what is left of its block, which only the kernel evaluates.
  have hdone : 3 ∈ torn.1.filterMap Incident.published? := by decide +kernel
  obtain ⟨out, hout⟩ := mem_published.1 hdone
  exact ⟨_, _, out, appends_of_log rfl rfl rfl rfl rfl rfl rfl (by decide) (by decide), hout⟩

theorem append_joins_torn :
    ∃ left behind out, Run (onDisk default) torn.1 torn.2 ∧
      Appends Disk.initial "f" [0x61] [0x62] torn.1 left 1 behind 2 3 ∧ .published 3 out ∈ torn.1 ∧
      torn.2.files.inspect "f" = some (.file [0x10, 0x61, 0x10, 0x62]) ∧
      ReadsJoined Disk.initial "f" [0x61] [0x62] [0x10, 0x62] torn.1 torn.2 2 3 ∧
      out.reply = ⟨.error (.decompression (.failed Lz4.name
        Lz4.Defect.offsetBeyondOutput.message)), some [0], 0⟩ := by
  have hrun : Run (onDisk default) torn.1 torn.2 := .of_isSome _
  have hplain : Disk.initial.Plain (Disk.initial.locate "f") := Disk.plain_of_none (by decide)
  obtain ⟨left, behind, out, ha, hout⟩ := torn_appends
  have hl : .published 2 behind ∈ torn.1 := ha.read.subset (by simp)
  obtain ⟨block, next, -, hnext, -, -, -, -, hreads⟩ := hrun.append_joins rfl hplain (by decide)
    ha.entered ha.written ha.appended hl ha.extended ha.undisturbed.1
  obtain rfl : [0x10, 0x62] = next := Except.ok.inj hnext
  have hjoined := hreads 3 0 false ha.read
  exact ⟨left, behind, out, hrun, ha, hout, by decide, hjoined,
    hjoined.reply out hout ha.undisturbed.2⟩

/-- The same for the device that swallows writes, where nothing is appended. -/
def vanished : List Incident × Service Disk.fileSystem (.ofPure Lz4.codec) :=
  ((onDisk default).follow (storing 1 "/dev/null" [0x61] false ++ storing 2 "/dev/null" [] true ++
    loading 3 "/dev/null")).get (by decide)

/-- Nothing is appended here either. The read stands still with writes to another file, as in
`stuck`. -/
def wedged : List Incident × Service Disk.fileSystem (.ofPure Lz4.codec) :=
  ((onDisk (.ofCapacity 1)).follow (storing 1 "f" [0x61] false ++ storing 2 "f" [] true ++
    [.enter (.read "f" 0 false true), .push 3, .work .file, .work .file,
      .enter (.write "g" [] true false), .push 4, .work .codec, .work .codec, .work .codec,
      .enter (.write "g" [] true false), .push 5, .enter (.write "g" [] false false),
      .push 6])).get (by decide)

theorem wedged_jammed : wedged.2.Jammed := by
  refine ⟨⟨_, rfl⟩, ⟨_, rfl⟩, ?_, .inl rfl⟩
  intro lane
  cases lane <;> decide

/-- What is appended to a file of compressed bytes does not come back as it should, a device gives
nothing back at all, and a read in a standstill never gets its flag. -/
theorem append_not_carried :
    (∃ left behind out, Run (onDisk default) torn.1 torn.2 ∧
      Appends Disk.initial "f" [0x61] [0x62] torn.1 left 1 behind 2 3 ∧ .published 3 out ∈ torn.1 ∧
      out.reply = ⟨.error (.decompression (.failed "lz4"
        "the offset to copy is not contained in the decompressed buffer")), some [0], 0⟩) ∧
    (∃ left behind out, Run (onDisk default) vanished.1 vanished.2 ∧
      Appends Disk.initial "/dev/null" [0x61] [] vanished.1 left 1 behind 2 3 ∧
      .published 3 out ∈ vanished.1 ∧ out.reply = ⟨.ok (), some [0], 0⟩) ∧
    ∃ left behind, Config.validate (.ofCapacity 1) = .ok () ∧
      Run (onDisk (.ofCapacity 1)) wedged.1 wedged.2 ∧
      Appends Disk.initial "f" [0x61] [] wedged.1 left 1 behind 2 3 ∧
      ∀ more t, Run wedged.2 more t → .signaled 3 ∉ wedged.1 ++ more := by
  refine ⟨?_, ?_, ?_⟩
  · have hrun : Run (onDisk default) torn.1 torn.2 := .of_isSome _
    have hplain : Disk.initial.Plain (Disk.initial.locate "f") := Disk.plain_of_none (by decide)
    obtain ⟨left, behind, out, ha, hout⟩ := torn_appends
    have hl : .published 2 behind ∈ torn.1 := ha.read.subset (by simp)
    obtain ⟨block, hd, -⟩ :=
      hrun.deposited hplain ha.entered (ha.appended.subset (by simp)) ha.written
    obtain ⟨next, hnext, -, hsaved⟩ :=
      hrun.extended hd.turn ha.appended hl ha.extended ha.undisturbed.1
    obtain rfl : [0x10, 0x62] = next := Except.ok.inj hnext
    exact ⟨left, behind, out, hrun, ha, hout, hrun.read_joined (x := [0x61]) (y := [0x62]) rfl
      hd.native hd.compressed hnext (by decide) hsaved ha.read hout ha.undisturbed.2⟩
  · obtain ⟨out, hout, hreply⟩ : ∃ out, .published 3 out ∈ vanished.1 ∧
        out.reply = ⟨.ok (), some [0], 0⟩ :=
      ⟨_, List.mem_of_getElem? (i := 27) rfl, rfl⟩
    exact ⟨_, _, out, .of_isSome _,
      appends_of_log rfl rfl rfl rfl rfl rfl rfl (by decide) (by decide), hout, hreply⟩
  · refine ⟨_, _, rfl, .of_isSome _,
      appends_of_log rfl rfl rfl rfl rfl rfl rfl (by decide) (by decide), ?_⟩
    intro more t h hsignaled
    exact (h.unfinished wedged_jammed (by decide) (by decide) (by decide)).2.1 hsignaled

end Service

end QueuedFiles
