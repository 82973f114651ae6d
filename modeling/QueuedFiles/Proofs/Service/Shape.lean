import QueuedFiles.Block.Samples
import QueuedFiles.Proofs.Service.Access
import QueuedFiles.Proofs.Service.Roundtrip
import QueuedFiles.Proofs.Service.Staging

/-!
Buffers and sizes. They change in several places and mean something else in each; what they have in
common is kept by every stage, whatever the files and the codec do, and with it all slices and
indices are in range and every outcome has its shape.
-/

namespace QueuedFiles

/-- The size of a request tells how much of its buffer counts; in a write, all of it does. -/
structure Request.Sized (r : Request) : Prop where
  fits : ∀ b, r.buffer = some b → r.size ≤ b.length
  bare : r.buffer = none → r.size = 0
  whole : r.operation = .write → ∃ b, r.buffer = some b ∧ r.size = b.length

namespace Request.Sized

variable {q r : Request}

theorem payload (h : r.Sized) : Checked.payload r = some r.payload := by
  unfold Checked.payload Request.payload
  cases hb : r.buffer with
  | none => simp [h.bare hb, Bytes.upTo?]
  | some b => exact Bytes.upTo?_of_le (h.fits b hb)

theorem length_payload (h : r.Sized) : r.payload.length = r.size := by
  unfold Request.payload
  cases hb : r.buffer with
  | none => simp [h.bare hb]
  | some b => exact List.length_take_of_le (h.fits b hb)

theorem of_same (h : q.Sized) (hop : r.operation = q.operation) (hbuffer : r.buffer = q.buffer)
    (hsize : r.size = q.size) : r.Sized where
  fits b hb := by
    rw [hsize]
    exact h.fits b (hbuffer ▸ hb)
  bare hb := by
    rw [hsize]
    exact h.bare (hbuffer ▸ hb)
  whole hw := by
    rw [hbuffer, hsize]
    exact h.whole (hop ▸ hw)

theorem of_whole {b : Buffer} (hb : r.buffer = some b) (hsize : r.size = b.length) : r.Sized where
  fits c hc := by
    cases hb.symm.trans hc
    exact Nat.le_of_eq hsize
  bare hn := by cases hb.symm.trans hn
  whole _ := ⟨b, hb, hsize⟩

theorem of_read {b : Buffer} (hop : r.operation = .read) (hb : r.buffer = some b)
    (hsize : r.size ≤ b.length) : r.Sized where
  fits c hc := by
    cases hb.symm.trans hc
    exact hsize
  bare hn := by cases hb.symm.trans hn
  whole hw := by cases hop.symm.trans hw

end Request.Sized

theorem Order.request_sized (o : Order) (id : Nat) (path : Path) (heap own : HeapId)
    (heaps : Heaps) : (o.request id path heap (o.draw own heaps).1).Sized := by
  cases o with
  | read =>
    constructor
    · intro b hb
      cases hb
    · intro
      rfl
    · intro hw
      cases hw
  | write => exact .of_whole rfl rfl

theorem CodecStage.decompressed_length (max : Nat) (heaps : Heaps) (r : Request)
    (room : Reservation) (d : Decoded) :
    ∃ b, (decompressed max heaps r room d.written d.reported).request.buffer = some b ∧
      b.bytes = d.written.fit (decompressed max heaps r room d.written d.reported).request.size ++
        [Limits.terminator] :=
  ⟨_, rfl, rfl⟩

namespace Staged

theorem settled_of_ok {staged : Staged} (h : staged.result = .ok ()) :
    staged.settled = staged.request := by
  simp [settled, h]

theorem settled_of_error {staged : Staged} {e : Error} (h : staged.result = .error e) :
    staged.settled = staged.request.fail e := by
  simp [settled, h]

/-- A read goes on from its file only if it has the file. -/
theorem succeeded_of_handOff {staged : Staged} {onward : Lane}
    (hop : staged.request.operation = .read) (h : staged.next .file = .handOff onward) :
    staged.result = .ok () := by
  cases hresult : staged.result with
  | ok => rfl
  | error e => simp [next, nextAfter, hop, hresult, Except.isOk, Except.toBool] at h

end Staged

namespace Service

variable {fs : FileSystem} {codec : Codec} {s t u : Service fs codec} {log more : List Incident}
  {q r : Request} {p p₀ : Post} {lane : Lane} {staged : Staged} {config : Config} {heap : HeapId}
  {heaps : Heaps} {files : fs.State} {codecState : codec.State} {a : Telemetry.Activity}
  {added : Option Telemetry.Addition}

theorem StageEnd.sized (h : u.StageEnd lane q staged a added files codecState) (hq : q.Sized)
    (hc : ∀ room, u.worker .codec = .coding q room → (room = none ↔ q.operation = .write)) :
    staged.request.Sized := by
  have hsame := h.resized
  cases h with
  | file hw hs =>
    cases hop : q.operation with
    | read =>
      cases hresult : staged.result with
      | ok =>
        obtain ⟨-, hlength, hbytes⟩ := FileStage.read_succeeded hop hs hresult
        obtain ⟨b, hb, hbytes⟩ := Option.map_eq_some_iff.1 hbytes
        refine .of_read (hsame.operation.trans hop) hb ?_
        rw [← hlength, Buffer.length, hbytes]
        split <;> simp
      | error e =>
        rw [(FileStage.read_failed hop hs hresult).2]
        exact hq
    | write =>
      obtain ⟨-, hbuffer, hsize⟩ := FileStage.write_staged hop hs
      refine hq.of_same hsame.operation hbuffer ?_
      rw [hsize, hq.length_payload, ite_self]
  | overflow hw hop =>
    exact .of_read hop rfl (Nat.zero_le _)
  | @compress _ answer =>
    cases hb : CodecStage.checkedBlock codec.name q answer with
    | ok block => exact .of_whole rfl rfl
    | error e => exact .of_whole rfl rfl
  | @decompress _ room d _ hw =>
    have hop : q.operation = .read := by
      cases ho : q.operation with
      | read => rfl
      | write => cases (hc _ hw).2 ho
    obtain ⟨b, hb, hbytes⟩ := CodecStage.decompressed_length _ u.heaps q room d
    refine .of_read hop hb ?_
    rw [Buffer.length, hbytes, List.length_append, Bytes.length_fit]
    exact Nat.le_add_right _ _

theorem Run.sized (h : Run (fresh config heap heaps files codecState) log s) (hr : s.At r p) :
    r.Sized := by
  refine h.along (P := fun _ r _ ↦ r.Sized) ?_ ?_ ?_ hr
  · intro log more s t r h ht ha
    cases ha with
    | entered o path => exact o.request_sized ..
  · intro log more s t r p h ht hs hm
    exact hs
  · intro log more s t q p₀ r p h ht hq hs hf
    cases hf with
    | accepted | prepared | handedOff => exact hs
    | taken => exact hs.of_same rfl rfl rfl
    | @staged lane _ st _ _ _ _ task he =>
      have hstaged := he.sized hs fun room hw ↦ h.coding_side room hw
      obtain ⟨-, hop, -, -, hbuffer, hsize, -⟩ := st.routed_frame lane
      exact hstaged.of_same hop hbuffer hsize

/-- A read has no buffer until its file is read, and no failure until it is over. -/
def Fetching (r : Request) : Phase → Prop
  | .draft | .encoded => r.buffer = none ∧ r.result = .ok ()
  | .filed => r.result = .ok ()
  | .done => True

theorem Run.fetching (h : Run (fresh config heap heaps files codecState) log s) (hr : s.At r p) :
    r.operation = .read → Fetching r (p.phase .read) := by
  refine h.along (P := fun _ r p ↦ r.operation = .read → Fetching r (p.phase .read)) ?_ ?_ ?_ hr
  · intro log more s t r h ht ha hop
    cases ha with
    | entered o path =>
      cases o with
      | read => exact ⟨rfl, rfl⟩
      | write => cases hop
  · intro log more s t r p h ht hs hm
    exact hs
  · intro log more s t q p₀ r p h ht hq hs hf hop
    have hqop : q.operation = .read := hf.frame.2.1.symm.trans hop
    have hfetch := hs hqop
    cases hf with
    | accepted =>
      rw [entryLane_eq, hqop]
      exact hfetch
    | taken lane =>
      rw [Post.phase_taken]
      cases lane with
      | file => exact hfetch
      | codec => exact hfetch
    | prepared => exact hfetch
    | handedOff lane onward =>
      rcases Journey.routing (h.bearing hq).journey with ⟨-, ⟨-, rfl, rfl⟩ | ⟨hwrite, -⟩⟩
      · exact hfetch
      · cases hqop.symm.trans hwrite
    | @staged lane _ st _ _ _ _ task he =>
      have hnext := he.next_eq
      cases lane with
      | codec =>
        rw [hnext, hqop]
        trivial
      | file =>
        have hclean : q.result = .ok () := by
          cases task with
          | serving | coding => exact hfetch.2
          | routing next => exact (he.not_routing hq).elim
        cases hn : st.next .file with
        | complete => trivial
        | handOff onward =>
          have hok := Staged.succeeded_of_handOff (he.resized.operation.trans hqop) hn
          have hresult : (st.routed .file).result = st.request.result := by
            simp [Staged.routed, hn, Staged.settled_of_ok hok, Request.handedOff]
          exact hresult.trans (he.resized.result.trans hclean)

/-- A read that is in a stage is as the stages before have left it. -/
theorem Run.fetching_at_stage (h : Run (fresh config heap heaps files codecState) log s)
    {after : fs.State} {state : codec.State} (he : s.StageEnd lane q staged a added after state)
    (hop : q.operation = .read) : q.result = .ok () ∧ (lane = .file → q.buffer = none) := by
  have hfetch : ∀ task, s.At q (.hand lane task) → Fetching q ((Post.hand lane task).phase .read) :=
    fun task hat ↦ h.fetching hat hop
  rcases he.holds with hw | ⟨room, hw⟩
  · have hserving := hfetch .serving hw
    cases lane with
    | file => exact ⟨hserving.2, fun _ ↦ hserving.1⟩
    | codec => exact ⟨hserving, nofun⟩
  · have hcoding := hfetch (.coding room) hw
    cases lane with
    | file => exact ⟨hcoding.2, fun _ ↦ hcoding.1⟩
    | codec => exact ⟨hcoding, nofun⟩

variable {s₀ : Service fs codec} {id max : Nat} {terminated compressed : Bool} {data : Bytes}
  {d : Decoded} {o : Outcome}

/-- The file stage of a request has read these bytes. -/
def Fetches (s₀ : Service fs codec) (log : List Incident) (id : Nat) (data : Bytes) : Prop :=
  ∃ before q after rest u files, log = before ++ .staged .file q after (.ok ()) :: rest ∧ q.id = id ∧
    Run s₀ before u ∧ Reference.readFile fs u.files q.path = (.ok data, files)

/-- The codec has been called for a request, and this is what it has done. -/
def Decodes (s₀ : Service fs codec) (log : List Incident) (id max : Nat) (d : Decoded) : Prop :=
  ∃ before q after result rest u room state, log = before ++ .staged .codec q after result :: rest ∧
    q.id = id ∧ Run s₀ before u ∧ u.worker .codec = .coding q (some room) ∧
    codec.decompress u.codecState q.payload max = .returns d state

/-- What a read leaves, by the stages that it has been through. -/
inductive ReadOutcome (s₀ : Service fs codec) (log : List Incident) (id max : Nat)
    (terminated compressed : Bool) : Outcome → Prop
  | unread {e : Error} (hs : stages id log = [(.file, false)]) :
      ReadOutcome s₀ log id max terminated compressed ⟨.error e, none, 0⟩
  | plain {b : Buffer} {data : Bytes} (hc : compressed = false)
      (hs : stages id log = [(.file, true)]) (hd : Fetches s₀ log id data)
      (hb : b.bytes = if terminated then data ++ [Limits.terminator] else data) :
      ReadOutcome s₀ log id max terminated compressed ⟨.ok (), some b, data.length⟩
  /-- The output cannot even be reserved. -/
  | unreserved {b : Buffer} (hs : stages id log = [(.file, true), (.codec, false)])
      (hm : CodecStage.capacity? max = none) (hb : b.bytes = [Limits.terminator]) :
      ReadOutcome s₀ log id max terminated compressed
        ⟨.error (.decompression (.outputTooLarge max)), some b, 0⟩
  | decoded {b : Buffer} {d : Decoded} {n : Nat}
      (hs : stages id log = [(.file, true), (.codec, true)]) (hd : Decodes s₀ log id max d)
      (hn : d.reported = .ok n)
      (hb : b.bytes = (d.written.fit max).take (min n max) ++ [Limits.terminator]) :
      ReadOutcome s₀ log id max terminated compressed ⟨.ok (), some b, min n max⟩
  | undecoded {b : Buffer} {d : Decoded} {e : BlockError}
      (hs : stages id log = [(.file, true), (.codec, false)]) (hd : Decodes s₀ log id max d)
      (he : d.reported = .error e) (hb : b.bytes = [Limits.terminator]) :
      ReadOutcome s₀ log id max terminated compressed ⟨.error (.decompression e), some b, 0⟩

theorem Leaves.read_stages (h : Leaves s₀ log lane q staged)
    (hi : Itinerary .read compressed (stages q.id log)) :
    lane = .file ∧ stages q.id log = [(.file, staged.result.isOk)] ∨
      lane = .codec ∧ stages q.id log = [(.file, true), (.codec, staged.result.isOk)] := by
  have hlast := h.last_stage
  have hone : ∀ ok, stages q.id log = [(.file, ok)] →
      lane = .file ∧ stages q.id log = [(.file, staged.result.isOk)] := by
    intro ok he
    rw [he] at hlast ⊢
    cases hlast
    exact ⟨rfl, rfl⟩
  cases compressed with
  | false =>
    obtain ⟨ok, he⟩ := hi
    exact .inl (hone ok he)
  | true =>
    rcases hi with he | ⟨ok, he⟩
    · exact .inl (hone _ he)
    · rw [he] at hlast ⊢
      cases hlast
      exact .inr ⟨rfl, rfl⟩

theorem Leaves.file_outcome
    (hl : Leaves (fresh config heap heaps files codecState) log .file q staged)
    (hop : q.operation = .read) (hnext : staged.next .file = .complete)
    (hs : stages q.id log = [(.file, staged.result.isOk)]) :
    ReadOutcome (fresh config heap heaps files codecState) log q.id max
      (q.flags.contains .nullTerminate) q.isCompressed staged.settled.outcome := by
  obtain ⟨before, after, u, a, added, files', codecState', hlog, hu, he, -⟩ := hl.cut
  obtain ⟨hclean, hbare⟩ := hu.fetching_at_stage he hop
  have hn := he.next_eq.symm.trans hnext
  have hresized := he.resized
  cases he with
  | file hw hrun =>
    cases hres : staged.result with
    | error e =>
      have hat : u.At q (.hand .file .serving) := hw
      obtain ⟨-, hq⟩ := FileStage.read_failed hop hrun hres
      rw [Staged.settled_of_error hres, hq, Request.outcome, Request.fail, hbare rfl,
        (hu.sized hat).bare (hbare rfl)]
      refine .unread ?_
      rw [hs, hres]
      rfl
    | ok =>
      obtain ⟨hread, hlength, hbytes⟩ := FileStage.read_succeeded hop hrun hres
      obtain ⟨b, hb, hbytes⟩ := Option.map_eq_some_iff.1 hbytes
      rw [Staged.settled_of_ok hres, Request.outcome, hresized.result, hclean, hb, ← hlength]
      rw [hres] at hs hn hlog
      refine .plain ?_ hs ⟨before, q, _, after, u, _, hlog, rfl, hu, hread⟩ hbytes
      -- A compressed read that has its file goes on to the codec.
      cases hc : q.isCompressed with
      | false => rfl
      | true =>
        have hf : q.flags.contains .useCompression = true := hc
        simp [nextAfter, hop, hf, Except.isOk, Except.toBool] at hn

theorem Leaves.codec_outcome
    (hl : Leaves (fresh config heap heaps files codecState) log .codec q staged)
    (hop : q.operation = .read)
    (hs : stages q.id log = [(.file, true), (.codec, staged.result.isOk)]) :
    ReadOutcome (fresh config heap heaps files codecState) log q.id
      config.maxDecompressedSize.toNat terminated compressed staged.settled.outcome := by
  obtain ⟨before, after, u, a, added, files', codecState', hlog, hu, he, -⟩ := hl.cut
  obtain ⟨hclean, -⟩ := hu.fetching_at_stage he hop
  have hconfig := hu.frame.1
  cases he with
  | overflow hw _ hcap =>
    rw [hconfig] at hcap ⊢
    exact .unreserved hs hcap rfl
  | compress hw =>
    cases hop.symm.trans (hu.compressing hw).1
  | @decompress _ room d _ hw hcall =>
    rw [hconfig] at hcall hs hlog ⊢
    have hdecodes : Decodes (fresh config heap heaps files codecState) log q.id
        config.maxDecompressedSize.toNat d :=
      ⟨before, q, _, _, after, u, room, _, hlog, rfl, hu, hw, hcall⟩
    cases hd : d.reported with
    | ok n =>
      simp only [Staged.settled, CodecStage.decompressed, hd, Request.outcome, hclean] at hs ⊢
      refine .decoded hs hdecodes hd ?_
      rw [Bytes.take_fit d.written (Nat.min_le_right n _)]
      rfl
    | error e =>
      simp only [Staged.settled, CodecStage.decompressed, hd, Request.outcome, Request.fail] at hs ⊢
      refine .undecoded hs hdecodes hd ?_
      simp [Heaps.fill, Bytes.fit_zero]

/-- What a request leaves is what it has when it is routed for the last time. -/
theorem Run.published_sized (h : Run (fresh config heap heaps files codecState) log s)
    (ho : .published id o ∈ log) :
    ∃ (r : Request) (order : Order), r.Sized ∧ o = r.outcome ∧ .entered id order ∈ log ∧
      r.operation = order.operation := by
  obtain ⟨pre, more, rest, u, v, hu, ht, -, -, rfl, hm⟩ := h.split ho
  obtain ⟨r, lane, hat, rfl, rfl⟩ := ht.published_at hm
  obtain ⟨order, hr, hc⟩ := (hu.bearing hat).order
  exact ⟨r, order, hu.sized hat, rfl, by simp [hr], hc.operation⟩

theorem Run.read_outcome (h : Run (fresh config heap heaps files codecState) log s)
    {path : String} {k : HeapId} (ho : .published id o ∈ log)
    (hr : .entered id (.read path k terminated compressed) ∈ log) :
    ReadOutcome (fresh config heap heaps files codecState) log id
      config.maxDecompressedSize.toNat terminated compressed o := by
  obtain ⟨lane, q, staged, hl, rfl, hnext, rfl⟩ := h.published_leaves ho
  have hc := hl.carries h hr
  have hterminated : q.flags.contains .nullTerminate = terminated := by simp [hc.flags, Order.flags]
  have hcompressed : q.isCompressed = compressed := by
    simp [Request.isCompressed, hc.flags, Order.flags]
  rcases hl.read_stages (h.itinerary_of_published ho hr) with ⟨rfl, hs⟩ | ⟨rfl, hs⟩
  · rw [← hterminated, ← hcompressed]
    exact hl.file_outcome hc.operation hnext hs
  · exact hl.codec_outcome hc.operation hs

/-- The buffers and sizes of a run. -/
structure Formed (s₀ : Service fs codec) (log : List Incident) (s : Service fs codec) : Prop where
  /-- No slice and no index of a stage is out of range. -/
  inRange : ∀ lane, s.checkedStage lane = some (s.stage? lane)
  payloads : ∀ r p, s.At r p → Checked.payload r = some r.payload ∧ r.payload.length = r.size
  fits : ∀ id o, .published id o ∈ log → ∀ b, o.buffer = some b → o.size ≤ b.length
  reads : ∀ id o path k terminated compressed, .published id o ∈ log →
    .entered id (.read path k terminated compressed) ∈ log →
      ReadOutcome s₀ log id s.config.maxDecompressedSize.toNat terminated compressed o
  writes : ∀ id o path bytes compressed append, .published id o ∈ log →
    .entered id (.write path bytes compressed append) ∈ log →
      ∃ b, o.buffer = some b ∧ o.size = b.length
  /-- The callers see these outcomes; a buffer may have been handed over. -/
  tickets : ∀ t ∈ s.tickets, ∀ left, t.outcome = some left → ∃ o, .published t.id o ∈ log ∧
    left.result = o.result ∧ left.size = o.size ∧ (left.buffer = o.buffer ∨ left.buffer = none)
  /-- Under a configuration that passes there is room for every output. -/
  reserved : s.config.validate = .ok () →
    CodecStage.capacity? s.config.maxDecompressedSize.toNat ≠ none

theorem Run.formed (h : Run (fresh config heap heaps files codecState) log s) :
    Formed (fresh config heap heaps files codecState) log s where
  inRange lane := by
    refine checkedStage_eq ?_ ?_
    · intro r hr
      obtain ⟨task, hat⟩ := at_of_requests hr
      exact (h.sized hat).payload
    · intro r room hw
      have hat : s.At r (.hand lane (.coding (some room))) := hw
      have hcap := h.reserved hat
      rw [h.frame.1]
      unfold CodecStage.capacity? at hcap
      split at hcap
      · exact (Option.some.inj hcap).symm
      · cases hcap
  payloads r p hr := ⟨(h.sized hr).payload, (h.sized hr).length_payload⟩
  fits id o ho b hb := by
    obtain ⟨r, order, hsized, rfl, -⟩ := h.published_sized ho
    exact hsized.fits b hb
  reads id o path k terminated compressed ho hr := by
    rw [h.frame.1]
    exact h.read_outcome ho hr
  writes id o path bytes compressed append ho hw := by
    obtain ⟨r, order, hsized, rfl, hr, hop⟩ := h.published_sized ho
    obtain rfl := h.census.order_unique hw hr
    exact hsized.whole hop
  tickets t ht left hl := (h.desk.reflects t ht).filled left hl
  reserved hv := capacity_of_validate hv

/-- A service whose codec reports more than the four bytes it may decompress. -/
def tight : Service Disk.fileSystem (.ofPure Codec.overrunning) :=
  sampleDisk { (default : Config) with maxDecompressedSize := 4 } Codec.overrunning

/-- A compressed write and a compressed read of its block. -/
def overrun : List Incident × Service Disk.fileSystem (.ofPure Codec.overrunning) :=
  (tight.follow [.enter (.write "f" [1, 2] true false), .push 1, .work .codec, .work .codec,
    .work .codec, .work .codec, .work .file, .work .file, .work .file, .work .file, .work .file,
    .enter (.read "f" 0 true true), .push 2, .work .file, .work .file, .work .file, .work .codec,
    .work .codec, .work .codec, .work .codec, .work .codec, .work .codec]).get (by decide)

theorem formed_overrun :
    Run tight overrun.1 overrun.2 ∧ stages 2 overrun.1 = [(.file, true), (.codec, true)] ∧
      ((overrun.2.ticket? 2).bind (·.outcome)).map (fun left ↦ (left.size, left.buffer.map (·.bytes))) =
        some (4, some [0xee, 0xee, 0xee, 0xee, 0]) ∧
      Formed tight overrun.1 overrun.2 :=
  have hrun : Run tight overrun.1 overrun.2 := .of_isSome _
  ⟨hrun, by decide, by decide, Run.formed hrun⟩

end Service

end QueuedFiles
