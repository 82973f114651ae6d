import QueuedFiles.Proofs.Service.Deadlock

/-!
A standstill: each worker waits for room in the queue that the other one ought to empty. It lasts,
and one compressed request more than the bound allows is enough for it at every capacity.
-/

namespace QueuedFiles

namespace Service

variable {fs : FileSystem} {codec : Codec} {s t u : Service fs codec} {log more : List Incident}
  {r : Request} {lane : Lane}

structure Jammed (s : Service fs codec) : Prop where
  file : ∃ r, s.worker .file = .routing r (.handOff .codec)
  codec : ∃ r, s.worker .codec = .routing r (.handOff .file)
  full : ∀ lane, (s.queue lane).isOpen = true ∧
    (s.queue lane).capacity ≤ (s.queue lane).messages.length
  closing : s.closing = .notYet ∨ s.closing = .markingFiles

theorem Jammed.routing (h : s.Jammed) (lane : Lane) :
    ∃ r onward, s.worker lane = .routing r (.handOff onward) := by
  cases lane with
  | file => exact h.file.imp fun _ hw ↦ ⟨_, hw⟩
  | codec => exact h.codec.imp fun _ hw ↦ ⟨_, hw⟩

theorem Jammed.blocked (h : s.Jammed) (lane : Lane) : s.Blocked lane := by
  obtain ⟨r, onward, hw⟩ := h.routing lane
  exact ⟨r, onward, hw, Queue.offer_of_full (h.full onward).1 (h.full onward).2⟩

theorem Blocked.work_eq_none (h : s.Blocked lane) : s.work lane = none := by
  obtain ⟨r, onward, hw, ho⟩ := h
  simp [work, route, hw, ho]

/-- Callers and the owner go on as far as they can, and nothing gets better: no more can be told of
any request than that it has entered. -/
theorem Transition.jammed (h : Transition s more t) (hj : s.Jammed) :
    t.Jammed ∧ ∀ i ∈ more, ∃ id o, i = .entered id o := by
  have noRoom : ∀ lane, ¬ (s.queue lane).messages.length < (s.queue lane).capacity :=
    fun lane ↦ Nat.not_lt.2 (hj.full lane).2
  cases h with
  | newHeap | turnedAway | entered | asked | forgot | gaveBack =>
    exact ⟨⟨by simpa using hj.file, by simpa using hj.codec, by simpa using hj.full,
      by simpa using hj.closing⟩, by simp⟩
  | refused r hr ho =>
    rw [(hj.full _).1] at ho
    cases ho
  | accepted r lane hr hl ho hroom | handedOff lane onward r hw ho hroom
  | marked lane following hm ho hroom => exact absurd hroom (noRoom _)
  | taken lane r ms hw | stopped lane ms hw | published lane r hw | signaled lane id hw
  | released lane id hw | left lane hw =>
    obtain ⟨q, onward, hb⟩ := hj.routing lane
    cases hw.symm.trans hb
  | prepared r room heaps hp =>
    obtain ⟨q, onward, hb⟩ := hj.routing .codec
    cases hp.holds.symm.trans hb
  | staged lane r st a added files codecState he =>
    obtain ⟨q, onward, hb⟩ := hj.routing lane
    have hat : s.At q (.hand lane (.routing (.handOff onward))) := hb
    exact (he.not_routing hat).elim
  | crashed r room hw =>
    obtain ⟨q, onward, hb⟩ := hj.routing .codec
    cases hw.symm.trans hb
  | abandoned lane onward r hw ho =>
    rw [(hj.full onward).1] at ho
    cases ho
  | closing =>
    exact ⟨⟨by simpa using hj.file, by simpa using hj.codec, by simpa using hj.full, .inr rfl⟩,
      by simp⟩
  | unmarked lane following hm ho =>
    rw [(hj.full lane).1] at ho
    cases ho
  | joined lane following hc hw =>
    obtain ⟨q, onward, hb⟩ := hj.routing lane
    cases hw.symm.trans hb
  | dismantled hd =>
    rcases hj.closing with hc | hc <;> cases hc.symm.trans hd

theorem Run.jammed (h : Run s log t) (hj : s.Jammed) :
    t.Jammed ∧ ∀ i ∈ log, ∃ id o, i = .entered id o := by
  induction h with
  | refl => exact ⟨hj, by simp⟩
  | step m _ hs ih =>
    obtain ⟨hjammed, hbefore⟩ := ih
    obtain ⟨hstill, hmore⟩ := (step_transition m hs).jammed hjammed
    refine ⟨hstill, fun i hi ↦ ?_⟩
    rcases List.mem_append.1 hi with hi | hi
    · exact hbefore i hi
    · exact hmore i hi

/-- What had not come of a request before a standstill does not come of it any more. -/
theorem Run.unfinished (h : Run s more t) (hj : s.Jammed) {id : Nat}
    (hp : id ∉ log.filterMap Incident.published?) (hs : id ∉ log.filterMap Incident.signaled?)
    (hd : id ∉ ids (log.filterMap Incident.dropped?)) :
    (∀ o, .published id o ∉ log ++ more) ∧ .signaled id ∉ log ++ more ∧
      ∀ r, r.id = id → .dropped r ∉ log ++ more := by
  have hstill := (h.jammed hj).2
  refine ⟨?_, ?_, ?_⟩
  · intro o ho
    rcases List.mem_append.1 ho with ho | ho
    · exact hp (mem_published.2 ⟨o, ho⟩)
    · obtain ⟨_, _, he⟩ := hstill _ ho
      cases he
  · intro hid
    rcases List.mem_append.1 hid with hid | hid
    · exact hs (mem_signaled.2 hid)
    · obtain ⟨_, _, he⟩ := hstill _ hid
      cases he
  · intro r hid hr
    rcases List.mem_append.1 hr with hr | hr
    · exact hd (mem_dropped.2 ⟨r, hid, hr⟩)
    · obtain ⟨_, _, he⟩ := hstill _ hr
      cases he

/-- Only one lane has changed, and nothing that callers and the owner look at. -/
structure Within (lane : Lane) (s t : Service fs codec) : Prop where
  queue : ∀ k, k ≠ lane → t.queue k = s.queue k
  worker : ∀ k, k ≠ lane → t.worker k = s.worker k
  config : t.config = s.config
  closing : t.closing = s.closing
  entering : t.entering = s.entering

theorem Within.trans (h : Within lane s t) (h' : Within lane t u) : Within lane s u where
  queue k hk := (h'.queue k hk).trans (h.queue k hk)
  worker k hk := (h'.worker k hk).trans (h.worker k hk)
  config := h'.config.trans h.config
  closing := h'.closing.trans h.closing
  entering := h'.entering.trans h.entering

theorem exists_submit (s : Service fs codec) (o : Order) {path : Path} (hcl : s.closing = .notYet)
    (he : s.entering = []) (ha : s.admits o = true)
    (hp : Path.ofText o.path s.config.maxPathLength.toNat = .ok path)
    (hl : lane = entryLane o.operation o.flags) (ho : (s.queue lane).isOpen = true)
    (hr : (s.queue lane).messages.length < (s.queue lane).capacity) :
    ∃ log t r, Run s log t ∧ log.filterMap Incident.accepted? = [r] ∧
      r.operation = o.operation ∧ r.flags = o.flags ∧ r.path = path ∧ Within lane s t ∧
      t.queue lane = (s.queue lane).extend (.payload r) ∧ t.worker lane = s.worker lane := by
  let r := o.request s.nextId path (o.heap s.heap) (o.draw s.heap s.heaps).1
  let t : Service fs codec := (s.enter o).2
  have ht : t = { s with
      heaps := (o.draw s.heap s.heaps).2
      nextId := s.nextId + 1
      entering := [r]
      tickets := s.tickets ++ [.ofRequest r] } := by
    simp [t, enter, hp, he, r]
  have hstep : s.step (.enter o) = some t := by simp [step, hcl, ha, t]
  have hrecord : s.record (.enter o) = [.entered s.nextId o] := by
    simp [record, enter, hp, Order.request]
  have hoffer : (t.queue (entryLane r.operation r.flags)).offer (.payload r) =
      .taken ((s.queue lane).extend (.payload r)) := by
    have hq : t.queue lane = s.queue lane := by simp [ht]
    have hlane : entryLane r.operation r.flags = lane := hl.symm
    rw [hlane, hq, Queue.offer_of_room ho hr]
  have hfind : t.entering.find? (fun k ↦ k.id = s.nextId) = some r := by
    simp [ht, r, Order.request]
  let u : Service fs codec :=
    ({ t with entering := t.entering.filter fun k ↦ k.id ≠ s.nextId } : Service fs codec).setQueue
      (entryLane r.operation r.flags) ((s.queue lane).extend (.payload r))
  have hpush : t.step (.push s.nextId) = some u := by
    simp [step, push, hfind, hoffer, u]
  have hrecord' : t.record (.push s.nextId) = [.accepted r] := by
    simp [record, recordPush, hfind, hoffer]
  have hlane : entryLane r.operation r.flags = lane := hl.symm
  have hrun := (Run.one _ hstep).trans (Run.one _ hpush)
  rw [hrecord, hrecord'] at hrun
  refine ⟨_, u, r, hrun, rfl, rfl, rfl, rfl, ⟨?_, ?_, ?_, ?_, ?_⟩, ?_, ?_⟩
  · intro k hk
    simp [u, hlane, hk, ht]
  · intro k hk
    simp [u, ht]
  · simp [u, ht]
  · simp [u, ht]
  · simp [u, ht, he, r, Order.request]
  · simp [u, hlane]
  · simp [u, ht]

/-- Callers fill a queue with writes, up to its capacity. -/
theorem exists_fill (o : Order) {path : Path} (n : Nat) (s : Service fs codec)
    (hcl : s.closing = .notYet) (he : s.entering = []) (hw : o.operation = .write)
    (hp : Path.ofText o.path s.config.maxPathLength.toNat = .ok path)
    (hl : lane = entryLane o.operation o.flags) (ho : (s.queue lane).isOpen = true)
    (hr : (s.queue lane).messages.length + n ≤ (s.queue lane).capacity) :
    ∃ log t, Run s log t ∧ Within lane s t ∧ t.worker lane = s.worker lane ∧
      (t.queue lane).isOpen = true ∧ (t.queue lane).capacity = (s.queue lane).capacity ∧
      (t.queue lane).messages.length = (s.queue lane).messages.length + n ∧
      (log.filterMap Incident.accepted?).countP (·.isCompressed) =
        if o.flags.contains .useCompression then n else 0 := by
  induction n generalizing s with
  | zero => exact ⟨[], s, .refl, ⟨by simp, by simp, rfl, rfl, rfl⟩, rfl, ho, rfl, rfl, by simp⟩
  | succ n ih =>
    have ha : s.admits o = true := by
      cases o with
      | read => cases hw
      | write => rfl
    obtain ⟨log, t, r, hrun, hlog, -, hflags, -, hin, hq, hwork⟩ :=
      exists_submit s o hcl he ha hp hl ho (by omega)
    obtain ⟨more, u, hrun', hin', hwork', ho', hc', hlen, hcount⟩ :=
      ih t (hin.closing.trans hcl) (hin.entering.trans he) (hin.config ▸ hp)
        (by simpa [hq] using ho) (by simp [hq]; omega)
    refine ⟨log ++ more, u, hrun.trans hrun', hin.trans hin', hwork'.trans hwork, ho', ?_, ?_, ?_⟩
    · simpa [hq] using hc'
    · simp only [hlen, hq, Queue.messages_extend, List.length_append, List.length_singleton]
      omega
    · rw [List.filterMap_append, List.countP_append, hcount, hlog]
      simp only [List.countP_singleton, Request.isCompressed, hflags]
      split <;> omega

theorem accepted_recordWork (s : Service fs codec) (lane : Lane) :
    (s.record (.work lane)).filterMap Incident.accepted? = [] := by
  have hd : ((s.waiting lane).map Incident.dropped).filterMap Incident.accepted? = [] := by
    simp [Incident.accepted?]
  have hs : ∀ r, (s.recordStage lane r).filterMap Incident.accepted? = [] := by
    intro r
    unfold recordStage
    split <;> rfl
  simp only [record, recordWork]
  repeat' split
  all_goals first
    | rfl
    | exact hs _
    | exact hd

theorem Run.work (h : Run s log t) (hlog : log.filterMap Incident.accepted? = [])
    (hw : t.work lane = some u) :
    ∃ log', Run s log' u ∧ log'.filterMap Incident.accepted? = [] := by
  refine ⟨_, .step (.work lane) h hw, ?_⟩
  rw [List.filterMap_append, hlog, accepted_recordWork, List.append_nil]

/-- The file worker reads a file for a compressed read, and holds on to it. -/
theorem exists_reading (s : Service FileSystem.single codec) (hw : s.worker .file = .idle)
    (hq : (s.queue .file).messages = [.payload r]) (hop : r.operation = .read)
    (hcomp : r.flags.contains .useCompression = true) (hpath : r.path = ⟨"f"⟩) :
    ∃ log t q, Run s log t ∧ log.filterMap Incident.accepted? = [] ∧ Within .file s t ∧
      t.worker .file = .routing q (.handOff .codec) ∧
      t.queue .file = { s.queue .file with messages := [] } := by
  let t : Service FileSystem.single codec :=
    (s.setQueue .file { s.queue .file with messages := [] }).setWorker .file (.serving r.begin)
  have htake : s.work .file = some t := by simp [work, hw, take, Queue.take?, hq, t]
  have hserve : t.work .file = some (t.serveFile r.begin) := by simp [work, t]
  have hnative : r.begin.path.native = .ok "f" := by
    rw [Request.begin, hpath]
    rfl
  have hop' : r.begin.operation = .read := hop
  have hdata := readFull_whole t.files
  have hok : (FileStage.run FileSystem.single t.files t.heaps r.begin).1.result = .ok () := by
    simp only [FileStage.run, hop', FileStage.read, hnative, FileSystem.single]
    simp [hdata]
  have hnext : (FileStage.run FileSystem.single t.files t.heaps r.begin).1.next .file =
      .handOff .codec := by
    have hr := FileStage.run_resized t.files t.heaps r.begin
    have hcomp' : r.begin.flags.contains .useCompression = true := hcomp
    simp [Staged.next, hr.operation, hr.flags, hop', hcomp', hok, nextAfter, Except.isOk,
      Except.toBool]
  obtain ⟨log, hrun, hlog⟩ := Run.refl.work rfl htake
  obtain ⟨log, hrun, hlog⟩ := hrun.work hlog hserve
  refine ⟨log, t.serveFile r.begin, (FileStage.run FileSystem.single t.files t.heaps r.begin).1.routed
    .file, hrun, hlog, ⟨?_, ?_, ?_, ?_, ?_⟩, ?_, ?_⟩
  · intro k hk
    simp [serveFile, finish, book, t, hk]
  · intro k hk
    simp [serveFile, finish, book, t, hk]
  · simp [serveFile, finish, book, t]
  · simp [serveFile, finish, book, t]
  · simp [serveFile, finish, book, t]
  · simp [serveFile, finish, hnext]
  · simp [serveFile, finish, book, t]

/-- The codec worker makes a block for a compressed write, and holds on to it. -/
theorem exists_compressing (hc : codec.Returns) (s : Service fs codec)
    (hw : s.worker .codec = .idle) (hq : (s.queue .codec).messages = [.payload r])
    (hop : r.operation = .write) :
    ∃ log t q, Run s log t ∧ log.filterMap Incident.accepted? = [] ∧ Within .codec s t ∧
      t.worker .codec = .routing q (.handOff .file) ∧
      t.queue .codec = { s.queue .codec with messages := [] } := by
  let t : Service fs codec :=
    (s.setQueue .codec { s.queue .codec with messages := [] }).setWorker .codec (.serving r.begin)
  have htake : s.work .codec = some t := by simp [work, hw, take, Queue.take?, hq, t]
  have hop' : r.begin.operation = .write := hop
  let u : Service fs codec := { t with codecWorker := .coding r.begin none }
  have hserve : t.work .codec = some u := by simp [work, t, serveCodec, hop', u]
  obtain ⟨answer, state, hanswer⟩ := hc.1 u.codecState r.begin.payload
  let block := CodecStage.checkedBlock codec.name r.begin answer
  let staged := CodecStage.compressed u.heaps r.begin block
  let v : Service fs codec := ({ u with codecState := state } : Service fs codec).finish .codec staged
    .compress (CodecStage.compressAddition r.begin block)
  have hcall : u.work .codec = some v := by
    have hu : u.worker .codec = .coding r.begin none := rfl
    simp [work, hu, callCodec, hanswer, v, staged, block]
  have hnext : staged.next .codec = .handOff .file := by
    have hr := CodecStage.compressed_resized u.heaps r.begin block
    simp [Staged.next, staged, hr.operation, hop', nextAfter]
  obtain ⟨log, hrun, hlog⟩ := Run.refl.work rfl htake
  obtain ⟨log, hrun, hlog⟩ := hrun.work hlog hserve
  obtain ⟨log, hrun, hlog⟩ := hrun.work hlog hcall
  have huw : ∀ k, k ≠ .codec → u.worker k = s.worker k := by
    intro k hk
    cases k with
    | file => simp [u, t, worker, setWorker, setQueue]
    | codec => exact absurd rfl hk
  have huq : ∀ k, u.queue k = t.queue k := by
    intro k
    cases k <;> rfl
  refine ⟨log, v, staged.routed .codec, hrun, hlog, ⟨?_, ?_, ?_, ?_, ?_⟩, ?_, ?_⟩
  · intro k hk
    simp [v, finish, book, huq, t, hk]
  · intro k hk
    simp [v, finish, book, huw, hk]
  · simp [v, finish, book, u, t]
  · simp [v, finish, book, u, t]
  · simp [v, finish, book, u, t]
  · simp [v, finish, hnext]
  · simp [v, finish, book, huq, t]

theorem bounds_of_validate {config : Config} (h : config.validate = .ok ()) :
    1 ≤ config.queueCapacity.toNat ∧ 1 ≤ config.maxPathLength.toNat ∧
      config.maxDecompressedSize.toNat ≤ Limits.decompressedSizeCeiling := by
  unfold Config.validate at h
  repeat' split at h
  all_goals first
    | omega
    | cases h

/-- Each worker holds a request that is to go to the other one, and nothing waits in between. -/
structure Crossed (config : Config) (s : Service fs codec) : Prop where
  file : ∃ r, s.worker .file = .routing r (.handOff .codec)
  codec : ∃ r, s.worker .codec = .routing r (.handOff .file)
  queues : ∀ lane, s.queue lane = .create config.queueCapacity.toNat
  config : s.config = config
  closing : s.closing = .notYet
  entering : s.entering = []

def compressedRead : Order := .read "f" 0 false true

def emptyWrite (compressed : Bool) : Order := .write "f" [] compressed false

theorem lane_compressedRead :
    Lane.file = entryLane compressedRead.operation compressedRead.flags := by decide

theorem lane_compressedWrite :
    Lane.codec = entryLane (emptyWrite true).operation (emptyWrite true).flags := by decide

theorem lane_plainWrite :
    Lane.file = entryLane (emptyWrite false).operation (emptyWrite false).flags := by decide

theorem path_of_validate {config : Config} (hv : config.validate = .ok ()) :
    Path.ofText "f" config.maxPathLength.toNat = .ok ⟨"f"⟩ := by
  have hlen := (bounds_of_validate hv).2.1
  have hone : "f".utf8ByteSize = 1 := by decide
  simp [Path.ofText, hone]
  omega

/-- A compressed read and a compressed write are enough to occupy both workers. -/
theorem exists_crossed {config : Config} (hv : config.validate = .ok ()) (hc : codec.Returns)
    (codecState : codec.State) :
    ∃ log s, Run (sample config codec codecState) log s ∧ s.Crossed config ∧
      (log.filterMap Incident.accepted?).countP (·.isCompressed) = 2 := by
  let s₀ := sample config codec codecState
  have hqueue : ∀ lane, s₀.queue lane = .create config.queueCapacity.toNat := by
    intro lane
    cases lane <;> rfl
  have hidle : ∀ lane, s₀.worker lane = .idle := by
    intro lane
    cases lane <;> rfl
  have hroom : ∀ lane, (s₀.queue lane).messages.length < (s₀.queue lane).capacity := by
    intro lane
    simp only [hqueue, Queue.create, List.length_nil]
    omega
  -- The read goes into the file worker's hands.
  obtain ⟨log₁, s₁, r, hrun₁, hlog₁, hop₁, hflags₁, hpath₁, hin₁, hq₁, hw₁⟩ :=
    exists_submit s₀ compressedRead rfl rfl rfl (path_of_validate hv) lane_compressedRead
      (by rw [hqueue]; rfl) (hroom .file)
  have hr : r.isCompressed = true := by
    rw [Request.isCompressed, hflags₁]
    decide
  have hone₁ : (s₁.queue .file).messages = [.payload r] := by
    rw [hq₁, hqueue]
    rfl
  obtain ⟨log₂, s₂, held, hrun₂, hlog₂, hin₂, hw₂, hq₂⟩ :=
    exists_reading s₁ (hw₁.trans (hidle .file)) hone₁ hop₁ hr hpath₁
  have hin := hin₁.trans hin₂
  have hfile : s₂.queue .file = .create config.queueCapacity.toNat := by
    rw [hq₂, hq₁, hqueue]
    rfl
  -- The write goes into those of the codec worker.
  have hcodec : s₂.queue .codec = s₀.queue .codec := hin.queue _ (by decide)
  have hconfig : s₂.config = config := hin.config
  obtain ⟨log₃, s₃, w, hrun₃, hlog₃, hop₃, hflags₃, -, hin₃, hq₃, hw₃⟩ :=
    exists_submit s₂ (emptyWrite true) hin.closing hin.entering rfl
      (hconfig ▸ path_of_validate hv) lane_compressedWrite (by rw [hcodec, hqueue]; rfl)
      (hcodec ▸ hroom .codec)
  have hw : w.isCompressed = true := by
    rw [Request.isCompressed, hflags₃]
    decide
  have hone₃ : (s₃.queue .codec).messages = [.payload w] := by
    rw [hq₃, hcodec, hqueue]
    rfl
  have hidle₃ : s₃.worker .codec = .idle :=
    hw₃.trans ((hin.worker _ (by decide)).trans (hidle .codec))
  obtain ⟨log₄, s₄, held', hrun₄, hlog₄, hin₄, hw₄, hq₄⟩ :=
    exists_compressing hc s₃ hidle₃ hone₃ hop₃
  have hin' := hin₃.trans hin₄
  refine ⟨_, s₄, ((hrun₁.trans hrun₂).trans hrun₃).trans hrun₄, ⟨⟨held, ?_⟩, ⟨held', hw₄⟩, ?_,
    hin'.config.trans hconfig, hin'.closing.trans hin.closing,
    hin'.entering.trans hin.entering⟩, ?_⟩
  · rw [hin'.worker _ (by decide), hw₂]
  · intro lane
    cases lane with
    | file => rw [hin'.queue _ (by decide), hfile]
    | codec =>
      rw [hq₄, hq₃, hcodec, hqueue]
      rfl
  · simp [hlog₁, hlog₂, hlog₃, hlog₄, hr, hw]

/-- A standstill with a compressed read in the file worker's hands, a compressed write in those of
the codec worker, further ones in all of the codec queue, and plain writes in the file queue. -/
theorem exists_jammed {config : Config} (hv : config.validate = .ok ()) (hc : codec.Returns)
    (codecState : codec.State) :
    ∃ log s, Run (sample config codec codecState) log s ∧ s.Jammed ∧
      (log.filterMap Incident.accepted?).countP (·.isCompressed) =
        config.queueCapacity.toNat + 2 := by
  obtain ⟨log, s, hrun, hs, hcount⟩ := exists_crossed hv hc codecState
  have hcapacity : ∀ lane, (s.queue lane).capacity = config.queueCapacity.toNat := by
    intro lane
    rw [hs.queues]
    exact Nat.max_eq_left (bounds_of_validate hv).1
  have hempty : ∀ lane, (s.queue lane).messages.length = 0 := fun lane ↦ by rw [hs.queues]; rfl
  have hopen : ∀ lane, (s.queue lane).isOpen = true := fun lane ↦ by rw [hs.queues]; rfl
  obtain ⟨log₁, s₁, hrun₁, hin₁, hw₁, hopen₁, hcap₁, hlen₁, hcount₁⟩ :=
    exists_fill (emptyWrite true) config.queueCapacity.toNat s hs.closing hs.entering rfl
      (hs.config ▸ path_of_validate hv) lane_compressedWrite (hopen .codec)
      (by simp [hempty, hcapacity])
  have hfile : s₁.queue .file = s.queue .file := hin₁.queue _ (by decide)
  obtain ⟨log₂, s₂, hrun₂, hin₂, hw₂, hopen₂, hcap₂, hlen₂, hcount₂⟩ :=
    exists_fill (emptyWrite false) config.queueCapacity.toNat s₁ (hin₁.closing.trans hs.closing)
      (hin₁.entering.trans hs.entering) rfl ((hin₁.config.trans hs.config) ▸ path_of_validate hv)
      lane_plainWrite (hfile ▸ hopen .file) (by simp [hfile, hempty, hcapacity])
  refine ⟨_, s₂, (hrun.trans hrun₁).trans hrun₂, ⟨?_, ?_, ?_, .inl ?_⟩, ?_⟩
  · rw [hw₂, hin₁.worker _ (by decide)]
    exact hs.file
  · rw [hin₂.worker _ (by decide), hw₁]
    exact hs.codec
  · intro lane
    cases lane with
    | file =>
      refine ⟨hopen₂, Nat.le_of_eq ?_⟩
      rw [hcap₂, hlen₂, hfile, hempty, hcapacity, Nat.zero_add]
    | codec =>
      rw [hin₂.queue _ (by decide)]
      refine ⟨hopen₁, Nat.le_of_eq ?_⟩
      rw [hcap₁, hlen₁, hempty, hcapacity, Nat.zero_add]
  · exact hin₂.closing.trans (hin₁.closing.trans hs.closing)
  · have hcompressed : ∀ b, (emptyWrite b).flags.contains .useCompression = b := by decide
    simp only [List.filterMap_append, List.countP_append, hcount, hcount₁, hcount₂, hcompressed]
    simp
    omega

theorem inFlight_le (log : List Incident) :
    (inFlight log).length ≤ (log.filterMap Incident.accepted?).countP (·.isCompressed) := by
  rw [inFlight, ← List.countP_eq_length_filter]
  exact List.filter_sublist.countP_le

/-- The bound on compressed requests in flight below which the workers go on, at every capacity, and
the standstill just above it. -/
theorem deadlock_threshold (hc : codec.Returns) :
    (∀ {fs : FileSystem} (config : Config) (heap : HeapId) (heaps : Heaps) (files : fs.State)
      (codecState : codec.State) (log : List Incident) (s : Service fs codec),
      Run (fresh config heap heaps files codecState) log s →
      (inFlight log).length ≤ max config.queueCapacity.toNat 1 + 1 →
      ¬ (s.Blocked .file ∧ s.Blocked .codec) ∧
      ∀ r, .accepted r ∈ log → .signaled r.id ∉ log →
        r.id ∉ ids (log.filterMap Incident.dropped?) → ∃ lane, (s.work lane).isSome = true) ∧
    ∀ (config : Config) (codecState : codec.State), config.validate = .ok () →
      ∃ log s, Run (sample config codec codecState) log s ∧
        (inFlight log).length = config.queueCapacity.toNat + 2 ∧
        ∀ more t, Run s more t → ∀ lane, t.Blocked lane ∧ t.work lane = none := by
  constructor
  · intro fs config heap heaps files codecState log s h hn
    exact ⟨h.not_both_blocked hc hn, fun r hr hs hd ↦ h.enabled hc hn hr hs hd⟩
  · intro config codecState hv
    obtain ⟨log, s, hrun, hj, hcount⟩ := exists_jammed hv hc codecState
    have hcap := (bounds_of_validate hv).1
    have hle := inFlight_le log
    have hge := hrun.lt_inFlight hc (hj.blocked .file) (hj.blocked .codec)
    refine ⟨log, s, hrun, by omega, ?_⟩
    intro more t h lane
    have hb := (h.jammed hj).1.blocked lane
    exact ⟨hb, hb.work_eq_none⟩

/-- A compressed write that has just been accepted. -/
def submitted : List Incident × Service FileSystem.single (.ofPure .verbatim) :=
  ((sample default (.ofPure .verbatim) ()).follow [.enter (.write "f" [1, 2] true false),
    .push 1]).get (by decide)

theorem deadlock_threshold_default :
    (∃ lane, (submitted.2.work lane).isSome = true) ∧
    ∃ log s, Run (sample default (.ofPure .verbatim) ()) log s ∧
      (inFlight log).length = Config.default.queueCapacity.toNat + 2 ∧
      ∀ more t, Run s more t → ∀ lane, t.Blocked lane ∧ t.work lane = none := by
  have h := deadlock_threshold (Codec.ofPure_returns .verbatim)
  have hrun : Run (sample default (.ofPure .verbatim) ()) submitted.1 submitted.2 := .of_isSome _
  have ha : 1 ∈ ids (submitted.1.filterMap Incident.accepted?) := by decide
  obtain ⟨r, hid, hr⟩ := mem_accepted.1 ha
  refine ⟨(h.1 _ _ _ _ _ _ _ hrun (by decide)).2 r hr ?_ ?_, h.2 default () rfl⟩
  · rw [hid, ← mem_signaled]
    decide
  · rw [hid]
    decide

/-- A compressed read of a device and a compressed write that wait for room in each other's queue,
which another compressed write and a plain one have taken. -/
def crossing (path : String) : List Move :=
  [.enter (.read "/dev/null" 0 false true), .push 1, .work .file, .work .file,
    .enter (.write path [1] true false), .push 2, .work .codec, .work .codec, .work .codec,
    .enter (.write "g" [] true false), .push 3, .enter (.write "g" [] false false), .push 4]

end Service

end QueuedFiles
