import QueuedFiles.Block.Samples
import QueuedFiles.Proofs.Service.Staging
import QueuedFiles.Proofs.Service.Tally

/-!
The counters as sums over the stages of a run. Each stage adds what it has done, once and before its
request goes on, so whoever sees a flag finds all stages of that request in the counters.
-/

namespace QueuedFiles

open Telemetry

/-- The counters that add up stages. -/
inductive Gauge where
  | reads
  | writes
  | compressions
  | decompressions
  | failures
  | bytesRead
  | bytesWritten

namespace Gauge

def value (c : Counters) : Gauge → UInt64
  | reads => c.readsCompleted
  | writes => c.writesCompleted
  | compressions => c.compressions
  | decompressions => c.decompressions
  | failures => c.failures
  | bytesRead => c.bytesRead
  | bytesWritten => c.bytesWritten

def weight : Addition → Gauge → UInt64
  | .read _, reads | .write _, writes | .compress _ _, compressions
  | .decompress _ _, decompressions | .failure, failures => 1
  | .read n, bytesRead | .write n, bytesWritten => n
  | _, _ => 0

/-- What an incident stands for: one for each stage that has succeeded or failed, the bytes that a
read has fetched from its file, and the bytes that a write has put there. -/
def adds : Incident → Gauge → Nat
  | .staged .file r _ (.ok ()), reads => if r.operation = .read then 1 else 0
  | .staged .file r _ (.ok ()), writes => if r.operation = .write then 1 else 0
  | .staged .codec r _ (.ok ()), compressions => if r.operation = .write then 1 else 0
  | .staged .codec r _ (.ok ()), decompressions => if r.operation = .read then 1 else 0
  | .staged _ _ _ (.error _), failures => 1
  | .staged .file r after (.ok ()), bytesRead =>
    if r.operation = .read then after.payload.length else 0
  | .staged .file r _ (.ok ()), bytesWritten =>
    if r.operation = .write then r.payload.length else 0
  | _, _ => 0

def total (log : List Incident) (g : Gauge) : Nat := log.foldr (fun i n ↦ adds i g + n) 0

theorem value_add (c : Counters) (x : Addition) (g : Gauge) :
    value (c.add x) g = value c g + weight x g := by
  cases x <;> cases g <;> simp [value, weight, Counters.add]

@[simp] theorem total_nil (g : Gauge) : total [] g = 0 := rfl

@[simp] theorem total_cons (i : Incident) (log : List Incident) (g : Gauge) :
    total (i :: log) g = adds i g + total log g :=
  rfl

theorem total_append (log more : List Incident) (g : Gauge) :
    total (log ++ more) g = total log g + total more g := by
  induction log with
  | nil => simp
  | cons i log ih =>
    rw [List.cons_append, total_cons, total_cons, ih]
    omega

theorem adds_of_not_staged {i : Incident}
    (h : ∀ lane r after result, i ≠ .staged lane r after result) (g : Gauge) : adds i g = 0 := by
  cases i with
  | staged lane r after result => exact absurd rfl (h lane r after result)
  | _ => rfl

theorem total_of_unstaged {log : List Incident}
    (h : ∀ lane r after result, .staged lane r after result ∉ log) (g : Gauge) :
    total log g = 0 := by
  induction log with
  | nil => rfl
  | cons i log ih =>
    have hi : adds i g = 0 := by
      apply adds_of_not_staged
      rintro lane r after result rfl
      exact h lane r after result (List.mem_cons_self ..)
    have hlog := ih fun lane r after result hm ↦
      h lane r after result (List.mem_cons_of_mem _ hm)
    rw [total_cons, hi, hlog]

end Gauge

/-- The incidents of one request, and those of all others. -/
def own (id : Nat) (log : List Incident) : List Incident := log.filter fun i ↦ i.id? = some id

def others (id : Nat) (log : List Incident) : List Incident :=
  log.filter fun i ↦ ¬ i.id? = some id

theorem Gauge.total_split (id : Nat) (log : List Incident) (g : Gauge) :
    total log g = total (own id log) g + total (others id log) g := by
  induction log with
  | nil => rfl
  | cons i log ih =>
    by_cases hi : i.id? = some id
    · have hown : own id (i :: log) = i :: own id log := List.filter_cons_of_pos (by simpa using hi)
      have hothers : others id (i :: log) = others id log :=
        List.filter_cons_of_neg (by simpa using hi)
      rw [hown, hothers, total_cons, total_cons, ih]
      omega
    · have hown : own id (i :: log) = own id log := List.filter_cons_of_neg (by simpa using hi)
      have hothers : others id (i :: log) = i :: others id log :=
        List.filter_cons_of_pos (by simpa using hi)
      rw [hown, hothers, total_cons, total_cons, ih]
      omega

namespace Service

variable {fs : FileSystem} {codec : Codec} {s t u : Service fs codec} {log more : List Incident}
  {q r : Request} {lane : Lane} {staged : Staged} {a : Activity} {added : Option Addition}
  {config : Config} {heap : HeapId} {heaps : Heaps} {files : fs.State} {codecState : codec.State}

/-- The counters move with a stage that ends, or by one for a request that is given up. -/
theorem Transition.counters (h : Transition s more t) :
    (∃ lane r staged a added files codecState, s.StageEnd lane r staged a added files codecState ∧
      more = [.staged lane r (staged.routed lane) staged.result] ∧
      t.recorder = (s.book a added staged.result).recorder) ∨
    (∀ lane r after result, .staged lane r after result ∉ more) ∧
      (t.recorder.counters = s.recorder.counters ∨
        t.recorder.counters = s.recorder.counters.add .abandoned) := by
  cases h with
  | staged lane r staged a added files codecState he =>
    exact .inl ⟨lane, r, staged, a, added, files, codecState, he, rfl, by simp⟩
  | abandoned =>
    refine .inr ⟨by simp, .inr ?_⟩
    simp [Recorder.count, Recorder.update, Counters.addAll]
  | _ => exact .inr ⟨by simp, .inl (by simp)⟩

theorem StageEnd.weighs (he : s.StageEnd lane r staged a added files codecState)
    (hc : ∀ room, s.worker .codec = .coding r room → (room = none ↔ r.operation = .write))
    (g : Gauge) :
    load (Gauge.weight · g) added staged.result =
      UInt64.ofNat (Gauge.adds (.staged lane r (staged.routed lane) staged.result) g) := by
  have hop := he.resized.operation
  cases he with
  | file hw hs =>
    cases hres : staged.result with
    | error e => cases g <;> simp [load, Gauge.weight, Gauge.adds]
    | ok =>
      cases hr : r.operation with
      | read =>
        obtain ⟨-, hsize, -⟩ := FileStage.read_succeeded hr hs hres
        cases g <;> simp [load, Gauge.weight, Gauge.adds, FileStage.addition, hop, hr, hsize]
      | write =>
        obtain ⟨-, -, hsize⟩ := FileStage.write_staged hr hs
        rw [if_pos hres] at hsize
        cases g <;> simp [load, Gauge.weight, Gauge.adds, FileStage.addition, hop, hr, hsize]
  | overflow hw ho hcap =>
    cases g <;> simp [CodecStage.overflow, load, Gauge.weight, Gauge.adds]
  | @compress _ answer _ hw =>
    have hr : r.operation = .write := (hc none hw).1 rfl
    cases hb : CodecStage.checkedBlock codec.name r answer with
    | error e =>
      cases g <;> simp [CodecStage.compressed, CodecStage.compressAddition, load, Gauge.weight,
        Gauge.adds]
    | ok block =>
      cases g <;> simp [CodecStage.compressed, CodecStage.compressAddition, load, Gauge.weight,
        Gauge.adds, hr]
  | @decompress _ room d _ hw =>
    have hr : r.operation = .read := by
      cases ho : r.operation with
      | read => rfl
      | write => cases (hc (some room) hw).2 ho
    cases hd : d.reported with
    | error e =>
      cases g <;> simp [CodecStage.decompressed, CodecStage.decompressAddition, load, Gauge.weight,
        Gauge.adds]
    | ok n =>
      cases g <;> simp [CodecStage.decompressed, CodecStage.decompressAddition, load, Gauge.weight,
        Gauge.adds, hr]

theorem Transition.gauged (h : Transition s more t)
    (hs : Run (fresh config heap heaps files codecState) log s) (g : Gauge) :
    g.value t.recorder.counters = g.value s.recorder.counters + UInt64.ofNat (g.total more) := by
  rcases h.counters with ⟨lane, r, staged, a, added, files, codecState, he, rfl, hrec⟩ | ⟨hno, hc⟩
  · have hbook := @value_book fs codec s (Gauge.value · g) (Gauge.weight · g)
      (fun c x ↦ Gauge.value_add c x g) a added staged.result
    rw [hrec, hbook, he.weighs hs.coding_side]
    simp
  · rw [Gauge.total_of_unstaged hno]
    rcases hc with hc | hc
    · simp [hc]
    · rw [hc, Gauge.value_add]
      cases g <;> simp [Gauge.weight]

theorem Run.gauged (h : Run (fresh config heap heaps files codecState) log s) (g : Gauge) :
    g.value s.recorder.counters = UInt64.ofNat (g.total log) := by
  induction h with
  | refl => cases g <;> rfl
  | step m h hs ih =>
    rw [(step_transition m hs).gauged h g, ih, Gauge.total_append, UInt64.ofNat_add]

end Service

/-! What a request adds is read off its stages. -/

theorem own_cons (id : Nat) (i : Incident) (log : List Incident) :
    own id (i :: log) = if i.id? = some id then i :: own id log else own id log := by
  simp [own, List.filter_cons]

theorem stages_cons (id : Nat) (i : Incident) (log : List Incident) :
    stages id (i :: log) = ((i.leg? id).bind Leg.stage?).toList ++ stages id log := by
  rw [stages, legs, List.filterMap_cons]
  cases i.leg? id with
  | none => rfl
  | some leg => cases hl : leg.stage? <;> simp [stages, legs, hl]

theorem Incident.stage_eq_none {i : Incident}
    (h : ∀ lane r after result, i ≠ .staged lane r after result) (id : Nat) :
    (i.leg? id).bind Leg.stage? = none := by
  cases i with
  | staged lane r after result => exact absurd rfl (h lane r after result)
  | accepted | taken | handedOff =>
    simp only [leg?]
    split <;> rfl
  | _ => rfl

theorem Gauge.total_own {id : Nat} {log : List Incident} {g : Gauge} {p : Lane × Bool → Bool}
    (hp : ∀ lane r after result, .staged lane r after result ∈ log → r.id = id →
      adds (.staged lane r after result) g = if p (lane, result.isOk) then 1 else 0) :
    total (own id log) g = (stages id log).countP p := by
  induction log with
  | nil => rfl
  | cons i log ih =>
    have hlog := ih fun lane r after result hm ↦ hp lane r after result (List.mem_cons_of_mem _ hm)
    rw [own_cons, stages_cons, List.countP_append, ← hlog]
    by_cases hi : ∃ lane r after result, i = .staged lane r after result
    · obtain ⟨lane, r, after, result, rfl⟩ := hi
      by_cases hid : r.id = id
      · have hone := hp lane r after result (List.mem_cons_self ..) hid
        simp [Incident.id?, Incident.leg?, Leg.stage?, hid, hone, List.countP_singleton]
      · simp [Incident.id?, Incident.leg?, hid]
    · have hno : ∀ lane r after result, i ≠ .staged lane r after result := by
        intro lane r after result he
        exact hi ⟨lane, r, after, result, he⟩
      rw [Incident.stage_eq_none hno]
      split
      · simp [adds_of_not_staged hno]
      · simp

theorem Gauge.total_own_of_legs {id : Nat} {log : List Incident} (h : legs id log = []) (g : Gauge) :
    total (own id log) g = 0 := by
  refine total_of_unstaged ?_ g
  intro lane r after result hm
  obtain ⟨hm, hid⟩ := List.mem_filter.1 hm
  have hr : r.id = id := by simpa [Incident.id?] using hid
  have hleg : .staged lane result.isOk ∈ legs id log :=
    mem_legs.2 ⟨_, hm, by simp [Incident.leg?, hr]⟩
  rw [h] at hleg
  cases hleg

/-- What a request of a kind adds, by its stages. -/
structure Shares (op : Operation) (id : Nat) (log : List Incident) : Prop where
  reads : Gauge.reads.total (own id log) =
    if op = .read then (stages id log).count (.file, true) else 0
  writes : Gauge.writes.total (own id log) =
    if op = .write then (stages id log).count (.file, true) else 0
  compressions : Gauge.compressions.total (own id log) =
    if op = .write then (stages id log).count (.codec, true) else 0
  decompressions : Gauge.decompressions.total (own id log) =
    if op = .read then (stages id log).count (.codec, true) else 0
  failures : Gauge.failures.total (own id log) = (stages id log).countP (! ·.2)

/-- The operation and the lane of the stages that a counter counts one by one. -/
def Gauge.stage? : Gauge → Option (Operation × Lane)
  | reads => some (.read, .file)
  | writes => some (.write, .file)
  | compressions => some (.write, .codec)
  | decompressions => some (.read, .codec)
  | failures | bytesRead | bytesWritten => none

theorem Gauge.adds_staged {g : Gauge} {op : Operation} {lane : Lane}
    (hg : g.stage? = some (op, lane)) (j : Lane) (r after : Request) (result : Except Error Unit) :
    adds (.staged j r after result) g =
      if r.operation = op ∧ (j, result.isOk) = (lane, true) then 1 else 0 := by
  cases g with
  | failures | bytesRead | bytesWritten => cases hg
  | _ =>
    cases hg
    cases j <;> cases result <;> simp [adds, Except.isOk, Except.toBool]

theorem Gauge.adds_failures (j : Lane) (r after : Request) (result : Except Error Unit) :
    adds (.staged j r after result) failures = if result.isOk then 0 else 1 := by
  cases j <;> cases result <;> simp [adds, Except.isOk, Except.toBool]

theorem Gauge.total_stage {g : Gauge} {op k : Operation} {lane : Lane} {id : Nat}
    {log : List Incident} (hg : g.stage? = some (k, lane))
    (hop : ∀ lane r after result, .staged lane r after result ∈ log → r.id = id →
      r.operation = op) :
    total (own id log) g = if op = k then (stages id log).count (lane, true) else 0 := by
  have htotal : total (own id log) g =
      (stages id log).countP fun x ↦ op = k ∧ x = (lane, true) := by
    apply total_own
    intro j r after result hm hid
    rw [adds_staged hg, hop j r after result hm hid]
    simp
  rw [htotal]
  by_cases hk : op = k
  · simp [hk, List.count, beq_eq_decide]
  · simp [hk]

theorem Gauge.shares {op : Operation} {id : Nat} {log : List Incident}
    (hop : ∀ lane r after result, .staged lane r after result ∈ log → r.id = id →
      r.operation = op) :
    Shares op id log where
  reads := total_stage rfl hop
  writes := total_stage rfl hop
  compressions := total_stage rfl hop
  decompressions := total_stage rfl hop
  failures := by
    apply total_own
    intro j r after result hm hid
    rw [adds_failures]
    cases result.isOk <;> rfl

namespace Service

variable {fs : FileSystem} {codec : Codec} {s t u : Service fs codec} {log more : List Incident}
  {q r : Request} {config : Config} {heap : HeapId} {heaps : Heaps} {files : fs.State}
  {codecState : codec.State}

theorem Run.shares (h : Run (fresh config heap heaps files codecState) log s) {id : Nat} {o : Order}
    (ho : .entered id o ∈ log) : Shares o.operation id log := by
  apply Gauge.shares
  rintro lane r after result hm rfl
  exact (h.shown_carries hm (List.mem_cons_self ..) ho).operation

/-- A read whose file stage has failed goes no further. -/
theorem Run.failed_read (h : Run (fresh config heap heaps files codecState) log s) {id : Nat}
    {o : Order} (ho : .entered id o ∈ log) (hop : o.operation = .read)
    (hfail : (.file, false) ∈ stages id log) : stages id log = [(.file, false)] := by
  obtain ⟨rest, hroute⟩ := h.stages_route ho
  obtain ⟨before, after, hsplit⟩ := List.append_of_mem hfail
  rw [hop, hsplit, List.append_assoc] at hroute
  rw [hsplit]
  cases hc : o.flags.contains .useCompression with
  | false =>
    rw [hc] at hroute
    obtain ⟨ok, hone⟩ := hroute
    cases before <;> simp_all
  | true =>
    rw [hc] at hroute
    rcases hroute with hone | ⟨ok, htwo⟩
    · cases before <;> simp_all
    · cases before with
      | nil => simp at htwo
      | cons x before => cases before <;> simp at htwo

/-- A read or write that has succeeded has done to the files what its incident says. -/
theorem Run.fetched {s₀ : Service fs codec} (h : Run s₀ log s) {after : Request}
    {before rest : List Incident} (hlog : log = before ++ .staged .file r after (.ok ()) :: rest)
    (hop : r.operation = .read) :
    ∃ u v, Run s₀ before u ∧ Run s₀ (before ++ [.staged .file r after (.ok ())]) v ∧
      Reference.readFile fs u.files r.path = (.ok after.payload, v.files) := by
  obtain ⟨u, v, staged, hu, -, hs, rfl, hok, hv, -⟩ := h.file_cut hlog
  refine ⟨u, v, hu, hv, ?_⟩
  rw [Staged.payload_routed]
  exact (FileStage.read_succeeded hop hs hok.symm).1

theorem Run.put {s₀ : Service fs codec} (h : Run s₀ log s) {after : Request}
    {before rest : List Incident} (hlog : log = before ++ .staged .file r after (.ok ()) :: rest)
    (hop : r.operation = .write) :
    ∃ u v, Run s₀ before u ∧ Run s₀ (before ++ [.staged .file r after (.ok ())]) v ∧
      Reference.writeFile fs u.files r.path (r.flags.contains .appendMode) r.payload =
        (.ok (), v.files) := by
  obtain ⟨u, v, staged, hu, -, hs, -, hok, hv, -⟩ := h.file_cut hlog
  refine ⟨u, v, hu, hv, ?_⟩
  rw [hok]
  exact (FileStage.write_staged hop hs).1

/-- The counters and the stages of a run. -/
structure Metered (s₀ : Service fs codec) (log : List Incident) (s : Service fs codec) : Prop where
  counters : ∀ (g : Gauge) elapsed,
    g.value (s.recorder.snapshot elapsed).counters = UInt64.ofNat (g.total log)
  fetched : ∀ before r after rest, log = before ++ .staged .file r after (.ok ()) :: rest →
    r.operation = .read → ∃ u v, Run s₀ before u ∧
      Run s₀ (before ++ [.staged .file r after (.ok ())]) v ∧
      Reference.readFile fs u.files r.path = (.ok after.payload, v.files)
  put : ∀ before r after rest, log = before ++ .staged .file r after (.ok ()) :: rest →
    r.operation = .write → ∃ u v, Run s₀ before u ∧
      Run s₀ (before ++ [.staged .file r after (.ok ())]) v ∧
      Reference.writeFile fs u.files r.path (r.flags.contains .appendMode) r.payload =
        (.ok (), v.files)
  shares : ∀ id o, .entered id o ∈ log → Shares o.operation id log
  /-- A compressed write that fails in both stages, and one that fails in the first only. -/
  failedTwice : ∀ id o, .entered id o ∈ log → stages id log = [(.codec, false), (.file, false)] →
    Gauge.failures.total (own id log) = 2 ∧ Gauge.writes.total (own id log) = 0
  failedOnce : ∀ id o, .entered id o ∈ log → o.operation = .write →
    stages id log = [(.codec, false), (.file, true)] →
      Gauge.failures.total (own id log) = 1 ∧ Gauge.writes.total (own id log) = 1
  failedRead : ∀ id o, .entered id o ∈ log → o.operation = .read → (.file, false) ∈ stages id log →
    Gauge.decompressions.total (own id log) = 0
  /-- The stages of a request that has its flag are over, and every snapshot from then on has
  them. -/
  complete : ∀ t ∈ s.tickets, t.poll = true → ∃ o, .entered t.id o ∈ log ∧
    Itinerary o.operation (o.flags.contains .useCompression) (stages t.id log) ∧
    ∀ more u, Run s more u → stages t.id more = [] ∧ ∀ (g : Gauge) elapsed,
      g.value (u.recorder.snapshot elapsed).counters =
        UInt64.ofNat (g.total (own t.id log) + g.total (others t.id (log ++ more)))

theorem Run.flagged (h : Run (fresh config heap heaps files codecState) log s) {k : Ticket}
    (hk : k ∈ s.tickets) (hp : k.poll = true) :
    ∃ o, .entered k.id o ∈ log ∧
      Itinerary o.operation (o.flags.contains .useCompression) (stages k.id log) ∧
      k.id ∈ log.filterMap Incident.published? := by
  have hs := (h.desk.reflects k hk).signaled.1 hp
  have hpub := ((h.census.signaled_iff k.id).1 hs).1
  obtain ⟨left, hl⟩ := mem_published.1 hpub
  obtain ⟨r, lane, hid, -, hb⟩ := h.published_bearing hl
  obtain ⟨o, ho, -⟩ := hb.order
  rw [hid] at ho
  exact ⟨o, ho, h.itinerary_of_published hl ho, hpub⟩

/-- The counters are the sums of the stages, in every state that can be reached. -/
theorem Run.metered (h : Run (fresh config heap heaps files codecState) log s) :
    Metered (fresh config heap heaps files codecState) log s where
  counters g _ := h.gauged g
  fetched _ _ _ _ hlog hop := h.fetched hlog hop
  put _ _ _ _ hlog hop := h.put hlog hop
  shares _ _ ho := h.shares ho
  failedTwice id o ho hst := by
    have hshares := h.shares ho
    rw [hshares.failures, hshares.writes, hst]
    exact ⟨rfl, by simp⟩
  failedOnce id o ho hop hst := by
    have hshares := h.shares ho
    rw [hshares.failures, hshares.writes, if_pos hop, hst]
    exact ⟨rfl, rfl⟩
  failedRead id o ho hop hfail := by
    rw [(h.shares ho).decompressions, if_pos hop, h.failed_read ho hop hfail]
    rfl
  complete k hk hp := by
    obtain ⟨o, ho, hi, hpub⟩ := h.flagged hk hp
    refine ⟨o, ho, hi, fun more u hu ↦ ?_⟩
    have hlegs := h.over hu (.inl hpub)
    refine ⟨by rw [stages, hlegs]; rfl, fun g elapsed ↦ ?_⟩
    have hown : g.total (own k.id (log ++ more)) = g.total (own k.id log) := by
      rw [own, List.filter_append, Gauge.total_append, ← own, ← own, Gauge.total_own_of_legs hlegs]
      rfl
    rw [← hown, ← Gauge.total_split]
    exact (h.trans hu).gauged g

/-- Two compressed writes whose compression fails, one of them to a directory, and a read of the file
that the other has left. -/
def troubled : List Incident × Service Disk.fileSystem (.ofPure Codec.failing) :=
  ((sampleDisk default Codec.failing).follow [.enter (.write "/dev" [1] true false), .push 1, .work .codec,
    .work .codec, .work .codec, .work .codec, .work .file, .work .file, .work .file, .work .file,
    .work .file, .enter (.write "f" [2] true false), .push 2, .work .codec, .work .codec,
    .work .codec, .work .codec, .work .file, .work .file, .work .file, .work .file, .work .file,
    .enter (.read "f" 0 true false), .push 3, .work .file, .work .file, .work .file,
    .work .file, .work .file]).get (by decide)

theorem metered_troubled :
    Run (sampleDisk default Codec.failing) troubled.1 troubled.2 ∧
      stages 1 troubled.1 = [(.codec, false), (.file, false)] ∧
      stages 2 troubled.1 = [(.codec, false), (.file, true)] ∧
      stages 3 troubled.1 = [(.file, true)] ∧ Gauge.failures.total troubled.1 = 3 ∧
      Metered (sampleDisk default Codec.failing) troubled.1 troubled.2 :=
  have hrun : Run (sampleDisk default Codec.failing) troubled.1 troubled.2 := .of_isSome _
  ⟨hrun, by decide, by decide, by decide, by decide, Run.metered hrun⟩

end Service

end QueuedFiles
