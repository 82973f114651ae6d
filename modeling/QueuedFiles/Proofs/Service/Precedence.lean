import QueuedFiles.Proofs.Service.Content
import QueuedFiles.Proofs.Service.Effort
import QueuedFiles.Proofs.Service.Meter
import QueuedFiles.Proofs.Service.Shape

/-!
Compressed writes that fail. Both stages come to every write that is not given up, whatever the first
has made of it; the failure of the file stage comes before that of the codec, and neither is lost.
-/

namespace QueuedFiles

/-- What the codec stage makes of an answer to some bytes: the block, or its failure. -/
def CodecStage.judged (name : String) (bytes : Bytes) (answer : Except BlockError Bytes) :
    Except Error Bytes :=
  match answer with
  | .error e => .error (.compression e)
  | .ok block =>
    if block = [] ∧ bytes ≠ [] then .error (.compression (.emptyOutput name bytes.length))
    else .ok block

/-- What is told of a write: the failure of its file stage before that of the codec. -/
def verdict (coded : Except Error Bytes) (filed : Except Error Unit) : Except Error Unit :=
  match filed with
  | .ok () => coded.map fun _ ↦ ()
  | .error e => .error e

/-- What goes on to the file. -/
def CodecStage.content (coded : Except Error Bytes) : Bytes :=
  match coded with
  | .ok block => block
  | .error _ => []

theorem CodecStage.compressed_judged (heaps : Heaps) {r : Request} (hr : r.Sized) (name : String)
    (answer : Except BlockError Bytes) :
    let staged := compressed heaps r (checkedBlock name r answer)
    staged.result = (judged name r.payload answer).map (fun _ ↦ ()) ∧
      staged.request.payload = content (judged name r.payload answer) := by
  have hlength := hr.length_payload
  cases answer with
  | error e => exact (compressed_error heaps r e).symm
  | ok block =>
    have hchecked : (block.isEmpty = true ∧ 0 < r.size) ↔ (block = [] ∧ r.payload ≠ []) := by
      rw [List.isEmpty_iff, ← hlength, List.length_pos_iff]
    by_cases hempty : block = [] ∧ r.payload ≠ []
    · simp only [checkedBlock, judged, if_pos hempty, if_pos (hchecked.2 hempty), hlength]
      exact (compressed_error heaps r _).symm
    · simp only [checkedBlock, judged, if_neg hempty, if_neg fun h ↦ hempty (hchecked.1 h)]
      exact (compressed_ok heaps r block).symm

theorem stages_append (id : Nat) (log more : List Incident) :
    stages id (log ++ more) = stages id log ++ stages id more := by
  rw [stages, legs_append, List.filterMap_append]
  rfl

theorem stages_of_legs {id : Nat} {log : List Incident} (h : legs id log = []) :
    stages id log = [] := by
  rw [stages, h]
  rfl

theorem mem_stages {log : List Incident} {lane : Lane} {r after : Request}
    {result : Except Error Unit} (h : .staged lane r after result ∈ log) :
    (lane, result.isOk) ∈ stages r.id log :=
  List.mem_filterMap.2
    ⟨.staged lane result.isOk, mem_legs.2 ⟨_, h, by simp [Incident.leg?]⟩, rfl⟩

theorem staged_of_stages {id : Nat} {log : List Incident} {lane : Lane} {ok : Bool}
    (h : (lane, ok) ∈ stages id log) :
    ∃ r after result, r.id = id ∧ result.isOk = ok ∧ .staged lane r after result ∈ log := by
  obtain ⟨leg, hleg, hstage⟩ := List.mem_filterMap.1 h
  obtain ⟨i, hi, hl⟩ := mem_legs.1 hleg
  cases i <;> simp only [Incident.leg?, Option.ite_none_right_eq_some, Option.some.injEq,
    reduceCtorEq] at hl
  all_goals obtain ⟨hid, rfl⟩ := hl
  all_goals cases hstage
  exact ⟨_, _, _, hid, rfl, hi⟩

theorem Staged.result_routed (staged : Staged) (lane : Lane) :
    (staged.routed lane).result = match staged.result with
      | .ok () => staged.request.result
      | .error e => .error e :=
  congrArg Reply.result (staged.reply_routed lane)

namespace Service

variable {fs : FileSystem} {codec : Codec} {s t u s₀ : Service fs codec} {log more : List Incident}
  {q r : Request} {p : Post} {id : Nat} {path : String} {bytes : Bytes} {o : Outcome}
  {coded : Except Error Bytes} {filed : Except Error Unit} {config : Config} {heap : HeapId}
  {heaps : Heaps} {files : fs.State} {codecState : codec.State}

/-- A request that has not failed has only been through stages that have not, and the other way
round. -/
theorem Run.unfailed (h : Run (fresh config heap heaps files codecState) log s) (hr : s.At r p) :
    r.result = .ok () ↔ ∀ x ∈ stages r.id log, x.2 = true := by
  refine h.along (P := fun log r _ ↦ r.result = .ok () ↔ ∀ x ∈ stages r.id log, x.2 = true) ?_ ?_ ?_ hr
  · intro log more s t r h ht ha
    cases ha with
    | entered o path =>
      have hnone : stages s.nextId (log ++ [.entered s.nextId o]) = [] := by
        apply stages_of_legs
        rw [legs_append, h.unborn (Nat.le_refl _)]
        rfl
      simp [Order.request, hnone]
  · intro log more s t r p h ht hd hm
    rwa [stages_append, stages_of_legs (legs_of_quiet hm), List.append_nil]
  · intro log more s t q p₀ r p h ht hq hd hf
    rw [hf.frame.1, stages_append]
    cases hf with
    | accepted | taken | handedOff | prepared =>
      simpa [stages, Leg.stage?, Request.begin] using hd
    | @staged lane _ st _ _ _ _ task he =>
      have hstage : stages q.id [.staged lane q (st.routed lane) st.result] =
          [(lane, st.result.isOk)] := by
        simp [stages, Leg.stage?]
      rw [hstage, Staged.result_routed, he.resized.result]
      cases hres : st.result with
      | ok => simpa [Except.isOk, Except.toBool, or_imp, forall_and] using hd
      | error e => simp [Except.isOk, Except.toBool, or_imp, forall_and]

theorem Run.published_unfailed (h : Run (fresh config heap heaps files codecState) log s)
    (ho : .published id o ∈ log) : o.result = .ok () ↔ ∀ x ∈ stages id log, x.2 = true := by
  obtain ⟨pre, more, rest, u, v, hu, ht, hv, hrest, rfl, hm⟩ := h.split ho
  obtain ⟨r, lane, hat, rfl, rfl⟩ := ht.published_at hm
  obtain rfl := ht.single hm fun _ hd ↦ by cases hd
  have hover : r.id ∈ (pre ++ [Incident.published r.id r.completed.outcome]).filterMap
      Incident.published? := by
    simp [Incident.published?]
  have hrest := hv.over hrest (.inl hover)
  have hquiet : stages r.id [.published r.id r.completed.outcome] = [] := rfl
  rw [stages_append, stages_append, hquiet, stages_of_legs hrest, List.append_nil, List.append_nil]
  have hfails : r.result = .ok () ↔ ∀ x ∈ stages r.id pre, x.2 = true := hu.unfailed hat
  exact hfails

/-- The codec has been called for a request, with these bytes, and this is what it has made of them. -/
def Coded (s₀ : Service fs codec) (log : List Incident) (id : Nat) (bytes : Bytes)
    (coded : Except Error Bytes) : Prop :=
  ∃ before q after rest u answer state,
    log = before ++ .staged .codec q after (coded.map fun _ ↦ ()) :: rest ∧ q.id = id ∧
      Run s₀ before u ∧ u.worker .codec = .coding q none ∧
      codec.compress u.codecState bytes = .returns answer state ∧
      coded = CodecStage.judged codec.name bytes answer

theorem Coded.append (h : Coded s₀ log id bytes coded) (more : List Incident) :
    Coded s₀ (log ++ more) id bytes coded := by
  obtain ⟨before, q, after, rest, u, answer, state, rfl, hid, hu, hw, hcall, hcoded⟩ := h
  exact ⟨before, q, after, rest ++ more, u, answer, state, by simp, hid, hu, hw, hcall, hcoded⟩

/-- How far a compressed write is with its block, and what it has to show for it. -/
def Coding (s₀ : Service fs codec) (log : List Incident) (r : Request) (bytes : Bytes) : Phase → Prop
  | .draft => r.payload = bytes ∧ r.result = .ok ()
  | .encoded => ∃ coded, Coded s₀ log r.id bytes coded ∧ r.payload = CodecStage.content coded ∧
      r.result = coded.map fun _ ↦ ()
  | .filed | .done => True

theorem Coding.append {phase : Phase} (h : Coding s₀ log r bytes phase) (more : List Incident) :
    Coding s₀ (log ++ more) r bytes phase := by
  cases phase with
  | draft => exact h
  | encoded =>
    obtain ⟨coded, hcoded, hrest⟩ := h
    exact ⟨coded, hcoded.append more, hrest⟩
  | filed | done => trivial

theorem Run.coding (h : Run (fresh config heap heaps files codecState) log s) (hr : s.At r p) :
    ∀ path bytes append, .entered r.id (.write path bytes true append) ∈ log →
      Coding (fresh config heap heaps files codecState) log r bytes (p.phase .write) := by
  refine h.along (P := fun log r p ↦ ∀ path bytes append,
    .entered r.id (.write path bytes true append) ∈ log →
      Coding (fresh config heap heaps files codecState) log r bytes (p.phase .write)) ?_ ?_ ?_ hr
  · intro log more s t r h ht ha path bytes append ho
    have hct := ht.census h.census
    cases ha with
    | entered o' path' =>
      have ho' : .entered s.nextId o' ∈ log ++ [.entered s.nextId o'] := by simp
      obtain rfl := hct.order_unique ho ho'
      simp [Coding, Post.phase, Order.draw, Order.request, Request.payload, Heaps.adopt,
        Buffer.length]
  · intro log more s t r p h ht hd hm path bytes append ho
    exact Coding.append (hd path bytes append (entered_of_quiet hm ho)) more
  · intro log more s t q p₀ r p h ht hq hd hf path bytes append ho
    obtain ⟨hid, hop, -⟩ := hf.frame
    rw [hid] at ho
    have ho' := hf.entered_mem ho
    have hdq := hd path bytes append ho'
    have hc := h.carries hq ho'
    have hwrite : q.operation = .write := hc.operation
    cases hf with
    | accepted =>
      rw [entryLane_eq]
      have hcomp : q.flags.contains .useCompression = true := by simp [hc.flags, Order.flags]
      rw [if_pos ⟨hwrite, hcomp⟩]
      exact hdq
    | taken lane =>
      rw [Post.phase_taken]
      exact Coding.append hdq _
    | prepared => exact Coding.append hdq _
    | handedOff lane onward =>
      rcases Journey.routing (h.bearing hq).journey with ⟨-, ⟨hread, -⟩ | ⟨-, rfl, rfl⟩⟩
      · cases hwrite.symm.trans hread
      · exact Coding.append hdq _
    | @staged lane _ st _ _ _ _ task he =>
      cases he with
      | file => cases st.next .file <;> trivial
      | overflow hw hread => cases hwrite.symm.trans hread
      | decompress hw => cases hwrite.symm.trans (h.decompressing hw).1
      | @compress _ answer state hw hcall =>
        have hat : s.At q (.hand .codec (.coding none)) := hw
        cases (h.census.unique hq hat rfl).2
        obtain ⟨rfl, hclean⟩ : q.payload = bytes ∧ q.result = .ok () := hdq
        obtain ⟨hresult, hblock⟩ :=
          CodecStage.compressed_judged s.heaps (h.sized hat) codec.name answer
        have hresized := CodecStage.compressed_resized s.heaps q
          (CodecStage.checkedBlock codec.name q answer)
        refine ⟨CodecStage.judged codec.name q.payload answer, ?_, ?_, ?_⟩
        · rw [hid]
          exact ⟨log, q, _, [], s, answer, _, by rw [hresult], rfl, h, hw, hcall, rfl⟩
        · rw [Staged.payload_routed, hblock]
        · rw [Staged.result_routed, hresized.result, hclean, hresult]
          cases CodecStage.judged codec.name q.payload answer <;> rfl

/-- The file stage of a write has put these bytes into its file, or has failed; either way the
request leaves it with the buffer and the size it came with. -/
def Filed (s₀ : Service fs codec) (log : List Incident) (id : Nat) (path : String) (append : Bool)
    (payload : Bytes) (filed : Except Error Unit) (o : Outcome) : Prop :=
  ∃ before r after rest u v, log = before ++ .staged .file r after filed :: rest ∧ r.id = id ∧
    Run s₀ before u ∧ Run s₀ (before ++ [.staged .file r after filed]) v ∧
    Reference.writeFile fs u.files ⟨path⟩ append payload = (filed, v.files) ∧
    r.payload = payload ∧ after.buffer = r.buffer ∧ after.size = r.size ∧
    o.buffer = after.buffer ∧ o.size = after.size

/-- A compressed write that is over: what the codec has made of its bytes, what became of that in the
file, and what is told of the two. -/
structure Written (s₀ : Service fs codec) (log : List Incident) (id : Nat) (path : String)
    (bytes : Bytes) (append : Bool) (o : Outcome) (coded : Except Error Bytes)
    (filed : Except Error Unit) : Prop where
  codec : Coded s₀ log id bytes coded
  file : Filed s₀ log id path append (CodecStage.content coded) filed o
  once : stages id log = [(.codec, coded.isOk), (.file, filed.isOk)]
  result : o.result = verdict coded filed
  size : o.size = (CodecStage.content coded).length
  writes : Gauge.writes.total (own id log) = if filed.isOk then 1 else 0
  failures : Gauge.failures.total (own id log) =
    (if coded.isOk then 0 else 1) + if filed.isOk then 0 else 1

theorem Run.stages_once (h : Run (fresh config heap heaps files codecState) log s) {append : Bool}
    {after : Request} (hl : .published r.id o ∈ log)
    (ho : .entered r.id (.write path bytes true append) ∈ log)
    (hcoded : Coded s₀ log r.id bytes coded) (hfiled : .staged .file r after filed ∈ log) :
    stages r.id log = [(.codec, coded.isOk), (.file, filed.isOk)] := by
  have hroute := h.itinerary_of_published hl ho
  have hcomp : (Order.write path bytes true append).flags.contains .useCompression = true := by
    simp [Order.flags]
  rw [hcomp] at hroute
  obtain ⟨ok, done, hstages⟩ := hroute
  obtain ⟨before, q, coming, rest, u, answer, state, hlog, hid, -⟩ := hcoded
  have hcodec := mem_stages (show .staged .codec q coming (coded.map fun _ ↦ ()) ∈ log by simp [hlog])
  have hfile := mem_stages hfiled
  have hmap : (coded.map fun _ ↦ ()).isOk = coded.isOk := by cases coded <;> rfl
  rw [hid, hstages, hmap] at hcodec
  rw [hstages] at hfile ⊢
  simp only [List.mem_cons, Prod.mk.injEq, reduceCtorEq, false_and, true_and, or_false, false_or,
    List.not_mem_nil] at hcodec hfile
  rw [hcodec, hfile]

/-- Behind the outcome of a write there is its file stage, whichever way it has ended. -/
theorem Run.write_filed (h : Run (fresh config heap heaps files codecState) log s) {order : Order}
    (hl : .published id o ∈ log) (ho : .entered id order ∈ log) (hop : order.operation = .write) :
    ∃ before r after filed rest u v, log = before ++ .staged .file r after filed :: rest ∧
      r.id = id ∧ Run (fresh config heap heaps files codecState) before u ∧
      u.worker .file = .serving r ∧
      Run (fresh config heap heaps files codecState) (before ++ [.staged .file r after filed]) v ∧
      Reference.writeFile fs u.files r.path (r.flags.contains .appendMode) r.payload =
        (filed, v.files) ∧
      after.buffer = r.buffer ∧ after.size = r.size ∧ o = after.outcome ∧
      after.result = match filed with
        | .ok () => r.result
        | .error e => .error e := by
  obtain ⟨lane, r, staged, hleaves, rfl, hnext, rfl⟩ := h.published_leaves hl
  have hwrite : r.operation = .write := (hleaves.carries h ho).operation.trans hop
  obtain ⟨before, rest, w, a, added, files', codecState', hlog, -, he, -⟩ := hleaves.cut
  obtain rfl : lane = .file := by
    have hn := he.next_eq.symm.trans hnext
    cases lane with
    | file => rfl
    | codec => simp [nextAfter, hwrite] at hn
  -- The state that the log is cut at need not be the one that `hleaves` has found.
  obtain ⟨u, v, cut, hu, hw, hs, hafter, hresult, hv, -⟩ := h.file_cut hlog
  have hat : u.At r (.hand .file .serving) := hw
  have hresized := FileStage.run_resized u.files u.heaps r
  obtain ⟨hfiled, hbuffer, hsize⟩ := FileStage.write_staged hwrite hs
  obtain ⟨-, -, -, -, hsame, hcount, -⟩ := cut.routed_frame .file
  rw [(hu.sized hat).length_payload, ite_self] at hsize
  rw [hs] at hresized
  have hsettled : staged.settled = staged.routed .file := by rw [Staged.routed, hnext]
  refine ⟨before, r, staged.routed .file, staged.result, rest, u, v, hlog, rfl, hu, hw, hv, ?_, ?_, ?_,
    by rw [hsettled], ?_⟩
  · rw [hfiled, hresult]
  · rw [hafter, hsame, hbuffer]
  · rw [hafter, hcount, hsize]
  · rw [hafter, Staged.result_routed, hresized.result, hresult]

theorem Run.written (h : Run (fresh config heap heaps files codecState) log s) {append : Bool}
    (hl : .published id o ∈ log) (ho : .entered id (.write path bytes true append) ∈ log) :
    ∃ coded filed, Written (fresh config heap heaps files codecState) log id path bytes append o
      coded filed := by
  obtain ⟨before, r, after, filed, rest, u, v, hlog, rfl, hu, hw, hv, hfiled, hbuffer, hsize, rfl,
    hresult⟩ := h.write_filed hl ho rfl
  have hat : u.At r (.hand .file .serving) := hw
  obtain ⟨order, horder, hcarries⟩ := (hu.bearing hat).order
  have hlater : .entered r.id order ∈ log := by simp [hlog, horder]
  obtain rfl := h.census.order_unique ho hlater
  obtain ⟨coded, hcoded, hpayload, hclean⟩ := hu.coding hat path bytes append horder
  have happend : r.flags.contains .appendMode = append := by simp [hcarries.flags, Order.flags]
  rw [hcarries.path_eq, happend, hpayload] at hfiled
  have hcoded : Coded (fresh config heap heaps files codecState) log r.id bytes coded := by
    rw [hlog]
    exact hcoded.append _
  have honce := h.stages_once hl ho hcoded (by simp [hlog] : .staged .file r after filed ∈ log)
  refine ⟨coded, filed, hcoded, ?_, honce, ?_, ?_, ?_, ?_⟩
  · exact ⟨before, r, after, rest, u, v, hlog, rfl, hu, hv, hfiled, hpayload, hbuffer, hsize, rfl, rfl⟩
  · refine hresult.trans ?_
    rw [hclean]
    rfl
  · rw [← hpayload, (hu.sized hat).length_payload, ← hsize]
    rfl
  · rw [(h.shares ho).writes, honce]
    cases coded.isOk <;> cases filed.isOk <;> rfl
  · rw [(h.shares ho).failures, honce]
    cases coded.isOk <;> cases filed.isOk <;> rfl

/-- Whoever asks gets what has been left. -/
theorem Run.told (h : Run (fresh config heap heaps files codecState) log s) {k k' : Ticket}
    {question : Question} {answer : Answer} (hk : k ∈ s.tickets)
    (hask : k.ask question = some (answer, k')) :
    ∃ o, .published k.id o ∈ log ∧ (question = .result → answer = .result o.result) ∧
      (question = .size → answer = .size o.size) := by
  have href := h.desk.reflects k hk
  obtain ⟨u, hwait, hlook⟩ := Option.map_eq_some_iff.1 hask
  have hsignaled : k.signaled = true := by
    by_contra hn
    simp [Ticket.wait, hn] at hwait
  have hpub := ((h.census.signaled_iff k.id).1 (href.signaled.1 hsignaled)).1
  cases hleft : k.outcome with
  | none => exact absurd hpub (href.pending hleft)
  | some left =>
    obtain ⟨o, ho, hresult, hsize, -⟩ := href.filled left hleft
    refine ⟨o, ho, ?_, ?_⟩ <;> rintro rfl <;> cases hlook
    · simp [Ticket.result, hleft, hresult]
    · simp [hleft, hsize]

/-- Compressed writes in a run, and what is told of requests that fail. -/
structure Precedence (s₀ : Service fs codec) (log : List Incident) (s : Service fs codec) : Prop where
  outcomes : ∀ id o path bytes append, .published id o ∈ log →
    .entered id (.write path bytes true append) ∈ log →
      ∃ coded filed, Written s₀ log id path bytes append o coded filed
  /-- Of no request a success is told if one of its stages has failed. -/
  unfailed : ∀ id o, .published id o ∈ log →
    (o.result = .ok () ↔ ∀ x ∈ stages id log, x.2 = true)
  told : ∀ k ∈ s.tickets, ∀ question answer k', k.ask question = some (answer, k') →
    ∃ o, .published k.id o ∈ log ∧ (question = .result → answer = .result o.result) ∧
      (question = .size → answer = .size o.size)
  counted : ∀ id (g : Gauge) elapsed, g.value (s.recorder.snapshot elapsed).counters =
    UInt64.ofNat (g.total (own id log) + g.total (others id log))
  /-- What is left of a file behind a compression that has failed, on a disk. -/
  emptied : ∀ (d e : Disk) path append,
    Reference.writeFile Disk.fileSystem d ⟨path⟩ append [] = (.ok (), e) → d.Emptied e path append
  closed : s.closing = .done → ∀ r, .accepted r ∈ log →
    (∃ q, q.id = r.id ∧ .dropped q ∈ log) ∨ .signaled r.id ∈ log ∧ ∃ o, .published r.id o ∈ log
  /-- A write that is not given up comes to its end: the workers have so many moves at most, in any
  order, and when they have no more, then it is complete, or its push gets in. -/
  completes : (inFlight log).length ≤ max s.config.queueCapacity.toNat 1 + 1 →
    ∀ id path bytes append, .entered id (.write path bytes true append) ∈ log →
      ∀ (lanes : List Lane) more t, s.follow (lanes.map .work) = some (more, t) →
        lanes.length ≤ s.movesLeft ∧ ((∀ lane, t.work lane = none) →
          (∃ u, t.push id = some (.ok (), u)) ∨ (∃ q, q.id = id ∧ .dropped q ∈ log ++ more) ∨
            .signaled id ∈ log ++ more ∧ ∃ o coded filed, .published id o ∈ log ++ more ∧
              Written s₀ (log ++ more) id path bytes append o coded filed)

theorem Run.precedence (h : Run (fresh config heap heaps files codecState) log s)
    (hc : codec.Returns) : Precedence (fresh config heap heaps files codecState) log s where
  outcomes id o path bytes append hl ho := h.written hl ho
  unfailed id o hl := h.published_unfailed hl
  told k hk question answer k' hask := h.told hk hask
  counted id g _ := by
    rw [← Gauge.total_split]
    exact h.gauged g
  emptied d e path append hw := Disk.writeFile_nothing hw
  closed hd r hr := by
    rcases h.settled hd hr with hp | hlost
    · exact .inr ⟨(h.finished hd hr hp).signaled, mem_published.1 hp⟩
    · exact .inl hlost
  completes hrule id path bytes append ho lanes more t hmoves := by
    rw [h.frame.1] at hrule
    obtain ⟨hle, hends⟩ := h.goes_on hc hrule ho hmoves
    refine ⟨hle, fun hrest ↦ ?_⟩
    rcases hends hrest with hpush | hlost | hsignaled
    · exact .inl hpush
    · exact .inr (.inl hlost)
    · have ht := h.trans (.of_follow hmoves)
      obtain ⟨o, hl⟩ := mem_published.1 ((ht.census.signaled_iff id).1 (mem_signaled.2 hsignaled)).1
      obtain ⟨coded, filed, hwritten⟩ := ht.written hl (List.mem_append_left more ho)
      exact .inr (.inr ⟨hsignaled, o, coded, filed, hl, hwritten⟩)

/-- The write to a directory is told that, the other one that there is no block; what the latter has
left of its file is empty. -/
theorem precedence_troubled :
    Run (sampleDisk default Codec.failing) troubled.1 troubled.2 ∧
      ((troubled.2.ticket? 1).bind (·.outcome)).map (·.result) =
        some (.error (.file .opening "/dev" .isADirectory)) ∧
      ((troubled.2.ticket? 2).bind (·.outcome)).map (·.result) =
        some (.error (.compression (.emptyOutput "test" 1))) ∧
      troubled.2.files.inspect "f" = some (.file []) ∧
      Precedence (sampleDisk default Codec.failing) troubled.1 troubled.2 :=
  have hrun : Run (sampleDisk default Codec.failing) troubled.1 troubled.2 := .of_isSome _
  ⟨hrun, by rfl, by rfl, by decide, Run.precedence hrun (Codec.ofPure_returns _)⟩

/-- A compressed write in a standstill. -/
def halted : List Incident × Service Disk.fileSystem (.ofPure .verbatim) :=
  ((sampleDisk (.ofCapacity 1) .verbatim).follow (crossing "f")).get (by decide)

theorem halted_jammed : halted.2.Jammed := by
  refine ⟨⟨_, rfl⟩, ⟨_, rfl⟩, ?_, .inl rfl⟩
  intro lane
  cases lane <;> decide

/-- A write in a standstill never ends: it is not given up, no outcome is left for it, and its file
is not touched, though the codec has come back. And a path that is too long is no request at all. -/
theorem halted_unended :
    (Config.validate (.ofCapacity 1) = .ok () ∧
      Run (sampleDisk (.ofCapacity 1) .verbatim) halted.1 halted.2 ∧
      .entered 2 (.write "f" [1] true false) ∈ halted.1 ∧
      (∃ r, r.id = 2 ∧ .accepted r ∈ halted.1) ∧ stages 2 halted.1 = [(.codec, true)] ∧
      ∀ more t, Run halted.2 more t → stages 2 (halted.1 ++ more) = [(.codec, true)] ∧
        (∀ o, .published 2 o ∉ halted.1 ++ more) ∧ .signaled 2 ∉ halted.1 ++ more ∧
        ∀ r, r.id = 2 → .dropped r ∉ halted.1 ++ more) ∧
    ((sampleDisk { (default : Config) with maxPathLength := 1 } .verbatim).enter
      (.write "ab" [1] true false)).1 = .error (.pathTooLong 2 1) := by
  have hrun : Run (sampleDisk (.ofCapacity 1) .verbatim) halted.1 halted.2 := .of_isSome _
  have hentered : halted.1[4]? = some (.entered 2 (.write "f" [1] true false)) := by rfl
  have haccepted : 2 ∈ ids (halted.1.filterMap Incident.accepted?) := by decide
  have hcoded : stages 2 halted.1 = [(.codec, true)] := by decide
  refine ⟨⟨rfl, hrun, List.mem_of_getElem? hentered, mem_accepted.1 haccepted, hcoded, ?_⟩, by rfl⟩
  intro more t h
  have hquiet : legs 2 more = [] := by
    refine List.filterMap_eq_nil_iff.2 fun i hi ↦ ?_
    obtain ⟨id, o, rfl⟩ := (h.jammed halted_jammed).2 i hi
    rfl
  refine ⟨?_, h.unfinished halted_jammed (by decide) (by decide) (by decide)⟩
  rw [stages_append, stages_of_legs hquiet, List.append_nil, hcoded]

end Service

end QueuedFiles
