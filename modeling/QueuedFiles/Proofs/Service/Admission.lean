import QueuedFiles.Proofs.Service.Balance
import QueuedFiles.Proofs.Service.Numbering
import QueuedFiles.Proofs.Service.Precedence

/-!
Who gets in. A path that is too long, or a queue whose consumer is gone, turns a caller away without a
trace; everybody else gets in, also with a path that no file system can take.
-/

namespace QueuedFiles

/-- What is wrong with a path that is empty or has a zero character in it. -/
def unusable (text : String) : Error :=
  .pathEncoding text (if text = "" then .empty else .nulByte)

theorem Path.native_unusable {text : String} (h : text = "" ∨ '\x00' ∈ text.toList) :
    native ⟨text⟩ = .error (unusable text) := by
  by_cases he : text = ""
  · simp [native, unusable, he]
  · simp [native, unusable, he, h.resolve_left he]

/-- The file system is not asked for anything. -/
theorem FileStage.run_unusable {r : Request} {e : Error} (he : r.path.native = .error e)
    (fs : FileSystem) (files : fs.State) (heaps : Heaps) :
    run fs files heaps r = (⟨r, heaps, .error e⟩, files) := by
  rw [run]
  cases r.operation with
  | read => simp only [read, he]
  | write => simp only [write, he]

/-- The buffer that is drawn for an order that is turned away has not been counted. -/
theorem Order.stats_draw {hs : Heaps} (hn : hs.Numbered) (o : Order) (own k : HeapId) :
    ((o.draw own hs).2.releaseOption (o.draw own hs).1).stats k = hs.stats k := by
  cases o with
  | read => rfl
  | write path bytes => exact hn.stats_cancelled own bytes.length k

namespace Service

variable {fs : FileSystem} {codec : Codec} {s t u s₀ : Service fs codec} {log more : List Incident}
  {r : Request} {id : Nat} {o : Order} {config : Config} {heap : HeapId} {heaps : Heaps}
  {files : fs.State} {codecState : codec.State} {others : List Reservation}

theorem enter_overlong (h : s.config.maxPathLength.toNat < o.path.utf8ByteSize) :
    s.enter o = (.error (.pathTooLong o.path.utf8ByteSize s.config.maxPathLength.toNat),
      { s with heaps := (o.draw s.heap s.heaps).2.releaseOption (o.draw s.heap s.heaps).1 }) := by
  simp [enter, Path.ofText, h]

theorem submit_overlong (h : s.config.maxPathLength.toNat < o.path.utf8ByteSize) :
    s.submit o = (.error (.pathTooLong o.path.utf8ByteSize s.config.maxPathLength.toNat),
      { s with heaps := (o.draw s.heap s.heaps).2.releaseOption (o.draw s.heap s.heaps).1 }) := by
  simp only [submit, enter_overlong h]

/-- The request that a caller enters with. -/
def entrant (s : Service fs codec) (o : Order) : Request :=
  o.request s.nextId ⟨o.path⟩ (o.heap s.heap) (o.draw s.heap s.heaps).1

theorem enter_within (h : o.path.utf8ByteSize ≤ s.config.maxPathLength.toNat) :
    s.enter o = (.ok s.nextId, { s with
      heaps := (o.draw s.heap s.heaps).2
      nextId := s.nextId + 1
      entering := s.entering ++ [s.entrant o]
      tickets := s.tickets ++ [.ofRequest (s.entrant o)] }) := by
  simp [enter, Path.ofText, Nat.not_lt.2 h, entrant, Order.request]

/-- The number of the next request is new to the callers and to their tickets. -/
theorem Run.next_new (h : Run (fresh config heap heaps files codecState) log s) :
    (∀ r ∈ s.entering, r.id ≠ s.nextId) ∧ ∀ k ∈ s.tickets, k.id ≠ s.nextId := by
  constructor
  · intro r hr
    exact Nat.ne_of_lt (h.census.id_lt (p := .caller) hr)
  · intro k hk
    have hcount := h.desk.numbers k.id
    have hpos : 0 < (s.tickets.map (·.id)).count k.id :=
      List.count_pos_iff.2 (List.mem_map_of_mem hk)
    have hentered : k.id ∈ log.filterMap Incident.entered? := List.count_pos_iff.1 (by omega)
    rw [h.census.numbers, List.mem_range'_1] at hentered
    omega

theorem Run.find_entrant (h : Run (fresh config heap heaps files codecState) log s) (o : Order) :
    (s.entering ++ [s.entrant o]).find? (fun q ↦ q.id = s.nextId) = some (s.entrant o) := by
  rw [List.find?_append, List.find?_eq_none.2 fun q hq ↦ by simpa using h.next_new.1 q hq]
  simp [entrant, Order.request]

theorem Run.push_closed (h : Run (fresh config heap heaps files codecState) log s)
    (hr : r ∈ s.entering) (hc : (s.queue (entryLane r.operation r.flags)).isOpen = false) :
    s.push r.id = some (.error .serviceStopped, { s with
      heaps := s.heaps.releaseOption r.buffer
      entering := s.entering.filter fun q ↦ q.id ≠ r.id
      tickets := s.tickets.filter fun k ↦ k.id ≠ r.id }) := by
  simp [push, h.census.find_entering hr, Queue.offer_of_closed hc, discard]

/-- While there is somebody to receive it, a push gets in, or waits for room. -/
theorem Run.push_open (h : Run (fresh config heap heaps files codecState) log s)
    (hr : r ∈ s.entering) (hc : (s.queue (entryLane r.operation r.flags)).isOpen = true) :
    (∃ t, s.push r.id = some (.ok (), t)) ∨
      s.push r.id = none ∧ max config.queueCapacity.toNat 1 ≤
        (s.queue (entryLane r.operation r.flags)).messages.length := by
  have hcap := h.capacity (entryLane r.operation r.flags)
  rcases Nat.lt_or_ge (s.queue (entryLane r.operation r.flags)).messages.length
    (s.queue (entryLane r.operation r.flags)).capacity with hroom | hfull
  · exact .inl (h.push_taken hr hc hroom)
  · refine .inr ⟨?_, hcap ▸ hfull⟩
    simp only [push, h.census.find_entering hr, Queue.offer_of_full hc hfull]

theorem Run.submit_closed (h : Run (fresh config heap heaps files codecState) log s)
    (hw : o.path.utf8ByteSize ≤ s.config.maxPathLength.toNat)
    (hc : (s.queue (entryLane o.operation o.flags)).isOpen = false) :
    s.submit o = (.error .serviceStopped, { s with
      heaps := (o.draw s.heap s.heaps).2.releaseOption (o.draw s.heap s.heaps).1
      nextId := s.nextId + 1 }) := by
  have hentering : (s.entering ++ [s.entrant o]).filter (fun q ↦ q.id ≠ s.nextId) = s.entering := by
    rw [List.filter_append, List.filter_eq_self.2 fun q hq ↦ decide_eq_true (h.next_new.1 q hq),
      List.filter_cons_of_neg (by simp [entrant, Order.request]), List.filter_nil, List.append_nil]
  have htickets : (s.tickets ++ [Ticket.ofRequest (s.entrant o)]).filter (fun k ↦ k.id ≠ s.nextId) =
      s.tickets := by
    rw [List.filter_append, List.filter_eq_self.2 fun k hk ↦ decide_eq_true (h.next_new.2 k hk),
      List.filter_cons_of_neg (by simp [Ticket.ofRequest, entrant, Order.request]), List.filter_nil,
      List.append_nil]
  have hoffer : (s.queue (entryLane (s.entrant o).operation (s.entrant o).flags)).offer
      (.payload (s.entrant o)) = .closed := Queue.offer_of_closed hc
  simp only [submit, enter_within hw, push, h.find_entrant, queue_mk, hoffer, hentering, htickets,
    discard]
  rfl

theorem Run.submit_open (h : Run (fresh config heap heaps files codecState) log s)
    (hw : o.path.utf8ByteSize ≤ s.config.maxPathLength.toNat)
    (ho : (s.queue (entryLane o.operation o.flags)).isOpen = true) :
    (s.submit o).1 = .ok s.nextId := by
  have hoffer : (s.queue (entryLane (s.entrant o).operation (s.entrant o).flags)).offer
      (.payload (s.entrant o)) ≠ .closed := by
    intro hclosed
    cases ho.symm.trans (Queue.offer_eq_closed hclosed)
  simp only [submit, enter_within hw, push, h.find_entrant, queue_mk]
  cases hq : (s.queue (entryLane (s.entrant o).operation (s.entrant o).flags)).offer
      (.payload (s.entrant o)) with
  | closed => exact absurd hq hoffer
  | full => rfl
  | taken q => rfl

/-- A request that is turned back at the queue has not been anywhere, and nothing comes of it. -/
theorem Run.refused_idle (h : Run (fresh config heap heaps files codecState) log s)
    (hr : .refused r ∈ log) :
    legs r.id log = [] ∧ (∀ g, Gauge.total (own r.id log) g = 0) ∧
      ∀ out, .published r.id out ∉ log := by
  obtain ⟨haccepted, hpublished, -⟩ := h.census.refused_out hr
  have hlegs : legs r.id log = [] := by
    by_contra hne
    obtain ⟨leg, hleg⟩ := List.exists_mem_of_ne_nil _ hne
    obtain ⟨q, hq, hacc⟩ := h.accepted_of_leg hleg
    exact haccepted (mem_accepted.2 ⟨q, hq, hacc⟩)
  exact ⟨hlegs, Gauge.total_own_of_legs hlegs, fun out hout ↦ hpublished (mem_published.2 ⟨out, hout⟩)⟩

/-- A request that is turned back takes its own buffer out of the books, and nothing else. -/
theorem Run.stats_turned_back (h : Run (fresh config heap heaps files codecState) log s)
    (hheap : heaps.has heap = true) (hothers : heaps.Owns others) (hr : r ∈ s.entering)
    {b : Buffer} (hb : r.buffer = some b) (k : HeapId) :
    s.heaps.stats k =
      if k = b.heap then
        ⟨((s.heaps.release b).stats k).allocations + 1,
          b.length + ((s.heaps.release b).stats k).bytes⟩
      else (s.heaps.release b).stats k := by
  have hmem : b.holding ∈ s.holdings := by
    have hown : b.holding ∈ s.entering.flatMap Request.holdings :=
      List.mem_flatMap.2 ⟨r, hr, by simp [Request.holdings, hb]⟩
    simp only [holdings, List.mem_append, hown, true_or]
  have howns : s.heaps.Owns (b.holding :: (s.holdings.erase b.holding ++ others)) :=
    (h.owns_beside hheap hothers).perm ((List.perm_cons_erase hmem).append_right others)
  rw [howns.stats, howns.release.stats]
  by_cases hk : k = b.heap
  · simp [hk, Buffer.holding]
  · simp [hk, Buffer.holding, Ne.symm hk]

/-- What comes of a request for a path that no file system can take. -/
structure Fruitless (s₀ : Service fs codec) (log : List Incident) (s : Service fs codec) (id : Nat)
    (o : Order) : Prop where
  /-- Its file stage leaves the files alone, as it would any other files. -/
  untouched : ∀ before r after rest result,
    log = before ++ .staged .file r after result :: rest → r.id = id →
      result = .error (unusable o.path) ∧ ∃ u v, Run s₀ before u ∧
        Run s₀ (before ++ [.staged .file r after result]) v ∧ v.files = u.files ∧
        ∀ (other : FileSystem) (files : other.State),
          FileStage.run other files u.heaps r = (⟨r, u.heaps, .error (unusable o.path)⟩, files)
  outcome : ∀ left, .published id left ∈ log → left.result = .error (unusable o.path)
  told : ∀ k ∈ s.tickets, k.id = id → ∀ answer k', k.ask .result = some (answer, k') →
    answer = .result (.error (unusable o.path))
  /-- A compressed write comes to the file stage from the codec, and only such a write does. -/
  stages : ∀ left, .published id left ∈ log →
    (o.operation = .read ∨ o.flags.contains .useCompression = false) →
      QueuedFiles.stages id log = [(.file, false)] ∧ Gauge.failures.total (own id log) = 1
  coded : ∀ path bytes append left, o = .write path bytes true append → .published id left ∈ log →
    ∃ coded, Written s₀ log id path bytes append left coded (.error (unusable path)) ∧
      Gauge.compressions.total (own id log) = if coded.isOk then 1 else 0

theorem Run.unusable_staged (h : Run (fresh config heap heaps files codecState) log s) {id : Nat}
    (ho : .entered id o ∈ log) (hpath : o.path = "" ∨ '\x00' ∈ o.path.toList)
    {before rest : List Incident} {after : Request} {result : Except Error Unit}
    (hlog : log = before ++ .staged .file r after result :: rest) (hid : r.id = id) :
    result = .error (unusable o.path) ∧ ∃ u v,
      Run (fresh config heap heaps files codecState) before u ∧
        Run (fresh config heap heaps files codecState) (before ++ [.staged .file r after result]) v ∧
        v.files = u.files ∧ ∀ (other : FileSystem) (files : other.State),
          FileStage.run other files u.heaps r = (⟨r, u.heaps, .error (unusable o.path)⟩, files) := by
  obtain ⟨u, v, staged, hu, hw, hs, -, hresult, hv, -⟩ := h.file_cut hlog
  have hm : .staged .file r after result ∈ log := by simp [hlog]
  have hc := h.shown_carries hm (List.mem_cons_self ..) (hid ▸ ho)
  have hnative : r.path.native = .error (unusable o.path) := by
    rw [hc.path_eq]
    exact Path.native_unusable hpath
  have hrun := FileStage.run_unusable hnative
  obtain ⟨hstaged, hfiles⟩ := Prod.mk.inj (hs.symm.trans (hrun fs u.files u.heaps))
  refine ⟨by rw [hresult, hstaged], u, v, hu, hv, hfiles, fun other files ↦ hrun other files _⟩

/-- Behind the outcome of such a request there is its file stage, and that is what is told. -/
theorem Run.unusable_published (h : Run (fresh config heap heaps files codecState) log s) {id : Nat}
    {left : Outcome} (ho : .entered id o ∈ log) (hpath : o.path = "" ∨ '\x00' ∈ o.path.toList)
    (hl : .published id left ∈ log) :
    left.result = .error (unusable o.path) ∧ (.file, false) ∈ stages id log := by
  have hstage : ∀ {before rest r after result}, r.id = id →
      log = before ++ .staged .file r after result :: rest →
        result = .error (unusable o.path) ∧ (.file, false) ∈ stages id log := by
    intro before rest r after result hid hlog
    have hresult := (h.unusable_staged ho hpath hlog hid).1
    have hm := mem_stages (show .staged .file r after result ∈ log by simp [hlog])
    rw [hresult, hid] at hm
    exact ⟨hresult, hm⟩
  cases hop : o.operation with
  | read =>
    obtain ⟨lane, q, staged, hleaves, rfl, hnext, rfl⟩ := h.published_leaves hl
    have hroute := h.itinerary_of_published hl ho
    rw [hop] at hroute
    rcases hleaves.read_stages hroute with ⟨rfl, -⟩ | ⟨rfl, hstages⟩
    · obtain ⟨before, rest, u, a, added, files', codecState', hlog, -⟩ := hleaves.cut
      obtain ⟨hresult, hm⟩ := hstage rfl hlog
      rw [Staged.settled_of_error hresult]
      exact ⟨rfl, hm⟩
    · -- It cannot have come to the codec, since its file stage fails.
      have hfile : (.file, true) ∈ stages q.id log := by simp [hstages]
      obtain ⟨r, after, result, hid, hok, hm⟩ := staged_of_stages hfile
      obtain ⟨before, rest, hlog⟩ := List.append_of_mem hm
      rw [(hstage hid hlog).1] at hok
      cases hok
  | write =>
    obtain ⟨before, r, after, filed, rest, u, v, hlog, hid, -, -, -, -, -, -, rfl, hresult⟩ :=
      h.write_filed hl ho hop
    obtain ⟨rfl, hm⟩ := hstage hid hlog
    exact ⟨hresult, hm⟩

theorem Run.fruitless (h : Run (fresh config heap heaps files codecState) log s) {id : Nat}
    (ho : .entered id o ∈ log) (hpath : o.path = "" ∨ '\x00' ∈ o.path.toList) :
    Fruitless (fresh config heap heaps files codecState) log s id o where
  untouched before r after rest result hlog hid := h.unusable_staged ho hpath hlog hid
  outcome left hl := (h.unusable_published ho hpath hl).1
  told k hk hid answer k' hask := by
    obtain ⟨left, hl, hresult, -⟩ := h.told hk hask
    rw [hresult rfl, (h.unusable_published ho hpath (hid ▸ hl)).1]
  stages left hl hplain := by
    have hm := (h.unusable_published ho hpath hl).2
    have hstages : QueuedFiles.stages id log = [(.file, false)] := by
      rcases hplain with hop | hplain
      · exact h.failed_read ho hop hm
      · have hroute := h.itinerary_of_published hl ho
        rw [hplain] at hroute
        obtain ⟨ok, hstages⟩ := hroute
        rw [hstages] at hm ⊢
        cases List.mem_singleton.1 hm
        rfl
    refine ⟨hstages, ?_⟩
    rw [(h.shares ho).failures, hstages]
    rfl
  coded path bytes append left horder hl := by
    subst horder
    obtain ⟨coded, filed, hwritten⟩ := h.written hl ho
    obtain ⟨before, r, after, rest, u, v, hlog, hid, -⟩ := hwritten.file
    obtain rfl := (h.unusable_staged ho hpath hlog hid).1
    refine ⟨coded, hwritten, ?_⟩
    rw [(h.shares ho).compressions, hwritten.once]
    cases coded.isOk <;> rfl

/-- Who gets in, and what comes of a path that only the file stage can turn down. -/
structure Admission (s₀ : Service fs codec) (log : List Incident) (s : Service fs codec) : Prop where
  overlong : ∀ o, s.config.maxPathLength.toNat < o.path.utf8ByteSize → ∃ hs,
    s.submit o = (.error (.pathTooLong o.path.utf8ByteSize s.config.maxPathLength.toNat),
      { s with heaps := hs }) ∧ s.enter o = s.submit o ∧ ∀ k, hs.stats k = s.heaps.stats k
  stopped : ∀ o, o.path.utf8ByteSize ≤ s.config.maxPathLength.toNat →
    s.worker (entryLane o.operation o.flags) = .gone → ∃ hs,
      s.submit o = (.error .serviceStopped, { s with heaps := hs, nextId := s.nextId + 1 }) ∧
        ∀ k, hs.stats k = s.heaps.stats k
  /-- The same for a caller that finds this out between its two moves. -/
  turnedBack : ∀ r ∈ s.entering, s.worker (entryLane r.operation r.flags) = .gone → ∃ t,
    s.push r.id = some (.error .serviceStopped, t) ∧ t.fileQueue = s.fileQueue ∧
      t.codecQueue = s.codecQueue ∧ t.recorder = s.recorder ∧ t.files = s.files ∧
      t.codecState = s.codecState ∧ (r.buffer = none → t.heaps = s.heaps) ∧
      ∀ b, r.buffer = some b → ∀ k, s.heaps.stats k =
        if k = b.heap then
          ⟨(t.heaps.stats k).allocations + 1, b.length + (t.heaps.stats k).bytes⟩
        else t.heaps.stats k
  refused : ∀ r, .refused r ∈ log → legs r.id log = [] ∧
    (∀ g, Gauge.total (own r.id log) g = 0) ∧ ∀ left, .published r.id left ∉ log
  within : ∀ o, o.path.utf8ByteSize ≤ s.config.maxPathLength.toNat →
    s.worker (entryLane o.operation o.flags) ≠ .gone →
      (s.enter o).1 = .ok s.nextId ∧ (s.submit o).1 = .ok s.nextId
  pushed : ∀ r ∈ s.entering, s.worker (entryLane r.operation r.flags) ≠ .gone →
    (∃ t, s.push r.id = some (.ok (), t)) ∨ s.push r.id = none ∧
      max s.config.queueCapacity.toNat 1 ≤
        (s.queue (entryLane r.operation r.flags)).messages.length
  fruitless : ∀ id o, .entered id o ∈ log → (o.path = "" ∨ '\x00' ∈ o.path.toList) →
    Fruitless s₀ log s id o
  /-- Unless it is given up, such a request comes to its end, as the capacity rule has it. -/
  completes : codec.Returns → (inFlight log).length ≤ max s.config.queueCapacity.toNat 1 + 1 →
    ∀ id o, .entered id o ∈ log → (o.path = "" ∨ '\x00' ∈ o.path.toList) →
      ∀ (lanes : List Lane) more t, s.follow (lanes.map .work) = some (more, t) →
        lanes.length ≤ s.movesLeft ∧ ((∀ lane, t.work lane = none) →
          (∃ u, t.push id = some (.ok (), u)) ∨
          (∃ q, q.id = id ∧ .dropped q ∈ log ++ more ∧ q.operation = .write ∧
            q.isCompressed = true ∧ ¬ InTime id (log ++ more)) ∨
          .signaled id ∈ log ++ more ∧ ∃ left, .published id left ∈ log ++ more ∧
            left.result = .error (unusable o.path))

theorem Run.completes_unusable (h : Run (fresh config heap heaps files codecState) log s)
    (hc : codec.Returns)
    (hrule : (inFlight log).length ≤ max config.queueCapacity.toNat 1 + 1) {id : Nat}
    (ho : .entered id o ∈ log) (hpath : o.path = "" ∨ '\x00' ∈ o.path.toList) {lanes : List Lane}
    (hmoves : s.follow (lanes.map .work) = some (more, t)) (hrest : ∀ lane, t.work lane = none) :
    (∃ u, t.push id = some (.ok (), u)) ∨
      (∃ q, q.id = id ∧ .dropped q ∈ log ++ more ∧ q.operation = .write ∧ q.isCompressed = true ∧
        ¬ InTime id (log ++ more)) ∨
      .signaled id ∈ log ++ more ∧ ∃ left, .published id left ∈ log ++ more ∧
        left.result = .error (unusable o.path) := by
  have ht := h.trans (.of_follow hmoves)
  rcases (h.goes_on hc hrule ho hmoves).2 hrest with hpush | ⟨q, rfl, hlost⟩ | hsignaled
  · exact .inl hpush
  · obtain ⟨hop, hcomp, -, hlate⟩ := ht.dropped_late hc hlost
    exact .inr (.inl ⟨q, rfl, hlost, hop, hcomp, hlate⟩)
  · obtain ⟨left, hl⟩ := mem_published.1 ((ht.census.signaled_iff id).1 (mem_signaled.2 hsignaled)).1
    have hresult := (ht.unusable_published (List.mem_append_left more ho) hpath hl).1
    exact .inr (.inr ⟨hsignaled, left, hl, hresult⟩)

theorem Run.admission (h : Run (fresh config heap heaps files codecState) log s)
    (hheap : heaps.has heap = true) (hothers : heaps.Owns others) :
    Admission (fresh config heap heaps files codecState) log s := by
  have hgone : ∀ lane, s.worker lane = .gone ↔ (s.queue lane).isOpen = false :=
    fun lane ↦ h.census.staffed lane
  have hopen : ∀ lane, s.worker lane ≠ .gone → (s.queue lane).isOpen = true := by
    intro lane hlane
    by_contra hclosed
    exact hlane ((hgone lane).2 (Bool.eq_false_iff.2 hclosed))
  have hnumbered : s.heaps.Numbered := (h.owns_beside hheap hothers).issued
  constructor
  case overlong =>
    intro o ho
    refine ⟨_, submit_overlong ho, ?_, Order.stats_draw hnumbered o s.heap⟩
    rw [enter_overlong ho, submit_overlong ho]
  case stopped =>
    intro o ho hw
    exact ⟨_, h.submit_closed ho ((hgone _).1 hw), Order.stats_draw hnumbered o s.heap⟩
  case turnedBack =>
    intro r hr hw
    refine ⟨_, h.push_closed hr ((hgone _).1 hw), rfl, rfl, rfl, rfl, rfl, ?_, ?_⟩
    · intro hb
      rw [hb]
      rfl
    · intro b hb k
      rw [hb]
      exact h.stats_turned_back hheap hothers hr hb k
  case refused => exact fun r hr ↦ h.refused_idle hr
  case within =>
    intro o ho hw
    exact ⟨by rw [enter_within ho], h.submit_open ho (hopen _ hw)⟩
  case pushed =>
    intro r hr hw
    rw [h.frame.1]
    exact h.push_open hr (hopen _ hw)
  case fruitless => exact fun id o ho hpath ↦ h.fruitless ho hpath
  case completes =>
    intro hc hrule id o ho hpath lanes more t hmoves
    rw [h.frame.1] at hrule
    exact ⟨(h.goes_on hc hrule ho hmoves).1, h.completes_unusable hc hrule ho hpath hmoves⟩

/-- A service whose caller has a buffer from its heap. -/
def lent : Service Disk.fileSystem (.ofPure .verbatim) :=
  fresh default 0 ((Heaps.empty.create "").2.adopt 0 [7]).2 Disk.initial ()

/-- A compressed write to the empty path, up to its end. -/
def pathless : List Incident × Service Disk.fileSystem (.ofPure .verbatim) :=
  (lent.follow [.enter (.write "" [1, 2] true false), .push 1, .work .codec, .work .codec,
    .work .codec, .work .codec, .work .file, .work .file, .work .file, .work .file,
    .work .file]).get (by decide)

theorem admission_pathless :
    Run lent pathless.1 pathless.2 ∧ ((Heaps.empty.create "").2.adopt 0 [7]).2.Owns [⟨0, 0, 1⟩] ∧
      Admission lent pathless.1 pathless.2 ∧
      stages 1 pathless.1 = [(.codec, true), (.file, false)] ∧
      ((pathless.2.ticket? 1).bind (·.outcome)).map (·.result) =
        some (.error (.pathEncoding "" .empty)) := by
  have hrun : Run lent pathless.1 pathless.2 := .of_isSome _
  have hempty : ∀ k, ((Heaps.empty.create "").2.get k).live = [] := fun k ↦
    (Heaps.books_create .empty "" k).1
  have hothers : ((Heaps.empty.create "").2.adopt 0 [7]).2.Owns [⟨0, 0, 1⟩] :=
    (Heaps.owns_nil hempty).adopt rfl [7]
  exact ⟨hrun, hothers, Run.admission hrun rfl hothers, by decide, by rfl⟩

/-- Such a write, and a shutdown that stops the file worker before the codec is done. -/
def stranded : List Incident × Service Disk.fileSystem (.ofPure .verbatim) :=
  ((sampleDisk default .verbatim).follow [.enter (.write "" [97, 98, 99] true false), .push 1,
    .work .codec, .close, .close, .work .file, .work .file, .close, .work .codec, .work .codec,
    .work .codec]).get (by decide)

/-- Such a write in a standstill. -/
def clogged : List Incident × Service Disk.fileSystem (.ofPure .verbatim) :=
  ((sampleDisk (.ofCapacity 1) .verbatim).follow (crossing "")).get (by decide)

theorem clogged_jammed : clogged.2.Jammed := by
  refine ⟨⟨_, rfl⟩, ⟨_, rfl⟩, ?_, .inl rfl⟩
  intro lane
  cases lane <;> decide

/-- Both have been accepted, and will never be told that there is no such path: the one because it is
given up, the other because the workers have come to a standstill, though nobody gives it up. -/
theorem stranded_untold :
    (Run (sampleDisk default .verbatim) stranded.1 stranded.2 ∧
      .entered 1 (.write "" [97, 98, 99] true false) ∈ stranded.1 ∧
      (∃ r, r.id = 1 ∧ .accepted r ∈ stranded.1) ∧
      ∀ more t, Run stranded.2 more t → ∀ left, .published 1 left ∉ stranded.1 ++ more) ∧
    Config.validate (.ofCapacity 1) = .ok () ∧
      Run (sampleDisk (.ofCapacity 1) .verbatim) clogged.1 clogged.2 ∧
      .entered 2 (.write "" [1] true false) ∈ clogged.1 ∧
      (∃ r, r.id = 2 ∧ .accepted r ∈ clogged.1) ∧
      ∀ more t, Run clogged.2 more t → (∀ left, .published 2 left ∉ clogged.1 ++ more) ∧
        ∀ r, r.id = 2 → .dropped r ∉ clogged.1 ++ more := by
  constructor
  · have hrun : Run (sampleDisk default .verbatim) stranded.1 stranded.2 := .of_isSome _
    have hentered : stranded.1.head? = some (.entered 1 (.write "" [97, 98, 99] true false)) := by rfl
    have haccepted : 1 ∈ ids (stranded.1.filterMap Incident.accepted?) := by decide
    have hdropped : 1 ∈ ids (stranded.1.filterMap Incident.dropped?) := by decide
    refine ⟨hrun, List.mem_of_mem_head? hentered, mem_accepted.1 haccepted, ?_⟩
    intro more t ht left hl
    have hpublished := mem_published.2 ⟨left, hl⟩
    obtain ⟨q, hid, hq⟩ := mem_dropped.1 hdropped
    exact (hrun.trans ht).census.not_dropped hpublished
      (mem_dropped.2 ⟨q, hid, List.mem_append_left more hq⟩)
  · have hentered : clogged.1[4]? = some (.entered 2 (.write "" [1] true false)) := by rfl
    have haccepted : 2 ∈ ids (clogged.1.filterMap Incident.accepted?) := by decide
    refine ⟨rfl, .of_isSome _, List.mem_of_getElem? hentered, mem_accepted.1 haccepted, ?_⟩
    intro more t h
    have hends : (∀ o, .published 2 o ∉ clogged.1 ++ more) ∧ .signaled 2 ∉ clogged.1 ++ more ∧
        ∀ r, r.id = 2 → .dropped r ∉ clogged.1 ++ more :=
      h.unfinished clogged_jammed (by decide) (by decide) (by decide)
    exact ⟨hends.1, hends.2.2⟩

end Service

end QueuedFiles
