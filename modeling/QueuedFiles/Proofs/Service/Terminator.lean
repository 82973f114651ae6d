import QueuedFiles.Proofs.Service.Lookalike
import QueuedFiles.Proofs.Service.Shape

/-!
A read with a terminator and the same read without one, in two runs that make the same moves. All that
is different is the terminator, and the codec is never given it.
-/

namespace QueuedFiles

/-- What stands behind the bytes that count in the buffer that an order leaves. -/
def Order.tail : Order → Bytes
  | .read _ _ terminated compressed => if terminated || compressed then [Limits.terminator] else []
  | .write .. => []

theorem Incident.leg?_blind (i : Incident) (id j : Nat) : (i.blind id).leg? j = i.leg? j := by
  cases i <;> rfl

section

variable {id : Nat} {log log' : List Incident}

theorem stages_alike (h : log.map (Incident.blind id) = log'.map (Incident.blind id)) (j : Nat) :
    stages j log = stages j log' := by
  have hlegs : ∀ l : List Incident, legs j l = legs j (l.map (Incident.blind id)) := by
    intro l
    simp only [legs, List.filterMap_map, Function.comp_def, Incident.leg?_blind]
  rw [stages, stages, hlegs log, h, ← hlegs log']

theorem mem_alike {i : Incident} (h : log.map (Incident.blind id) = log'.map (Incident.blind id))
    (hi : i ∈ log) : ∃ i' ∈ log', i'.blind id = i.blind id :=
  List.mem_map.1 (h ▸ List.mem_map_of_mem hi)

theorem published_alike {j : Nat} {o : Outcome}
    (h : log.map (Incident.blind id) = log'.map (Incident.blind id)) (ho : .published j o ∈ log) :
    ∃ o', .published j o' ∈ log' ∧ o'.blind = o.blind := by
  obtain ⟨i, hi, hb⟩ := mem_alike h ho
  cases i <;> simp only [Incident.blind, reduceCtorEq, Incident.published.injEq] at hb
  obtain ⟨rfl, hb⟩ := hb
  exact ⟨_, hi, hb⟩

theorem staged_alike {lane : Lane} {r after : Request} {result : Except Error Unit}
    (h : log.map (Incident.blind id) = log'.map (Incident.blind id))
    (hm : .staged lane r after result ∈ log) :
    ∃ r' after', .staged lane r' after' result ∈ log' ∧ r'.id = r.id ∧ r'.payload = r.payload ∧
      after'.payload = after.payload := by
  obtain ⟨i, hi, hb⟩ := mem_alike h hm
  cases i <;> simp only [Incident.blind, reduceCtorEq, Incident.staged.injEq] at hb
  rename_i lane r' after' result
  obtain ⟨rfl, hr, hafter, rfl⟩ := hb
  refine ⟨r', after', hi, (congrArg Request.id hr :), ?_, ?_⟩
  · rw [← r'.payload_blind id, hr, r.payload_blind]
  · rw [← after'.payload_blind id, hafter, after.payload_blind]

theorem entered_alike {j : Nat} {o : Order}
    (h : log.map (Incident.blind id) = log'.map (Incident.blind id)) (hj : j ≠ id)
    (ho : .entered j o ∈ log) : .entered j o ∈ log' := by
  obtain ⟨i, hi, hb⟩ := mem_alike h ho
  cases i <;> simp only [Incident.blind, reduceCtorEq, Incident.entered.injEq] at hb
  obtain ⟨rfl, hb⟩ := hb
  rw [if_neg hj, if_neg hj] at hb
  exact hb ▸ hi

end

namespace Service

variable {fs : FileSystem} {codec : Codec} {s t s₀ : Service fs codec} {log log' : List Incident}
  {config : Config} {heap : HeapId} {heaps : Heaps} {files : fs.State} {codecState : codec.State}

theorem ReadOutcome.bytes_eq {id max : Nat} {terminated compressed : Bool} {o : Outcome}
    (h : ReadOutcome s₀ log id max terminated compressed o)
    (hi : Itinerary .read compressed (stages id log)) {b : Buffer} (hb : o.buffer = some b) :
    b.bytes = (b.cut o.size).bytes ++
      if terminated || compressed then [Limits.terminator] else [] := by
  have hcoded : ∀ {ok}, stages id log = [(.file, true), (.codec, ok)] → compressed = true := by
    intro ok hs
    rw [hs] at hi
    cases compressed with
    | true => rfl
    | false =>
      obtain ⟨done, hone⟩ := hi
      cases hone
  cases h with
  | unread => cases hb
  | plain hc hs hd hbytes =>
    cases hb
    subst hc
    cases terminated <;> simp [Buffer.cut, hbytes]
  | unreserved hs hm hbytes =>
    cases hb
    simp [Buffer.cut, hbytes, hcoded hs]
  | decoded hs hd hn hbytes =>
    cases hb
    simp [Buffer.cut, hbytes, hcoded hs, Bytes.length_fit]
  | undecoded hs hd he hbytes =>
    cases hb
    simp [Buffer.cut, hbytes, hcoded hs]

theorem Run.outcome_bytes (h : Run (fresh config heap heaps files codecState) log s) {id : Nat}
    {order : Order} {o : Outcome} (ho : .published id o ∈ log) (hr : .entered id order ∈ log)
    {b : Buffer} (hb : o.buffer = some b) : b.bytes = (b.cut o.size).bytes ++ order.tail := by
  cases order with
  | read path k terminated compressed =>
    have hroute := h.itinerary_of_published ho hr
    have hflag : (Order.read path k terminated compressed).flags.contains .useCompression =
        compressed := by simp [Order.flags]
    rw [hflag] at hroute
    exact (h.read_outcome ho hr).bytes_eq hroute hb
  | write path bytes compressed append =>
    obtain ⟨r, order, hsized, rfl, hr', hop⟩ := h.published_sized ho
    obtain rfl := h.census.order_unique hr hr'
    obtain ⟨c, hc, hsize⟩ := hsized.whole hop
    cases hb.symm.trans hc
    have hwhole : r.outcome.size = b.length := hsize
    rw [hwhole, Buffer.cut_length, Order.tail, List.append_nil]

/-- Two outcomes that look the same differ by what stands behind the bytes that count. -/
theorem Run.buffers_alike (h : Run (fresh config heap heaps files codecState) log s)
    (h' : Run (fresh config heap heaps files codecState) log' t) {id : Nat} {o o' : Outcome}
    {order order' : Order} (ho : .published id o ∈ log) (ho' : .published id o' ∈ log')
    (hr : .entered id order ∈ log) (hr' : .entered id order' ∈ log') (hb : o.blind = o'.blind) :
    o.buffer = none ∧ o'.buffer = none ∨
      ∃ d c c', o.buffer = some c ∧ o'.buffer = some c' ∧ c.key = c'.key ∧
        c.bytes = d ++ order.tail ∧ c'.bytes = d ++ order'.tail := by
  have hbuffer : o.buffer.map (·.cut o.size) = o'.buffer.map (·.cut o'.size) :=
    (congrArg Outcome.buffer hb :)
  cases hc : o.buffer with
  | none =>
    rw [hc] at hbuffer
    exact .inl ⟨rfl, Option.map_eq_none_iff.1 hbuffer.symm⟩
  | some c =>
    rw [hc, Option.map_some] at hbuffer
    obtain ⟨c', hc', hcut⟩ := Option.map_eq_some_iff.1 hbuffer.symm
    refine .inr ⟨(c.cut o.size).bytes, c, c', rfl, hc', ?_, h.outcome_bytes ho hr hc, ?_⟩
    · exact (congrArg Buffer.key hcut.symm :)
    · rw [h'.outcome_bytes ho' hr' hc', hcut]

theorem Run.buffer_same (h : Run (fresh config heap heaps files codecState) log s)
    (h' : Run (fresh config heap heaps files codecState) log' t) {id : Nat} {o o' : Outcome}
    {order order' : Order} (ho : .published id o ∈ log) (ho' : .published id o' ∈ log')
    (hr : .entered id order ∈ log) (hr' : .entered id order' ∈ log') (hb : o.blind = o'.blind)
    (htail : order.tail = order'.tail) : o.buffer = o'.buffer := by
  rcases h.buffers_alike h' ho ho' hr hr' hb with ⟨hc, hc'⟩ | ⟨d, c, c', hc, hc', hkey, hd, hd'⟩
  · rw [hc, hc']
  · obtain ⟨hheap, hid⟩ := Prod.mk.inj hkey
    have hbytes : c.bytes = c'.bytes := by rw [hd, hd', htail]
    have heq : c = c' := by
      rw [Buffer.mk.injEq]
      exact ⟨hheap, hid, hbytes⟩
    rw [hc, hc', heq]

theorem tell_blind {q : Question} (hq : q ≠ .buffer) (id : Nat) (s : Service fs codec) (j : Nat) :
    ((s.blind id).ask j q).map (·.1) = (s.ask j q).map (·.1) := by
  simp only [ask, ticket?_blind]
  cases s.ticket? j with
  | none => rfl
  | some k =>
    have hsignaled : k.blind.signaled = k.signaled := rfl
    simp only [Option.map_some, Option.bind_some, Ticket.ask, Ticket.wait, hsignaled]
    cases k.signaled with
    | false => rfl
    | true =>
      cases q with
      | buffer => exact absurd rfl hq
      | result | code | size =>
        cases ho : k.outcome <;> simp [Ticket.look, Ticket.result, Ticket.blind, ho, Outcome.blind]

theorem coding_alike {id : Nat} (hst : s.blind id = t.blind id) {r : Request}
    {room : Option Reservation} (hw : s.worker .codec = .coding r room) :
    ∃ r', t.worker .codec = .coding r' room ∧ r'.id = r.id ∧ r'.payload = r.payload := by
  have hworker : (t.worker .codec).blind id = .coding (r.blind id) room := by
    rw [← worker_blind, ← hst, worker_blind, hw]
    rfl
  cases ht : t.worker .codec <;> rw [ht] at hworker <;>
    simp only [Worker.blind, reduceCtorEq, Worker.coding.injEq] at hworker
  rename_i r' room'
  obtain ⟨hr, rfl⟩ := hworker
  refine ⟨r', rfl, (congrArg Request.id hr :), ?_⟩
  rw [← r'.payload_blind id, hr, r.payload_blind]

/-- A read with a terminator or without one, as `b` and `b'` say, in two runs that go on alike. -/
structure Twins (s : Service fs codec) (path : String) (k : HeapId) (compressed b b' : Bool)
    (log log' : List Incident) (t t' : Service fs codec) : Prop where
  returned : (s.enter (.read path k b compressed)).1 = (s.enter (.read path k b' compressed)).1
  counters : t.recorder = t'.recorder
  files : t.files = t'.files
  codecState : t.codecState = t'.codecState
  allocations : ∀ j, (t.heaps.stats j).allocations = (t'.heaps.stats j).allocations
  stages : ∀ j, QueuedFiles.stages j log = QueuedFiles.stages j log'
  /-- Every stage has the same bytes, and leaves the same. -/
  payloads : ∀ lane r after result, .staged lane r after result ∈ log →
    ∃ r' after', .staged lane r' after' result ∈ log' ∧ r'.id = r.id ∧ r'.payload = r.payload ∧
      after'.payload = after.payload
  /-- The codec is given the same bytes at the same time. -/
  decoder : ∀ r room, t.worker .codec = .coding r room →
    ∃ r', t'.worker .codec = .coding r' room ∧ r'.id = r.id ∧ r'.payload = r.payload
  told : ∀ j q, q ≠ .buffer → (t.ask j q).map (·.1) = (t'.ask j q).map (·.1)
  published : ∀ j, (∃ o, .published j o ∈ log) ↔ ∃ o, .published j o ∈ log'
  outcomes : ∀ j o o', .published j o ∈ log → .published j o' ∈ log' →
    o.result = o'.result ∧ o.size = o'.size
  same : ∀ j o o', .published j o ∈ log → .published j o' ∈ log' →
    compressed = true ∨ (s.enter (.read path k b compressed)).1 ≠ .ok j → o.buffer = o'.buffer
  plain : compressed = false → ∀ j o o', .published j o ∈ log → .published j o' ∈ log' →
    (s.enter (.read path k b compressed)).1 = .ok j →
      o.buffer = none ∧ o'.buffer = none ∨
      ∃ d c c', o.buffer = some c ∧ o'.buffer = some c' ∧ c.key = c'.key ∧
        c.bytes = d ++ (if b then [Limits.terminator] else []) ∧
        c'.bytes = d ++ if b' then [Limits.terminator] else []

/-- Only the request that has been entered can tell the one state from the other. -/
theorem enter_alike (hpos : 0 < s.nextId) (path : String) (k : HeapId) (compressed b b' : Bool) :
    (s.enter (.read path k b compressed)).1 = (s.enter (.read path k b' compressed)).1 ∧
      ∃ id, id < (s.enter (.read path k b compressed)).2.nextId ∧
        (s.enter (.read path k b compressed)).2.blind id =
          (s.enter (.read path k b' compressed)).2.blind id ∧
        (s.record (.enter (.read path k b compressed))).map (Incident.blind id) =
          (s.record (.enter (.read path k b' compressed))).map (Incident.blind id) ∧
        ∀ j, 0 < j → ((s.enter (.read path k b compressed)).1 = .ok j ↔ j = id) := by
  simp only [record, enter, Order.path, Order.draw]
  cases Path.ofText path s.config.maxPathLength.toNat with
  | error e => exact ⟨rfl, 0, hpos, rfl, rfl, fun j hj ↦ by simp [Nat.ne_of_gt hj]⟩
  | ok native =>
    refine ⟨rfl, s.nextId, Nat.lt_succ_self _, ?_, ?_, ?_⟩
    · have hflags := Flags.unterminated_forRead b b' compressed
      simp [blind, Order.request, Order.operation, Order.flags, Order.heap, Request.blind, hflags,
        Ticket.ofRequest, entryLane]
    · simp [Incident.blind, Order.blind, Order.request]
    · intro j _
      simp [Order.request, eq_comm]

theorem Run.twins_of_alike {log₀ : List Incident} {t' : Service fs codec} {id : Nat} {path : String}
    {k : HeapId} {compressed b b' : Bool}
    (h : Run (fresh config heap heaps files codecState) (log₀ ++ log) t)
    (h' : Run (fresh config heap heaps files codecState) (log₀ ++ log') t')
    (hst : t.blind id = t'.blind id)
    (hlogs : log.map (Incident.blind id) = log'.map (Incident.blind id))
    (hreturned : (s.enter (.read path k b compressed)).1 = (s.enter (.read path k b' compressed)).1)
    (hown : ∀ j, 0 < j → ((s.enter (.read path k b compressed)).1 = .ok j ↔ j = id))
    (hentry : ∀ j, (s.enter (.read path k b compressed)).1 = .ok j →
      .entered j (.read path k b compressed) ∈ log ∧
        .entered j (.read path k b' compressed) ∈ log') :
    Twins s path k compressed b b' log log' t t' := by
  have hblind : ∀ {j o o'}, .published j o ∈ log → .published j o' ∈ log' → o.blind = o'.blind := by
    intro j o o' ho ho'
    obtain ⟨left, hleft, hb⟩ := published_alike hlogs ho
    rw [h'.census.outcome_unique (List.mem_append_right _ ho') (List.mem_append_right _ hleft), hb]
  constructor
  case returned => exact hreturned
  case counters => exact (congrArg recorder hst :)
  case files => exact (congrArg Service.files hst :)
  case codecState => exact (congrArg Service.codecState hst :)
  case allocations =>
    intro j
    have hheaps : t.heaps.blind = t'.heaps.blind := (congrArg Service.heaps hst :)
    rw [← Heaps.allocations_blind, hheaps, Heaps.allocations_blind]
  case stages => exact stages_alike hlogs
  case payloads => exact fun lane r after result hm ↦ staged_alike hlogs hm
  case decoder => exact fun r room hw ↦ coding_alike hst hw
  case told =>
    intro j q hq
    rw [← tell_blind hq id t, hst, tell_blind hq id t']
  case published =>
    intro j
    constructor
    · intro ⟨o, ho⟩
      obtain ⟨o', ho', -⟩ := published_alike hlogs ho
      exact ⟨o', ho'⟩
    · intro ⟨o, ho⟩
      obtain ⟨o', ho', -⟩ := published_alike hlogs.symm ho
      exact ⟨o', ho'⟩
  case outcomes =>
    intro j o o' ho ho'
    have hb := hblind ho ho'
    exact ⟨(congrArg Outcome.result hb :), (congrArg Outcome.size hb :)⟩
  case same =>
    intro j o o' ho ho' hcase
    have hl := List.mem_append_right log₀ ho
    have hl' := List.mem_append_right log₀ ho'
    by_cases hj : (s.enter (.read path k b compressed)).1 = .ok j
    · -- The codec puts a terminator behind whatever it has made.
      obtain rfl : compressed = true := hcase.resolve_right fun hn ↦ hn hj
      obtain ⟨hr, hr'⟩ := hentry j hj
      refine h.buffer_same h' hl hl' (List.mem_append_right _ hr) (List.mem_append_right _ hr')
        (hblind ho ho') ?_
      simp only [Order.tail, Bool.or_true]
    · obtain ⟨r, order, -, -, hr, -⟩ := h.published_sized hl
      have hnumber : j ∈ (log₀ ++ log).filterMap Incident.entered? :=
        List.mem_filterMap.2 ⟨_, hr, rfl⟩
      rw [h.census.numbers, List.mem_range'_1] at hnumber
      have hother : j ≠ id := fun he ↦ hj ((hown j hnumber.1).2 he)
      have hr' : .entered j order ∈ log₀ ++ log' := by
        rcases List.mem_append.1 hr with hr | hr
        · exact List.mem_append_left _ hr
        · exact List.mem_append_right _ (entered_alike hlogs hother hr)
      exact h.buffer_same h' hl hl' hr hr' (hblind ho ho') rfl
  case plain =>
    intro hplain j o o' ho ho' hj
    subst hplain
    obtain ⟨hr, hr'⟩ := hentry j hj
    have hbuffers := h.buffers_alike h' (List.mem_append_right _ ho) (List.mem_append_right _ ho')
      (List.mem_append_right _ hr) (List.mem_append_right _ hr') (hblind ho ho')
    simpa only [Order.tail, Bool.or_false] using hbuffers

/-- Whatever is done behind the one read can be done behind the other. -/
theorem Run.twins {log₀ : List Incident}
    (h : Run (fresh config heap heaps files codecState) log₀ s) (path : String) (k : HeapId)
    (compressed b b' : Bool) {ms : List Move}
    (hm : s.follow (.enter (.read path k b compressed) :: ms) = some (log, t)) :
    ∃ ms' log' t', ms'.map Move.blind = ms.map Move.blind ∧
      s.follow (.enter (.read path k b' compressed) :: ms') = some (log', t') ∧
      Twins s path k compressed b b' log log' t t' := by
  obtain ⟨hreturned, id, hid, hentered, hrecord, hown⟩ :=
    enter_alike h.census.positive path k compressed b b'
  have hrun := h.trans (.of_follow hm)
  obtain ⟨u, hu, hm⟩ := Option.bind_eq_some_iff.1 hm
  obtain ⟨⟨rest, w⟩, hrest, hm⟩ := Option.map_eq_some_iff.1 hm
  cases hm
  simp only [Service.step, Option.ite_none_right_eq_some, Option.some.injEq] at hu
  obtain ⟨hopen, rfl⟩ := hu
  obtain ⟨ms', rest', t', hms, hfollow, hst, hlog⟩ := follow_alike hid hentered hrest
  have hstep : s.step (.enter (.read path k b' compressed)) =
      some (s.enter (.read path k b' compressed)).2 := if_pos hopen
  have hm' : s.follow (.enter (.read path k b' compressed) :: ms') =
      some (s.record (.enter (.read path k b' compressed)) ++ rest', t') := by
    simp only [follow, hstep, hfollow, Option.bind_some, Option.map_some]
  refine ⟨ms', _, t', hms, hm', hrun.twins_of_alike (h.trans (.of_follow hm')) hst ?_ hreturned hown ?_⟩
  · rw [List.map_append, List.map_append, hrecord, hlog]
  · intro j hj
    have hj' := hreturned ▸ hj
    constructor
    · simp [record, hj]
    · simp [record, hj']

/-- A service with one file of two bytes. -/
def stocked : Service FileSystem.single (.ofPure .verbatim) :=
  fresh default 0 (Heaps.empty.create "").2 [1, 2] ()

def oneRead : List Move := [.push 1, .work .file, .work .file, .work .file, .work .file]

def terminated : List Incident × Service FileSystem.single (.ofPure .verbatim) :=
  (stocked.follow (.enter (.read "f" 0 true false) :: oneRead)).get (by decide)

theorem twins_terminated :
    Run stocked [] stocked ∧
      stocked.follow (.enter (.read "f" 0 true false) :: oneRead) = some terminated ∧
      .published 1 ⟨.ok (), some ⟨0, 0, [1, 2, 0]⟩, 2⟩ ∈ terminated.1 ∧
      ∃ ms log t, ms.map Move.blind = oneRead.map Move.blind ∧
        stocked.follow (.enter (.read "f" 0 false false) :: ms) = some (log, t) ∧
        Twins stocked "f" 0 false true false terminated.1 log terminated.2 t ∧
        ∃ o, .published 1 o ∈ log ∧ o.result = .ok () ∧ o.buffer.map (·.bytes) = some [1, 2] := by
  have hfollow : stocked.follow (.enter (.read "f" 0 true false) :: oneRead) = some terminated :=
    (Option.some_get _).symm
  have hpublished : terminated.1[4]? = some (.published 1 ⟨.ok (), some ⟨0, 0, [1, 2, 0]⟩, 2⟩) := by rfl
  have hl := List.mem_of_getElem? hpublished
  obtain ⟨ms, log, t, hms, ht, htwins⟩ := Run.twins (s := stocked) .refl "f" 0 false true false hfollow
  refine ⟨.refl, hfollow, hl, ms, log, t, hms, ht, htwins, ?_⟩
  obtain ⟨o, ho⟩ := (htwins.published 1).1 ⟨_, hl⟩
  refine ⟨o, ho, (htwins.outcomes 1 _ o hl ho).1.symm, ?_⟩
  rcases htwins.plain rfl 1 _ o hl ho rfl with ⟨hnone, -⟩ | ⟨d, c, c', hc, hc', -, hd, hd'⟩
  · cases hnone
  · cases hc
    have hd : [1, 2] ++ [Limits.terminator] = d ++ [Limits.terminator] := hd
    obtain rfl := List.append_cancel_right hd
    rw [hc', Option.map_some, hd']
    rfl

end Service

end QueuedFiles
