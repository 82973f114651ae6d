import QueuedFiles.Proofs.Service.Losses
import QueuedFiles.Proofs.Service.Standstill
import QueuedFiles.Service.Run
import Mathlib.Algebra.GroupWithZero.Nat

/-!
The moves that the workers have left. Every move of a worker takes one off at least, whatever comes
of it, so that the two of them come to rest by themselves.
-/

namespace QueuedFiles

/-- The moves that a request takes at most, from the queue of a lane until its worker lets go of it. -/
def Operation.effort : Operation → Lane → Nat
  | .read, .file | .write, .codec => 9
  | .read, .codec => 6
  | .write, .file => 5

def Message.effort (lane : Lane) : Message Request → Nat
  | .payload r => r.operation.effort lane
  | .shutdown => 2

def Queue.effort (q : Queue Request) (lane : Lane) : Nat :=
  (q.messages.map (Message.effort lane)).sum

def Worker.effort (lane : Lane) : Worker → Nat
  | .idle | .gone => 0
  | .serving r => r.operation.effort lane - 1
  | .coding r _ => r.operation.effort lane - 2
  | .routing r (.handOff onward) => r.operation.effort onward + 1
  | .routing _ .complete => 3
  | .signaling _ => 2
  | .releasing _ | .leaving => 1

theorem Queue.effort_extend (q : Queue Request) (m : Message Request) (lane : Lane) :
    (q.extend m).effort lane = q.effort lane + m.effort lane := by
  simp [effort]

theorem Queue.effort_of_messages {q : Queue Request} {m : Message Request}
    {ms : List (Message Request)} (h : q.messages = m :: ms) (lane : Lane) :
    q.effort lane = m.effort lane + Queue.effort { q with messages := ms } lane := by
  simp [effort, h]

theorem Operation.effort_le (op : Operation) (lane : Lane) : op.effort lane ≤ 9 := by
  cases op <;> cases lane <;> decide

theorem Message.effort_le (m : Message Request) (lane : Lane) : m.effort lane ≤ 9 := by
  cases m with
  | payload r => exact r.operation.effort_le lane
  | shutdown => simp [effort]

theorem Queue.effort_le (q : Queue Request) (lane : Lane) :
    q.effort lane ≤ 9 * q.messages.length := by
  unfold effort
  induction q.messages with
  | nil => simp
  | cons m ms ih =>
    have hm := m.effort_le lane
    simp only [List.map_cons, List.sum_cons, List.length_cons]
    omega

/-- What a stage leaves to do is less than what the call or the stage itself stood for. -/
theorem effort_next (op : Operation) (flags : Flags) (lane : Lane) (ok : Bool) (r : Request)
    (hr : r.operation = op) :
    (Worker.routing r (nextAfter op flags lane ok)).effort lane + 1 ≤ op.effort lane - 1 ∧
      (lane = .codec → (Worker.routing r (nextAfter op flags lane ok)).effort lane + 1 ≤
        op.effort lane - 2) := by
  cases lane <;> cases op <;> simp only [nextAfter] <;> repeat' split
  all_goals simp [Worker.effort, Operation.effort, hr]

namespace Service

variable {fs : FileSystem} {codec : Codec} {s t : Service fs codec} {lane : Lane}
  {more : List Incident}

def effort (s : Service fs codec) : Nat :=
  (s.queue .file).effort .file + (s.queue .codec).effort .codec + (s.worker .file).effort .file +
    (s.worker .codec).effort .codec

theorem effort_setWorker (s : Service fs codec) (lane : Lane) (w : Worker) :
    (s.setWorker lane w).effort + (s.worker lane).effort lane = s.effort + w.effort lane := by
  cases lane <;> simp [effort] <;> omega

theorem effort_setQueue (s : Service fs codec) (lane : Lane) (q : Queue Request) :
    (s.setQueue lane q).effort + (s.queue lane).effort lane = s.effort + q.effort lane := by
  cases lane <;> simp [effort] <;> omega

theorem effort_taken {q : Queue Request} {m : Message Request} {w : Worker}
    (hw : s.worker lane = .idle) (hq : (s.queue lane).effort lane = m.effort lane + q.effort lane)
    (hlt : w.effort lane < m.effort lane) :
    ((s.setQueue lane q).setWorker lane w).effort < s.effort := by
  have hqueue := s.effort_setQueue lane q
  have hworker := (s.setQueue lane q).effort_setWorker lane w
  have hidle : Worker.idle.effort lane = 0 := rfl
  rw [worker_setQueue, hw, hidle] at hworker
  omega

theorem effort_moved {w : Worker} (hqueues : ∀ k, (t.queue k).messages = (s.queue k).messages)
    (hworkers : ∀ k, t.worker k = s.worker k)
    (hlt : w.effort lane < (s.worker lane).effort lane) : (t.setWorker lane w).effort < s.effort := by
  have hset := t.effort_setWorker lane w
  have hsame : t.effort = s.effort := by simp [effort, Queue.effort, hqueues, hworkers]
  rw [hworkers] at hset
  omega

theorem effort_handed {r : Request} {onward : Lane}
    (hw : s.worker lane = .routing r (.handOff onward)) :
    ((s.setQueue onward ((s.queue onward).extend (.payload r))).setWorker lane .idle).effort <
      s.effort := by
  have hqueue := s.effort_setQueue onward ((s.queue onward).extend (.payload r))
  have hworker := (s.setQueue onward ((s.queue onward).extend (.payload r))).effort_setWorker lane
    .idle
  rw [Queue.effort_extend] at hqueue
  rw [worker_setQueue, hw] at hworker
  simp only [Worker.effort, Message.effort] at hqueue hworker
  omega

/-- Moves of the workers take something off what there is to do; all others let the workers be. -/
theorem Transition.effort (h : Transition s more t) :
    t.effort < s.effort ∨ ∀ lane, t.worker lane = s.worker lane := by
  cases h with
  | newHeap | turnedAway | entered | refused | closing | unmarked | joined | asked | forgot
  | gaveBack => exact .inr fun lane ↦ by simp
  | accepted | marked | dismantled => exact .inr fun lane ↦ by simp
  | taken lane r ms hw hq =>
    refine .inl (effort_taken hw (Queue.effort_of_messages hq lane) ?_)
    cases hop : r.operation <;> cases lane <;>
      simp [Worker.effort, Message.effort, Request.begin, hop, Operation.effort]
  | stopped lane ms hw hq =>
    exact .inl (effort_taken hw (Queue.effort_of_messages hq lane)
      (by simp [Worker.effort, Message.effort]))
  | prepared r room heaps hp =>
    refine .inl (effort_moved (by simp) (by simp) ?_)
    rw [hp.holds]
    cases hop : r.operation <;> simp [Worker.effort, hop, Operation.effort]
  | staged lane r st a added files codecState he =>
    refine .inl (effort_moved (by simp) (by simp) ?_)
    have hop : (st.routed lane).operation = r.operation := by simp [he.resized.operation]
    obtain ⟨hserving, hcoding⟩ :=
      effort_next r.operation r.flags lane st.result.isOk (st.routed lane) hop
    rw [he.next_eq]
    have hlt : r.operation.effort lane - 1 ≤ (s.worker lane).effort lane ∨
        lane = .codec ∧ r.operation.effort lane - 2 ≤ (s.worker lane).effort lane := by
      cases he with
      | file hw | overflow hw => simp [hw, Worker.effort]
      | compress hw | decompress hw => simp [hw, Worker.effort]
    rcases hlt with hlt | ⟨hl, hlt⟩
    · omega
    · have hnext := hcoding hl
      omega
  | crashed r room hw =>
    refine .inl (effort_moved ?_ (by simp) ?_)
    · intro k
      cases k <;> simp [Queue.close]
    · rw [hw]
      cases hop : r.operation <;> simp [Worker.effort, hop, Operation.effort]
  | published lane r hw =>
    refine .inl (effort_moved (by simp) (by simp) ?_)
    simp [hw, Worker.effort]
  | handedOff lane onward r hw => exact .inl (effort_handed hw)
  | abandoned lane onward r hw | signaled lane id hw | released lane id hw =>
    refine .inl (effort_moved (by simp) (by simp) ?_)
    simp [hw, Worker.effort]
  | left lane hw =>
    refine .inl (effort_moved ?_ (by simp) ?_)
    · intro k
      by_cases hk : k = lane
      · subst hk
        simp [Queue.close]
      · simp [hk]
    · simp [hw, Worker.effort]

theorem take_worker (h : s.take lane = some t) : t.worker lane ≠ .idle := by
  unfold take at h
  split at h
  · cases h
  all_goals
    cases h
    simp

theorem serveCodec_worker (s : Service fs codec) (r : Request) :
    (s.serveCodec r).worker .codec ≠ .serving r := by
  unfold serveCodec
  split
  · simp [worker]
  · dsimp only
    split
    · simp [finish]
    · simp [worker]

theorem callCodec_worker {r : Request} {room : Option Reservation}
    (h : s.callCodec r room = some t) : t.worker .codec ≠ .coding r room := by
  unfold callCodec at h
  cases room with
  | none =>
    dsimp only at h
    split at h <;> cases h
    · simp [crash]
    · simp [finish]
  | some room =>
    dsimp only at h
    split at h <;> cases h
    · simp [crash]
    · simp [finish]

theorem route_worker {r : Request} {next : Next} (h : s.route lane r next = some t) :
    t.worker lane ≠ .routing r next := by
  unfold route at h
  cases next with
  | complete =>
    cases h
    simp
  | handOff onward =>
    dsimp only at h
    split at h
    · cases h
    all_goals
      cases h
      simp

theorem work_worker (h : s.work lane = some t) : t.worker lane ≠ s.worker lane := by
  unfold work at h
  cases hw : s.worker lane with
  | idle =>
    simp only [hw] at h
    exact take_worker h
  | serving r =>
    simp only [hw] at h
    cases lane with
    | file =>
      cases h
      simp [serveFile, finish]
    | codec =>
      cases h
      exact s.serveCodec_worker r
  | coding r room =>
    simp only [hw] at h
    cases lane with
    | file => cases h
    | codec => exact callCodec_worker h
  | routing r next =>
    simp only [hw] at h
    exact route_worker h
  | signaling id =>
    simp only [hw] at h
    cases h
    simp [signal]
  | releasing id =>
    simp only [hw] at h
    cases h
    simp [release]
  | leaving =>
    simp only [hw] at h
    cases h
    simp
  | gone => simp [hw] at h

theorem work_effort (h : s.work lane = some t) : t.effort < s.effort :=
  (work_transition lane h).effort.resolve_right fun hn ↦ work_worker h (hn lane)

theorem follow_effort {lanes : List Lane} (h : s.follow (lanes.map .work) = some (more, t)) :
    lanes.length + t.effort ≤ s.effort ∧ more.filterMap Incident.accepted? = [] := by
  induction lanes generalizing s more with
  | nil =>
    cases h
    exact ⟨Nat.le_of_eq (Nat.zero_add _), rfl⟩
  | cons lane lanes ih =>
    obtain ⟨u, hu, h⟩ := Option.bind_eq_some_iff.1 h
    obtain ⟨⟨rest, v⟩, hv, h⟩ := Option.map_eq_some_iff.1 h
    cases h
    obtain ⟨hle, hno⟩ := ih hv
    have hlt := work_effort hu
    rw [List.filterMap_append, accepted_recordWork, hno, List.length_cons]
    exact ⟨by omega, rfl⟩

section

variable {log : List Incident} {r : Request} {config : Config} {heap : HeapId} {heaps : Heaps}
  {files : fs.State} {codecState : codec.State}

theorem Run.worker_effort_le (h : Run (fresh config heap heaps files codecState) log s)
    (lane : Lane) : (s.worker lane).effort lane ≤ 9 := by
  cases hw : s.worker lane with
  | serving r | coding r =>
    have hle := r.operation.effort_le lane
    simp only [Worker.effort]
    omega
  | routing r next =>
    cases next with
    | complete => simp [Worker.effort]
    | handOff onward =>
      -- The lane onward has less to do than the lane that hands the request off.
      have hat : s.At r (.hand lane (.routing (.handOff onward))) := hw
      rcases Journey.routing (h.bearing hat).journey with ⟨-, ⟨hop, -, rfl⟩ | ⟨hop, -, rfl⟩⟩
      all_goals simp [Worker.effort, hop, Operation.effort]
  | idle | signaling | releasing | leaving | gone => simp [Worker.effort]

/-- The workers of a service that has come this far have no more moves than the model lets them. -/
theorem Run.effort_le (h : Run (fresh config heap heaps files codecState) log s) :
    s.effort ≤ s.movesLeft := by
  have hf := (s.queue .file).effort_le .file
  have hc := (s.queue .codec).effort_le .codec
  have hwf := h.worker_effort_le .file
  have hwc := h.worker_effort_le .codec
  have hmoves : s.movesLeft = 9 * ((s.queue .file).messages.length +
    (s.queue .codec).messages.length + 2) := rfl
  unfold effort
  omega

theorem moves_at_rest (n : Nat) (h : s.effort ≤ n) : ∀ lane, (s.moves n).work lane = none := by
  induction n generalizing s with
  | zero =>
    intro lane
    by_contra hn
    obtain ⟨t, ht⟩ := Option.ne_none_iff_exists'.1 hn
    have hlt := work_effort (s := s) ht
    omega
  | succ n ih =>
    unfold moves
    cases hf : s.work .file with
    | some t =>
      have hlt := work_effort hf
      exact ih (by omega)
    | none =>
      cases hc : s.work .codec with
      | some t =>
        have hlt := work_effort hc
        exact ih (by omega)
      | none =>
        intro lane
        cases lane
        · exact hf
        · exact hc

/-- Letting the workers settle does bring them to rest. -/
theorem Run.settle_at_rest (h : Run (fresh config heap heaps files codecState) log s) (lane : Lane) :
    s.settle.work lane = none :=
  moves_at_rest _ h.effort_le lane

theorem inFlight_append_le (hno : more.filterMap Incident.accepted? = []) :
    (inFlight (log ++ more)).length ≤ (inFlight log).length := by
  have hsame : (log ++ more).filterMap Incident.accepted? = log.filterMap Incident.accepted? := by
    rw [List.filterMap_append, hno, List.append_nil]
  unfold inFlight unfinished
  rw [hsame]
  refine ((List.monotone_filter_right _ ?_).filter _).length_le
  intro r hr
  simp only [List.filterMap_append, ids_append, List.mem_append, not_or, decide_eq_true_eq] at hr ⊢
  exact ⟨hr.1.1, hr.2.1⟩

/-- As long as a caller pushes, both workers are there. -/
theorem Run.open_of_entering (h : Run (fresh config heap heaps files codecState) log s)
    (hc : codec.Returns) (hr : r ∈ s.entering) (lane : Lane) : (s.queue lane).isOpen = true := by
  by_contra hn
  have hg := (h.census.staffed lane).2 (Bool.eq_false_iff.2 hn)
  have hst : (s.worker lane).stopping = 1 := by simp [hg, Worker.stopping]
  have hmarked := ((h.protocol hc).marked_of_stopping hst).1
  have hopening : s.closing = .notYet := by
    by_contra hclosing
    simp [h.orderly.callers hclosing] at hr
  simp [hopening, Closing.marked] at hmarked

theorem Run.none_refused (h : Run (fresh config heap heaps files codecState) log s)
    (hc : codec.Returns) : .refused r ∉ log := by
  intro hr
  obtain ⟨pre, more, rest, u, v, hu, ht, -, -, -, hm⟩ := h.split hr
  cases ht with
  | refused q hq ho =>
    rw [hu.open_of_entering hc hq] at ho
    cases ho
  | _ => simp at hm

/-- An order that got a number is still being pushed, or has been accepted. -/
theorem Run.pushed (h : Run (fresh config heap heaps files codecState) log s) (hc : codec.Returns)
    {id : Nat} {o : Order} (ho : .entered id o ∈ log) :
    ∃ q, q.id = id ∧ q.operation = o.operation ∧ (q ∈ s.entering ∨ .accepted q ∈ log) := by
  have hent : 0 < (log.filterMap Incident.entered?).count id :=
    List.count_pos_iff.2 (List.mem_filterMap.2 ⟨_, ho, rfl⟩)
  have href : (ids (log.filterMap Incident.refused?)).count id = 0 := by
    rw [List.count_eq_zero]
    intro hid
    obtain ⟨q, -, hq⟩ := mem_refused.1 hid
    exact h.none_refused hc hq
  have hcount := h.census.callers id
  have hcases : id ∈ ids s.entering ∨ id ∈ ids (log.filterMap Incident.accepted?) := by
    simp only [← List.count_pos_iff]
    omega
  rcases hcases with hid | hid
  · obtain ⟨q, hq, rfl⟩ := List.mem_map.1 hid
    have hat : s.At q .caller := hq
    exact ⟨q, rfl, (h.carries hat ho).operation, .inl hq⟩
  · obtain ⟨q, rfl, hq⟩ := mem_accepted.1 hid
    have hcarries := h.shown_carries hq (List.mem_singleton_self q) ho
    exact ⟨q, rfl, hcarries.operation, .inr hq⟩

/-- Once neither worker has a move left, whatever is accepted and not lost is complete. -/
theorem Run.complete_at_rest (h : Run (fresh config heap heaps files codecState) log s)
    (hc : codec.Returns)
    (hrule : (inFlight log).length ≤ max config.queueCapacity.toNat 1 + 1)
    (hrest : ∀ lane, s.work lane = none) (hr : .accepted r ∈ log)
    (hd : r.id ∉ ids (log.filterMap Incident.dropped?)) : .signaled r.id ∈ log := by
  by_contra hn
  obtain ⟨lane, hl⟩ := h.enabled hc hrule hr hn hd
  simp [hrest lane] at hl

theorem Run.none_blocked (h : Run (fresh config heap heaps files codecState) log s)
    (hc : codec.Returns)
    (hrule : (inFlight log).length ≤ max config.queueCapacity.toNat 1 + 1)
    (hrest : ∀ lane, s.work lane = none) (lane : Lane) : ¬ s.Blocked lane := by
  intro hb
  refine h.not_both_blocked hc hrule ?_
  cases lane with
  | file => exact ⟨hb, h.blocked_of_blocked hc hb (by decide) (hrest .codec)⟩
  | codec => exact ⟨h.blocked_of_blocked hc hb (by decide) (hrest .file), hb⟩

theorem Run.push_taken (h : Run (fresh config heap heaps files codecState) log s)
    (hr : r ∈ s.entering) (ho : (s.queue (entryLane r.operation r.flags)).isOpen = true)
    (hroom : (s.queue (entryLane r.operation r.flags)).messages.length <
      (s.queue (entryLane r.operation r.flags)).capacity) :
    ∃ t, s.push r.id = some (.ok (), t) := by
  refine ⟨({ s with entering := s.entering.filter fun q ↦ q.id ≠ r.id } : Service fs codec).setQueue
    (entryLane r.operation r.flags)
    ((s.queue (entryLane r.operation r.flags)).extend (.payload r)), ?_⟩
  simp only [push, h.census.find_entering hr, Queue.offer_of_room ho hroom]

theorem Run.admitted (h : Run (fresh config heap heaps files codecState) log s)
    (hc : codec.Returns)
    (hrule : (inFlight log).length ≤ max config.queueCapacity.toNat 1 + 1)
    (hrest : ∀ lane, s.work lane = none) (hr : r ∈ s.entering) :
    ∃ t, s.push r.id = some (.ok (), t) := by
  have hopen := h.open_of_entering hc hr
  have hempty : ∀ lane, (s.queue lane).messages = [] := by
    intro lane
    rcases work_eq_none hc (hrest lane) with ⟨-, hq⟩ | ⟨q, room, hq, rfl⟩ | hb | hg
    · exact hq
    · have hat : s.At q (.hand .file (.coding room)) := hq
      exact absurd (Journey.coding (h.bearing hat).journey).1 (by decide)
    · exact absurd hb (h.none_blocked hc hrule hrest lane)
    · have hclosed := (h.census.staffed lane).1 hg
      rw [hopen] at hclosed
      cases hclosed
  refine h.push_taken hr (hopen _) ?_
  rw [hempty, h.capacity, List.length_nil]
  omega

/-- An order that got a number goes on to its end. Whichever way the workers take turns, they come to
rest; under the capacity rule it is complete by then, or its push gets in, unless it was lost. -/
theorem Run.goes_on (h : Run (fresh config heap heaps files codecState) log s) (hc : codec.Returns)
    (hrule : (inFlight log).length ≤ max config.queueCapacity.toNat 1 + 1) {id : Nat} {o : Order}
    (ho : .entered id o ∈ log) {lanes : List Lane}
    (hmoves : s.follow (lanes.map .work) = some (more, t)) :
    lanes.length ≤ s.movesLeft ∧ ((∀ lane, t.work lane = none) →
      (∃ u, t.push id = some (.ok (), u)) ∨ (∃ q, q.id = id ∧ .dropped q ∈ log ++ more) ∨
        .signaled id ∈ log ++ more) := by
  obtain ⟨hle, hno⟩ := follow_effort hmoves
  have heffort := h.effort_le
  refine ⟨by omega, fun hrest ↦ ?_⟩
  have ht := h.trans (.of_follow hmoves)
  have hrule' := Nat.le_trans (inFlight_append_le hno) hrule
  obtain ⟨q, rfl, -, hentering | haccepted⟩ := ht.pushed hc (List.mem_append_left more ho)
  · exact .inl (ht.admitted hc hrule' hrest hentering)
  · by_cases hd : q.id ∈ ids ((log ++ more).filterMap Incident.dropped?)
    · exact .inr (.inl (mem_dropped.1 hd))
    · exact .inr (.inr (ht.complete_at_rest hc hrule' hrest haccepted hd))

/-- Reads are never lost. -/
theorem Run.read_goes_on (h : Run (fresh config heap heaps files codecState) log s)
    (hc : codec.Returns)
    (hrule : (inFlight log).length ≤ max config.queueCapacity.toNat 1 + 1) {id : Nat} {o : Order}
    (ho : .entered id o ∈ log) (hop : o.operation = .read) {lanes : List Lane}
    (hmoves : s.follow (lanes.map .work) = some (more, t)) :
    lanes.length ≤ s.movesLeft ∧ ((∀ lane, t.work lane = none) →
      (∃ u, t.push id = some (.ok (), u)) ∨ .signaled id ∈ log ++ more) := by
  obtain ⟨hle, hends⟩ := h.goes_on hc hrule ho hmoves
  refine ⟨hle, fun hrest ↦ ?_⟩
  rcases hends hrest with hpush | ⟨q, rfl, hq⟩ | hsignaled
  · exact .inl hpush
  · have ht := h.trans (.of_follow hmoves)
    have hcarries := ht.shown_carries hq (List.mem_singleton_self q) (List.mem_append_left more ho)
    cases hop.symm.trans (hcarries.operation.symm.trans (ht.dropped_late hc hq).1)
  · exact .inr hsignaled

end

end Service

end QueuedFiles
