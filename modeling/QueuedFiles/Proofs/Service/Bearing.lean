import QueuedFiles.Proofs.Service.Journey

/-!
The log of a request is the journey to its post, leg by leg, under every schedule.
-/

namespace QueuedFiles

theorem entryLane_eq (op : Operation) (flags : Flags) :
    entryLane op flags = if op = .write ∧ flags.contains .useCompression then .codec else .file := by
  cases op <;> simp [entryLane]

/-- The progress that a request shows at a post. -/
def Post.progress (r : Request) : Post → Progress
  | .caller => .queued (entryLane r.operation r.flags)
  | .queue lane => .queued lane
  | .hand lane .serving | .hand lane (.coding _) | .hand lane (.routing .complete) =>
    .processing lane
  | .hand _ (.routing (.handOff onward)) => .queued onward

namespace Service

variable {fs : FileSystem} {codec : Codec} {s t : Service fs codec} {log more : List Incident}
  {q r : Request} {p p₀ : Post} {lane : Lane} {staged : Staged} {a : Telemetry.Activity}
  {added : Option Telemetry.Addition} {files : fs.State} {codecState : codec.State}

theorem StageEnd.next_eq (h : s.StageEnd lane r staged a added files codecState) :
    staged.next lane = nextAfter r.operation r.flags lane staged.result.isOk := by
  rw [Staged.next, h.resized.operation, h.resized.flags]

theorem StageEnd.not_routing (h : s.StageEnd lane r staged a added files codecState) {next : Next}
    (hq : s.At q (.hand lane (.routing next))) : False := by
  rcases h.holds with hw | ⟨room, hw⟩
  all_goals cases hw.symm.trans hq

theorem Prepared.room {room : Option Reservation} {heaps : Heaps} (h : s.Prepared r room heaps) :
    r.operation = .write ∧ room = none ∨ r.operation = .read ∧ ∃ reserved, room = some reserved := by
  cases h with
  | write _ ho => exact .inl ⟨ho, rfl⟩
  | read _ ho => exact .inr ⟨ho, _, rfl⟩

@[simp] theorem legs_nil (id : Nat) : legs id [] = [] := rfl

@[simp] theorem legs_self (r : Request) :
    legs r.id [.accepted r] = [.accepted] ∧ (∀ lane, legs r.id [.taken lane r] = [.taken lane]) ∧
    (∀ lane after result,
      legs r.id [.staged lane r after result] = [.staged lane result.isOk]) ∧
    ∀ lane, legs r.id [.handedOff lane r] = [.handedOff lane] := by
  simp [legs, Incident.leg?]

theorem Flow.plain {l : List Leg} (h : Flow s t more q p₀ r p) (hq : s.At q p₀)
    (hc : q.isCompressed = false) (hj : PlainJourney l p₀) :
    PlainJourney (l ++ legs q.id more) p := by
  have hf : q.flags.contains .useCompression = false := hc
  cases h with
  | accepted =>
    cases hj
    simpa [entryLane_eq, hf] using PlainJourney.queued
  | taken lane =>
    cases hj
    simpa using PlainJourney.serving
  | prepared => cases hj
  | staged task hs =>
    cases hj with
    | serving =>
      have hn := hs.next_eq
      cases ho : q.operation <;>
        simpa [hn, ho, hf, nextAfter] using PlainJourney.served _
    | served => exact (hs.not_routing hq).elim
  | handedOff => cases hj

theorem Flow.write {l : List Leg} (h : Flow s t more q p₀ r p) (hq : s.At q p₀)
    (ho : q.operation = .write) (hc : q.isCompressed = true) (hj : WriteJourney l p₀) :
    WriteJourney (l ++ legs q.id more) p := by
  have hf : q.flags.contains .useCompression = true := hc
  cases h with
  | accepted =>
    cases hj
    simpa [entryLane_eq, ho, hf] using WriteJourney.queued
  | taken lane =>
    cases hj with
    | queued => simpa using WriteJourney.compressing
    | requeued ok => simpa using WriteJourney.serving ok
  | prepared hp =>
    cases hj
    rcases hp.room with ⟨-, rfl⟩ | ⟨hr, -⟩
    · simpa using WriteJourney.coding
    · cases ho.symm.trans hr
  | staged task hs =>
    have hn := hs.next_eq
    cases hj with
    | compressing | coding => simpa [hn, ho, nextAfter] using WriteJourney.compressed _
    | serving ok => simpa [hn, ho, nextAfter] using WriteJourney.served ok _
    | compressed | served => exact (hs.not_routing hq).elim
  | handedOff =>
    cases hj with
    | compressed ok => simpa using WriteJourney.requeued ok

theorem Flow.read {l : List Leg} (h : Flow s t more q p₀ r p) (hq : s.At q p₀)
    (ho : q.operation = .read) (hc : q.isCompressed = true) (hj : ReadJourney l p₀) :
    ReadJourney (l ++ legs q.id more) p := by
  have hf : q.flags.contains .useCompression = true := hc
  cases h with
  | accepted =>
    cases hj
    simpa [entryLane_eq, ho] using ReadJourney.queued
  | taken lane =>
    cases hj with
    | queued => simpa using ReadJourney.serving
    | requeued => simpa using ReadJourney.decompressing
  | prepared hp =>
    cases hj
    rcases hp.room with ⟨hw, -⟩ | ⟨-, reserved, rfl⟩
    · cases ho.symm.trans hw
    · simpa using ReadJourney.coding reserved
  | @staged _ _ st _ _ _ _ task hs =>
    have hn := hs.next_eq
    cases hj with
    | serving =>
      cases hok : st.result.isOk with
      | false => simpa [hn, ho, hf, hok, nextAfter] using ReadJourney.failed
      | true => simpa [hn, ho, hf, hok, nextAfter] using ReadJourney.served
    | decompressing | coding => simpa [hn, ho, nextAfter] using ReadJourney.decompressed _
    | failed | served | decompressed => exact (hs.not_routing hq).elim
  | handedOff =>
    cases hj with
    | served => simpa using ReadJourney.requeued

/-- A flow lengthens the journey by the legs that it logs. -/
theorem Flow.journey {l : List Leg} (h : Flow s t more q p₀ r p) (hq : s.At q p₀)
    (hj : Journey q.operation q.isCompressed l p₀) :
    Journey q.operation q.isCompressed (l ++ legs q.id more) p := by
  cases hc : q.isCompressed with
  | false =>
    rw [hc] at hj
    exact h.plain hq hc hj
  | true =>
    rw [hc] at hj
    cases ho : q.operation with
    | read =>
      rw [ho] at hj
      exact h.read hq ho hc hj
    | write =>
      rw [ho] at hj
      exact h.write hq ho hc hj

theorem Transition.leg_at (h : Transition s more t) (hs : s.Staffed) {i : Incident} {id : Nat}
    {leg : Leg} (hi : i ∈ more) (hl : i.leg? id = some leg) : ∃ q p, s.At q p ∧ q.id = id := by
  cases h with
  | newHeap | turnedAway | closing | unmarked | joined | asked | forgot | gaveBack | prepared =>
    cases hi
  | entered | refused | published | signaled | released | abandoned | stopped | marked =>
    obtain rfl := List.mem_singleton.1 hi
    simp [Incident.leg?] at hl
  | accepted q lane hq =>
    obtain rfl := List.mem_singleton.1 hi
    exact ⟨q, .caller, hq, by_contra fun hn ↦ by simp [Incident.leg?, hn] at hl⟩
  | taken lane q ms hw hq =>
    obtain rfl := List.mem_singleton.1 hi
    have ho : (s.queue lane).isOpen = true := by simpa [hw] using hs lane
    have hq' : s.At q (.queue lane) := by
      simp [At, waiting_of_open ho, Queue.payloads_of_messages hq, Message.payload?]
    exact ⟨q, _, hq', by_contra fun hn ↦ by simp [Incident.leg?, hn] at hl⟩
  | staged lane q st a added files codecState he =>
    obtain rfl := List.mem_singleton.1 hi
    obtain ⟨task, hw⟩ := he.task
    exact ⟨q, .hand lane task, hw, by_contra fun hn ↦ by simp [Incident.leg?, hn] at hl⟩
  | handedOff lane onward q hw =>
    obtain rfl := List.mem_singleton.1 hi
    exact ⟨q, .hand lane (.routing (.handOff onward)), hw,
      by_contra fun hn ↦ by simp [Incident.leg?, hn] at hl⟩
  | left | dismantled =>
    obtain ⟨q, -, rfl⟩ := List.mem_map.1 hi
    simp [Incident.leg?] at hl
  | crashed =>
    rcases List.mem_cons.1 hi with rfl | hi
    · simp [Incident.leg?] at hl
    · obtain ⟨q, -, rfl⟩ := List.mem_map.1 hi
      simp [Incident.leg?] at hl

theorem Transition.legs_eq_nil (h : Transition s more t) (hs : s.Staffed) {id : Nat}
    (hn : ∀ q p, s.At q p → q.id ≠ id) : legs id more = [] := by
  rw [legs, List.filterMap_eq_nil_iff]
  intro i hi
  cases hl : i.leg? id with
  | none => rfl
  | some leg =>
    obtain ⟨q, p, hq, hid⟩ := h.leg_at hs hi hl
    exact absurd hid (hn q p hq)

theorem Transition.frame (h : Transition s more t) : t.config = s.config ∧ t.heap = s.heap := by
  cases h <;> simp

variable {config : Config} {heap : HeapId} {heaps : Heaps}

theorem Run.frame (h : Run (fresh config heap heaps files codecState) log s) :
    s.config = config ∧ s.heap = heap := by
  refine h.invariant (P := fun _ s ↦ s.config = config ∧ s.heap = heap) ⟨rfl, rfl⟩ ?_
  rintro log more s t ⟨rfl, rfl⟩ ht
  exact ht.frame

theorem Run.unborn (h : Run (fresh config heap heaps files codecState) log s) {id : Nat}
    (hid : s.nextId ≤ id) : legs id log = [] := by
  induction h with
  | refl => rfl
  | @step log s t m h hs ih =>
    have ht := step_transition m hs
    have hle := ht.numbered.2
    have hn : ∀ q p, s.At q p → q.id ≠ id := by
      intro q p hq
      have := h.census.id_lt hq
      omega
    rw [legs_append, ih (by omega), ht.legs_eq_nil h.census.staffed hn, List.nil_append]

theorem Run.over {u : Service fs codec} {rest : List Incident} {id : Nat}
    (h : Run (fresh config heap heaps files codecState) log u) (hr : Run u rest s)
    (hid : id ∈ log.filterMap Incident.published? ∨ id ∈ ids (log.filterMap Incident.dropped?)) :
    legs id rest = [] := by
  induction hr with
  | refl => rfl
  | @step rest v w m hr hs ih =>
    have hv := (h.trans hr).census
    have hn : ∀ q p, v.At q p → q.id ≠ id := by
      rintro q p hq rfl
      have ho := hv.over hq
      simp only [List.filterMap_append, ids_append, List.mem_append, not_or] at ho
      exact hid.elim ho.1.1 ho.2.1
    rw [legs_append, ih, (step_transition m hs).legs_eq_nil hv.staffed hn, List.nil_append]

/-- The request made of an order, however far it is. -/
structure Carries (config : Config) (heap : HeapId) (o : Order) (r : Request) : Prop where
  operation : r.operation = o.operation
  flags : r.flags = o.flags
  path : Path.ofText o.path config.maxPathLength.toNat = .ok r.path
  heap : r.heap = o.heap heap

theorem Carries.path_eq {o : Order} (h : Carries config heap o r) : r.path = ⟨o.path⟩ := by
  have hp := h.path
  unfold Path.ofText at hp
  split at hp
  · cases hp
  · exact (Except.ok.inj hp).symm

/-- What every request at a post has: an order behind it, a journey, and the progress to show. -/
structure Bearing (config : Config) (heap : HeapId) (log : List Incident) (r : Request) (p : Post) :
    Prop where
  order : ∃ o, .entered r.id o ∈ log ∧ Carries config heap o r
  journey : Journey r.operation r.isCompressed (legs r.id log) p
  progress : r.progress = p.progress r

theorem Flow.frame (h : Flow s t more q p₀ r p) :
    r.id = q.id ∧ r.operation = q.operation ∧ r.path = q.path ∧ r.flags = q.flags ∧
      r.heap = q.heap := by
  cases h with
  | accepted | prepared | handedOff => exact ⟨rfl, rfl, rfl, rfl, rfl⟩
  | taken => exact ⟨rfl, rfl, rfl, rfl, rfl⟩
  | staged task hs =>
    have hr := hs.resized
    simp [hr.id, hr.operation, hr.path, hr.flags, hr.heap]

theorem Flow.progress (h : Flow s t more q p₀ r p) (hq : s.At q p₀)
    (hp : q.progress = p₀.progress q) : r.progress = p.progress r := by
  cases h with
  | accepted | prepared | handedOff => exact hp
  | taken => simp [Request.begin, hp, Post.progress, Progress.begin?]
  | @staged lane _ st _ _ _ _ task hs =>
    have hb : st.request.progress = .processing lane := by
      rw [hs.resized.progress, hp]
      cases task with
      | serving | coding => rfl
      | routing => exact (hs.not_routing hq).elim
    cases hn : st.next lane with
    | complete => simp [Staged.routed, hn, Post.progress, hb]
    | handOff onward =>
      simp only [Staged.routed, hn, Post.progress, Request.handedOff, Staged.settled_frame, hb,
        Progress.settle?]
      split <;> rfl

theorem Run.bearing (h : Run (fresh config heap heaps files codecState) log s) (hr : s.At r p) :
    Bearing config heap log r p := by
  refine h.along (P := Bearing config heap) ?_ ?_ ?_ hr
  · intro log more s t r h ht ha
    obtain ⟨rfl, rfl⟩ := h.frame
    cases ha with
    | entered o path hp =>
      refine ⟨⟨o, ?_, ?_⟩, ?_, ?_⟩
      · simp [Order.request]
      · exact ⟨rfl, rfl, hp, rfl⟩
      · have hn : legs s.nextId (log ++ [.entered s.nextId o]) = [] := by
          rw [legs_append, h.unborn (Nat.le_refl _)]
          rfl
        simpa only [Order.request, hn] using Journey.entered _ _
      · rfl
  · intro log more s t r p h ht hb hm
    obtain ⟨o, ho, hc⟩ := hb.order
    refine ⟨⟨o, List.mem_append_left _ ho, hc⟩, ?_, hb.progress⟩
    rw [legs_append, legs_of_quiet hm, List.append_nil]
    exact hb.journey
  · intro log more s t q p₀ r p h ht hq hb hf
    obtain ⟨hid, hop, hpath, hflags, hheap⟩ := hf.frame
    obtain ⟨o, ho, hc⟩ := hb.order
    refine ⟨⟨o, ?_, ?_⟩, ?_, hf.progress hq hb.progress⟩
    · rw [hid]
      exact List.mem_append_left _ ho
    · exact ⟨hop.trans hc.operation, hflags.trans hc.flags, hpath ▸ hc.path, hheap.trans hc.heap⟩
    · have hcomp : r.isCompressed = q.isCompressed := by rw [Request.isCompressed, hflags]; rfl
      rw [hid, hop, hcomp, legs_append]
      exact hf.journey hq hb.journey

/-- The codec worker compresses writes and decompresses reads: it has room reserved for the latter
only. -/
theorem Run.compressing (h : Run (fresh config heap heaps files codecState) log s)
    (hw : s.worker .codec = .coding r none) : r.operation = .write ∧ r.isCompressed = true := by
  have hat : s.At r (.hand .codec (.coding none)) := hw
  obtain ⟨-, hcomp, ⟨hop, -⟩ | ⟨-, room, hroom⟩⟩ := Journey.coding (h.bearing hat).journey
  · exact ⟨hop, hcomp⟩
  · cases hroom

theorem Run.decompressing (h : Run (fresh config heap heaps files codecState) log s)
    {room : Reservation} (hw : s.worker .codec = .coding r (some room)) :
    r.operation = .read ∧ r.isCompressed = true := by
  have hat : s.At r (.hand .codec (.coding (some room))) := hw
  obtain ⟨-, hcomp, ⟨-, hroom⟩ | ⟨hop, -⟩⟩ := Journey.coding (h.bearing hat).journey
  · cases hroom
  · exact ⟨hop, hcomp⟩

/-- The room of a call is what the bound of decompressed payloads asks for. -/
theorem Run.reserved (h : Run (fresh config heap heaps files codecState) log s) {room : Reservation}
    (hr : s.At r (.hand lane (.coding (some room)))) :
    CodecStage.capacity? config.maxDecompressedSize.toNat = some room.length := by
  refine h.along (P := fun _ _ p ↦ ∀ lane room, p = .hand lane (.coding (some room)) →
    CodecStage.capacity? config.maxDecompressedSize.toNat = some room.length) ?_ ?_ ?_ hr lane room rfl
  · intro log more s t r h ht ha lane room hp
    cases hp
  · intro log more s t r p h ht hd hm
    exact hd
  · intro log more s t q p₀ r p h ht hq hd hf lane room hp
    cases hf with
    | prepared hprep =>
      cases hp
      cases hprep with
      | read hw ho hc => rwa [h.frame.1] at hc
    | _ => cases hp

end Service

end QueuedFiles
