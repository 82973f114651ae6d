import QueuedFiles.Proofs.Service.Conservation
import Mathlib.Data.List.Perm.Subperm

/-!
When the two workers can wait for each other. Only compressed requests are handed on and only they
wait in the codec queue, so a deadlock needs one in each worker's hands and a codec queue full of
them.
-/

namespace QueuedFiles

/-- The requests that have been accepted and are neither finished nor dropped. -/
def unfinished (log : List Incident) : List Request :=
  (log.filterMap Incident.accepted?).filter fun r ↦
    r.id ∉ log.filterMap Incident.published? ∧ r.id ∉ ids (log.filterMap Incident.dropped?)

/-- The compressed ones among them. -/
def inFlight (log : List Incident) : List Request := (unfinished log).filter (·.isCompressed)

namespace Service

variable {fs : FileSystem} {codec : Codec} {s t : Service fs codec} {log more : List Incident}
  {r q : Request} {p : Post} {lane : Lane} {config : Config} {heap : HeapId} {heaps : Heaps}
  {files : fs.State} {codecState : codec.State}

/-- A worker waits for room in the queue that it hands a request on to. -/
def Blocked (s : Service fs codec) (lane : Lane) : Prop :=
  ∃ r onward, s.worker lane = .routing r (.handOff onward) ∧
    (s.queue onward).offer (.payload r) = .full

/-- A worker without a move has nothing to do, waits for room, or is gone. -/
theorem work_eq_none (hc : codec.Returns) (h : s.work lane = none) :
    s.worker lane = .idle ∧ (s.queue lane).messages = [] ∨
    (∃ r room, s.worker lane = .coding r room ∧ lane = .file) ∨ s.Blocked lane ∨
      s.worker lane = .gone := by
  unfold work at h
  cases hw : s.worker lane with
  | idle =>
    refine .inl ⟨rfl, ?_⟩
    simp only [hw, take, Queue.take?] at h
    cases hq : (s.queue lane).messages with
    | nil => rfl
    | cons m ms => cases m <;> simp [hq] at h
  | serving r => cases lane <;> simp [hw] at h
  | coding r room =>
    cases lane with
    | file => exact .inr (.inl ⟨r, room, rfl, rfl⟩)
    | codec =>
      simp only [hw, callCodec] at h
      cases room with
      | none =>
        obtain ⟨a, u, ha⟩ := hc.1 s.codecState r.payload
        simp [ha] at h
      | some room =>
        obtain ⟨a, u, ha⟩ := hc.2 s.codecState r.payload s.config.maxDecompressedSize.toNat
        simp [ha] at h
  | routing r next =>
    simp only [hw, route] at h
    cases next with
    | complete => simp at h
    | handOff onward =>
      refine .inr (.inr (.inl ⟨r, onward, hw, ?_⟩))
      cases ho : (s.queue onward).offer (.payload r) with
      | full => rfl
      | taken q => simp [ho] at h
      | closed => simp [ho] at h
  | signaling id => simp [hw] at h
  | releasing id => simp [hw] at h
  | leaving => simp [hw] at h
  | gone => exact .inr (.inr (.inr rfl))

theorem waiting_of_nil (h : (s.queue lane).messages = []) : s.waiting lane = [] := by
  simp [waiting, Queue.payloads, h]

theorem Staffed.waiting_of_gone (hs : s.Staffed) (h : s.worker lane = .gone) :
    s.waiting lane = [] := by
  simp [waiting, (hs lane).1 h]

theorem Run.blocked_of_at (h : Run (fresh config heap heaps files codecState) log s)
    (hc : codec.Returns) (hr : s.At r p) (hp : p.lane? = some lane) (hw : s.work lane = none) :
    s.Blocked lane := by
  have hcase := work_eq_none hc hw
  cases p with
  | caller => cases hp
  | queue k =>
    cases hp
    have hr' : r ∈ s.waiting lane := hr
    rcases hcase with ⟨-, hq⟩ | ⟨q, room, hq, rfl⟩ | hb | hg
    · simp [waiting_of_nil hq] at hr'
    · exact absurd (Journey.coding (h.bearing (p := .hand .file (.coding room)) hq).journey).1
        (by decide)
    · exact hb
    · simp [h.census.staffed.waiting_of_gone hg] at hr'
  | hand k task =>
    cases hp
    have hr' : s.worker lane = task.worker r := hr
    rcases hcase with ⟨hi, -⟩ | ⟨q, room, hq, rfl⟩ | hb | hg
    · cases task <;> cases hr'.symm.trans hi
    · exact absurd (Journey.coding (h.bearing (p := .hand .file (.coding room)) hq).journey).1
        (by decide)
    · exact hb
    · cases task <;> cases hr'.symm.trans hg

theorem Transition.capacity (h : Transition s more t) (k : Lane) :
    (t.queue k).capacity = (s.queue k).capacity := by
  cases h with
  | accepted r lane | taken lane | stopped lane | left lane | marked lane =>
    by_cases hk : k = lane
    · subst hk
      simp [Queue.close]
    · simp [hk]
  | handedOff lane onward =>
    by_cases hk : k = onward
    · subst hk
      simp
    · simp [hk]
  | crashed => cases k <;> simp [Queue.close]
  | dismantled => cases k <;> rfl
  | _ => simp

theorem Run.capacity (h : Run (fresh config heap heaps files codecState) log s) (k : Lane) :
    (s.queue k).capacity = max config.queueCapacity.toNat 1 := by
  induction h with
  | refl => cases k <;> rfl
  | step m _ hs ih => rw [(step_transition m hs).capacity, ih]

theorem Run.onward_of_blocked (h : Run (fresh config heap heaps files codecState) log s)
    (hb : s.Blocked lane) :
    ∃ r onward, s.At r (.hand lane (.routing (.handOff onward))) ∧ onward ≠ lane ∧
      r.isCompressed = true ∧ (s.queue onward).isOpen = true ∧
      max config.queueCapacity.toNat 1 ≤ (s.queue onward).messages.length := by
  obtain ⟨r, onward, hw, ho⟩ := hb
  have hat : s.At r (.hand lane (.routing (.handOff onward))) := hw
  obtain ⟨hcomp, hl⟩ := Journey.routing (h.bearing hat).journey
  obtain ⟨hopen, hfull⟩ := Queue.offer_eq_full ho
  refine ⟨r, onward, hat, ?_, hcomp, hopen, h.capacity onward ▸ hfull⟩
  rcases hl with ⟨-, rfl, rfl⟩ | ⟨-, rfl, rfl⟩ <;> decide

/-- A worker whose hand-off waits has the other one wait for it, or that one has a move. -/
theorem Run.blocked_of_blocked (h : Run (fresh config heap heaps files codecState) log s)
    (hc : codec.Returns) {k : Lane} (hb : s.Blocked lane) (hk : k ≠ lane)
    (hw : s.work k = none) : s.Blocked k := by
  obtain ⟨r, onward, -, hne, -, hopen, hfull⟩ := h.onward_of_blocked hb
  obtain rfl : onward = k := by cases onward <;> cases k <;> cases lane <;> simp_all
  rcases work_eq_none hc hw with ⟨-, hq⟩ | ⟨q, room, hq, rfl⟩ | hb | hg
  · simp only [hq, List.length_nil] at hfull
    omega
  · exact absurd (Journey.coding (h.bearing (p := .hand .file (.coding room)) hq).journey).1
      (by decide)
  · exact hb
  · rw [(h.census.staffed onward).1 hg] at hopen
    cases hopen

theorem mem_unfinished {log : List Incident} {r : Request} :
    r ∈ unfinished log ↔ .accepted r ∈ log ∧ r.id ∉ log.filterMap Incident.published? ∧
      r.id ∉ ids (log.filterMap Incident.dropped?) := by
  have ha : r ∈ log.filterMap Incident.accepted? ↔ .accepted r ∈ log := by
    rw [List.mem_filterMap]
    constructor
    · rintro ⟨i, hi, hid⟩
      cases i <;> simp only [Incident.accepted?, reduceCtorEq, Option.some.injEq] at hid
      subst hid
      exact hi
    · exact fun hr ↦ ⟨_, hr, rfl⟩
  rw [unfinished, List.mem_filter, ha]
  simp

theorem Run.inFlight_of_at (h : Run (fresh config heap heaps files codecState) log s)
    (hr : s.At r p) (hp : p.lane? = some lane) (hcomp : r.isCompressed = true) :
    r.id ∈ ids (inFlight log) := by
  obtain ⟨q, he, hq⟩ :=
    mem_accepted.1 (List.count_pos_iff.1 (h.census.accepted_of_held (hr.held_pos hp)))
  have hsame := (h.same_order hq (h.bearing hr) he.symm).2
  have hover := h.census.over hr
  rw [← he] at hover ⊢
  refine List.mem_map_of_mem (List.mem_filter.2 ⟨mem_unfinished.2 ⟨hq, hover⟩, ?_⟩)
  exact hsame ▸ hcomp

theorem Run.codec_payloads (h : Run (fresh config heap heaps files codecState) log s)
    (hc : codec.Returns) (hw : s.worker .file ≠ .gone) :
    (s.queue .codec).payloads.length = (s.queue .codec).messages.length := by
  have hp := h.protocol hc
  have hj : s.closing.joined .file = false := hp.not_joined hw
  have hm : s.closing.marked .codec = false := by
    cases hcl : s.closing <;> simp_all [Closing.joined, Closing.marked]
  have hs := hp.stops .codec
  simp only [stops, hm, Bool.toNat_false] at hs
  have hz : (s.queue .codec).markers = 0 := by omega
  have hnone : ∀ m ∈ (s.queue .codec).messages, ¬ m.isShutdown = true := List.countP_eq_zero.1 hz
  rw [Queue.payloads, List.length_filterMap_eq_countP, List.countP_eq_length]
  intro m hm
  cases m with
  | payload r => rfl
  | shutdown => exact absurd rfl (hnone _ hm)

/-- If each worker waits for the other, more is in flight than the codec queue has room for. -/
theorem Run.lt_inFlight (h : Run (fresh config heap heaps files codecState) log s)
    (hc : codec.Returns) (hf : s.Blocked .file) (hb : s.Blocked .codec) :
    max config.queueCapacity.toNat 1 + 2 ≤ (inFlight log).length := by
  obtain ⟨r, onward, hr, hne, hrc, hopen, hfull⟩ := h.onward_of_blocked hf
  obtain ⟨q, onward', hq, -, hqc, -, -⟩ := h.onward_of_blocked hb
  obtain rfl : onward = .codec := by cases onward <;> simp_all
  have hng : s.worker .file ≠ .gone := by
    intro hg
    cases hg.symm.trans hr
  have hlen : (s.waiting .codec).length = (s.queue .codec).messages.length := by
    rw [waiting_of_open hopen, h.codec_payloads hc hng]
  let all := r.id :: q.id :: ids (s.waiting .codec)
  have hnodup : all.Nodup := by
    rw [List.nodup_iff_count_le_one]
    intro k
    have hle := h.census.accepted_le_one k
    have hpl := h.census.places k
    have hrw : s.worker .file = .routing r (.handOff .codec) := hr
    have hqw : (s.worker .codec).requests = [q] := by
      rw [show s.worker .codec = _ from hq, Task.requests_worker]
    simp only [held, hrw, hqw, Worker.requests_eq, ids_cons, ids_nil, List.count_cons,
      List.count_nil] at hpl
    simp only [all, List.count_cons]
    omega
  have hsub : all ⊆ ids (inFlight log) := by
    intro k hk
    simp only [all, List.mem_cons] at hk
    rcases hk with rfl | rfl | hk
    · exact h.inFlight_of_at hr rfl hrc
    · exact h.inFlight_of_at hq rfl hqc
    · obtain ⟨x, hx, rfl⟩ := List.mem_map.1 hk
      have hx' : s.At x (.queue .codec) := hx
      exact h.inFlight_of_at hx' rfl (Journey.codec_lane (h.bearing hx').journey rfl)
  have hle := (List.subperm_of_subset hnodup hsub).length_le
  simp only [all, ids, List.length_cons, List.length_map] at hle
  omega

theorem Run.not_both_blocked (h : Run (fresh config heap heaps files codecState) log s)
    (hc : codec.Returns)
    (hn : (inFlight log).length ≤ max config.queueCapacity.toNat 1 + 1) :
    ¬ (s.Blocked .file ∧ s.Blocked .codec) := by
  rintro ⟨hf, hb⟩
  have := h.lt_inFlight hc hf hb
  omega

/-- A request that is accepted and neither dropped nor signaled is in a lane or about to be
signaled. -/
theorem Census.awaited (h : Census log s) (hr : .accepted r ∈ log) (hs : .signaled r.id ∉ log)
    (hd : r.id ∉ ids (log.filterMap Incident.dropped?)) :
    (∃ q p lane, s.At q p ∧ p.lane? = some lane) ∨ ∃ lane, s.worker lane = .signaling r.id := by
  obtain ⟨place, hplace, -⟩ := h.one_place hr
  have hpos : 0 < s.presence log r.id place := by omega
  cases place with
  | queue lane =>
    obtain ⟨q, hq, -⟩ := List.mem_map.1 (List.count_pos_iff.1 hpos)
    exact .inl ⟨q, .queue lane, lane, hq, rfl⟩
  | worker lane =>
    obtain ⟨q, hq, -⟩ := List.mem_map.1 (List.count_pos_iff.1 hpos)
    obtain ⟨task, hat⟩ := at_of_requests hq
    exact .inl ⟨q, .hand lane task, lane, hat, rfl⟩
  | completed =>
    refine .inr (by_contra fun hn ↦ hs ?_)
    rw [not_exists] at hn
    exact mem_signaled.1 ((h.signaled_iff r.id).2 ⟨List.count_pos_iff.1 hpos, hn⟩)
  | dropped => exact absurd (List.count_pos_iff.1 hpos) hd

theorem Run.enabled (h : Run (fresh config heap heaps files codecState) log s) (hc : codec.Returns)
    (hn : (inFlight log).length ≤ max config.queueCapacity.toNat 1 + 1)
    (hr : .accepted r ∈ log) (hs : .signaled r.id ∉ log)
    (hd : r.id ∉ ids (log.filterMap Incident.dropped?)) : ∃ lane, (s.work lane).isSome = true := by
  by_contra hno
  have hnone : ∀ lane, s.work lane = none := by
    intro lane
    by_contra hne
    exact hno ⟨lane, Option.isSome_iff_ne_none.2 hne⟩
  rcases h.census.awaited hr hs hd with ⟨q, p, lane, hq, hp⟩ | ⟨lane, hw⟩
  · have hb := h.blocked_of_at hc hq hp (hnone lane)
    refine h.not_both_blocked hc hn ?_
    cases lane with
    | file => exact ⟨hb, h.blocked_of_blocked hc hb (by decide) (hnone .codec)⟩
    | codec => exact ⟨h.blocked_of_blocked hc hb (by decide) (hnone .file), hb⟩
  · have := hnone lane
    simp [work, hw] at this

end Service

end QueuedFiles
