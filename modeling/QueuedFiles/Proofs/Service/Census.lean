import QueuedFiles.Proofs.Service.Transition
import Mathlib.Data.List.Nodup

/-!
Where requests are, by count. Every number that was handed out is either still with its caller, or
accepted, or refused; and every accepted one is waiting in a queue, in a worker's hands, finished,
or dropped. No schedule enters into it.
-/

namespace QueuedFiles

namespace Service

variable {fs : FileSystem} {codec : Codec} {s t : Service fs codec} {log more : List Incident}

/-- A worker has gone exactly when its queue has nobody to empty it. -/
def Staffed (s : Service fs codec) : Prop :=
  ∀ lane, s.worker lane = .gone ↔ (s.queue lane).isOpen = false

theorem Staffed.setWorker {lane : Lane} {w : Worker} (hs : s.Staffed)
    (hw : s.worker lane ≠ .gone) (h : w ≠ .gone) : (s.setWorker lane w).Staffed := by
  intro k
  by_cases hk : k = lane
  · subst hk
    simpa [h] using mt (hs k).2 hw
  · simpa [hk] using hs k

theorem Staffed.setQueue {lane : Lane} {q : Queue Request} (hs : s.Staffed)
    (hq : q.isOpen = (s.queue lane).isOpen) : (s.setQueue lane q).Staffed := by
  intro k
  by_cases hk : k = lane
  · subst hk
    simpa [hq] using hs k
  · simpa [hk] using hs k

theorem Transition.staffed (h : Transition s more t) (hs : s.Staffed) : t.Staffed := by
  cases h with
  | newHeap | turnedAway | entered | refused | closing | unmarked | joined | asked | forgot
  | gaveBack => exact hs
  | accepted | marked =>
    refine Staffed.setQueue ?_ ?_
    · exact hs
    · simp
  | taken lane r ms hw | stopped lane ms hw | handedOff lane onward r hw =>
    refine Staffed.setWorker ?_ ?_ ?_
    · exact hs.setQueue rfl
    · simp [hw]
    · simp
  | prepared r room heaps hp =>
    refine Staffed.setWorker ?_ ?_ ?_
    · exact hs
    · simp [hp.holds]
    · simp
  | staged lane r st a added files codecState h =>
    refine Staffed.setWorker ?_ ?_ ?_
    · exact hs
    · rcases h.holds with hw | ⟨room, hw⟩ <;> simp [hw]
    · simp
  | published lane r hw | abandoned lane onward r hw | signaled lane id hw | released lane id hw =>
    refine Staffed.setWorker ?_ ?_ ?_
    · exact hs
    · simp [hw]
    · simp
  | left lane =>
    intro k
    have hk := hs k
    by_cases h : k = lane <;> simp_all
  | crashed =>
    intro k
    have hk := hs k
    by_cases h : k = .codec <;> simp_all
  | dismantled => exact Staffed.setQueue (Staffed.setQueue hs rfl) rfl

/-- How often a lane has a request of some number: waiting in its queue or in its worker's hands. -/
def held (s : Service fs codec) (k : Nat) (lane : Lane) : Nat :=
  (ids (s.waiting lane)).count k + (ids (s.worker lane).requests).count k

attribute [local simp] List.filterMap_cons List.count_cons Message.payload? Incident.entered?
  Incident.accepted? Incident.refused? Incident.published? Incident.signaled? Incident.released?
  Incident.dropped?

/-- What was held or is accepted now is held, finished or dropped afterwards. -/
theorem Transition.places (h : Transition s more t) (hs : s.Staffed) (k : Nat) :
    t.held k .file + t.held k .codec + (more.filterMap Incident.published?).count k +
        (ids (more.filterMap Incident.dropped?)).count k =
      s.held k .file + s.held k .codec + (ids (more.filterMap Incident.accepted?)).count k := by
  cases h with
  | newHeap | turnedAway | entered | refused | closing | unmarked | joined | asked | forgot
  | gaveBack => rfl
  | accepted r lane hr hl ho =>
    cases lane <;> simp [held, waiting, ho] <;> omega
  | taken lane r ms hw hq =>
    have hf : (s.queue lane).isOpen = true := by simpa [hw] using hs lane
    have hp := Queue.payloads_of_messages hq
    cases lane <;> simp [held, waiting, hw, hf, hp, Request.begin]
  | stopped lane ms hw hq =>
    have hp := Queue.payloads_of_messages hq
    cases lane <;> simp [held, waiting, hw, hp]
  | prepared r room heaps hp => simp [held, waiting, hp.holds]
  | staged lane r st a added files codecState h =>
    have hid := h.resized.id
    rcases h.holds with hw | ⟨room, hw⟩ <;> cases lane <;> simp [held, waiting, hw, hid]
  | published lane r hw | abandoned lane onward r hw =>
    cases lane <;> simp [held, waiting, hw] <;> omega
  | signaled lane id hw | released lane id hw => cases lane <;> simp [held, waiting, hw]
  | handedOff lane onward r hw ho =>
    cases lane <;> cases onward <;> simp [held, waiting, hw, ho] <;> omega
  | left lane hw =>
    cases lane
    all_goals simp [held, hw]
    all_goals omega
  | crashed r room hw => simp [held, waiting, hw]
  | marked lane following hc ho => cases lane <;> simp [held, waiting, ho]
  | dismantled =>
    simp [held, Queue.payloads]
    omega

theorem Transition.numbered (h : Transition s more t) :
    more.filterMap Incident.entered? = List.range' s.nextId (t.nextId - s.nextId) ∧
      s.nextId ≤ t.nextId := by
  cases h <;> simp

theorem count_map_filter {α : Type} (f : α → Nat) (l : List α) (n k : Nat) :
    ((l.filter fun a ↦ !decide (f a = n)).map f).count k = if k = n then 0 else (l.map f).count k := by
  have hm : (l.filter fun a ↦ !decide (f a = n)).map f = (l.map f).filter fun x ↦ !decide (x = n) := by
    rw [List.filter_map]
    rfl
  rw [hm]
  split
  · next hk => simp [List.count_eq_zero, hk]
  · next hk => exact List.count_filter (by simp [hk])

theorem count_ids_filter (rs : List Request) (n k : Nat) :
    (ids (rs.filter fun r ↦ !decide (r.id = n))).count k = if k = n then 0 else (ids rs).count k :=
  count_map_filter Request.id rs n k

theorem count_ids_of_mem {rs : List Request} {r : Request} (hn : (ids rs).Nodup) (hr : r ∈ rs) :
    (ids rs).count r.id = 1 :=
  List.count_eq_one_of_mem hn (List.mem_map_of_mem hr)

theorem Transition.callers (h : Transition s more t) (hs : (ids s.entering).Nodup) (k : Nat) :
    (ids t.entering).count k + (ids (more.filterMap Incident.accepted?)).count k +
        (ids (more.filterMap Incident.refused?)).count k =
      (ids s.entering).count k + (more.filterMap Incident.entered?).count k := by
  cases h with
  | accepted r lane hr | refused r hr =>
    have hone := count_ids_of_mem hs hr
    by_cases hk : k = r.id
    · subst hk
      simp [count_ids_filter, hone]
    · have hne : r.id ≠ k := Ne.symm hk
      simp [count_ids_filter, hk, hne]
  | entered o path => simp [Order.request]
  | _ => simp

theorem Transition.flags (h : Transition s more t) (k : Nat) :
    (t.worker .file).closing.count k + (t.worker .codec).closing.count k +
        (more.filterMap Incident.signaled?).count k =
      (s.worker .file).closing.count k + (s.worker .codec).closing.count k +
        (more.filterMap Incident.published?).count k := by
  cases h with
  | newHeap | turnedAway | entered | refused | closing | unmarked | joined | asked | forgot
  | gaveBack => rfl
  | accepted | marked | dismantled => simp
  | taken lane r ms hw | stopped lane ms hw | handedOff lane onward r hw
  | abandoned lane onward r hw | released lane id hw | left lane hw => cases lane <;> simp [hw]
  | published lane r hw | signaled lane id hw =>
    cases lane
    all_goals simp [hw]
    all_goals omega
  | prepared r room heaps hp => simp [hp.holds]
  | crashed r room hw => simp [hw]
  | staged lane r st a added files codecState h =>
    rcases h.holds with hw | ⟨room, hw⟩ <;> cases lane <;> simp [hw]

theorem Transition.partings (h : Transition s more t) (k : Nat) :
    (t.worker .file).parting.count k + (t.worker .codec).parting.count k +
        (more.filterMap Incident.released?).count k =
      (s.worker .file).parting.count k + (s.worker .codec).parting.count k +
        (more.filterMap Incident.signaled?).count k := by
  cases h with
  | newHeap | turnedAway | entered | refused | closing | unmarked | joined | asked | forgot
  | gaveBack => rfl
  | accepted | marked | dismantled => simp
  | taken lane r ms hw | stopped lane ms hw | handedOff lane onward r hw
  | abandoned lane onward r hw | published lane r hw | left lane hw => cases lane <;> simp [hw]
  | signaled lane id hw | released lane id hw =>
    cases lane
    all_goals simp [hw]
    all_goals omega
  | prepared r room heaps hp => simp [hp.holds]
  | crashed r room hw => simp [hw]
  | staged lane r st a added files codecState h =>
    rcases h.holds with hw | ⟨room, hw⟩ <;> cases lane <;> simp [hw]

/-- The books of a run: every number is with its caller, refused or accepted; what is accepted is
in one of the lanes, finished or dropped; what is finished has its flag or gets it next; and its
worker lets go of it next behind the flag. -/
structure Census (log : List Incident) (s : Service fs codec) : Prop where
  staffed : s.Staffed
  positive : 0 < s.nextId
  numbers : log.filterMap Incident.entered? = List.range' 1 (s.nextId - 1)
  callers : ∀ k, (ids s.entering).count k + (ids (log.filterMap Incident.accepted?)).count k +
    (ids (log.filterMap Incident.refused?)).count k = (log.filterMap Incident.entered?).count k
  places : ∀ k, s.held k .file + s.held k .codec + (log.filterMap Incident.published?).count k +
    (ids (log.filterMap Incident.dropped?)).count k =
      (ids (log.filterMap Incident.accepted?)).count k
  flags : ∀ k, (s.worker .file).closing.count k + (s.worker .codec).closing.count k +
    (log.filterMap Incident.signaled?).count k = (log.filterMap Incident.published?).count k
  partings : ∀ k, (s.worker .file).parting.count k + (s.worker .codec).parting.count k +
    (log.filterMap Incident.released?).count k = (log.filterMap Incident.signaled?).count k

theorem Census.entered_le_one (h : Census log s) (k : Nat) :
    (log.filterMap Incident.entered?).count k ≤ 1 := by
  rw [h.numbers]
  exact List.nodup_iff_count_le_one.1 List.nodup_range' k

theorem Census.accepted_le_one (h : Census log s) (k : Nat) :
    (ids (log.filterMap Incident.accepted?)).count k ≤ 1 := by
  have := h.callers k
  have := h.entered_le_one k
  omega

theorem Census.nodup_entering (h : Census log s) : (ids s.entering).Nodup := by
  rw [List.nodup_iff_count_le_one]
  intro k
  have := h.callers k
  have := h.entered_le_one k
  omega

theorem Census.find_entering (h : Census log s) {r : Request} (hr : r ∈ s.entering) :
    s.entering.find? (fun q ↦ q.id = r.id) = some r := by
  have hsome : (s.entering.find? fun q ↦ q.id = r.id).isSome = true :=
    List.find?_isSome.2 ⟨r, hr, decide_eq_true rfl⟩
  obtain ⟨q, hq⟩ := Option.isSome_iff_exists.1 hsome
  have hid : q.id = r.id := by simpa using List.find?_some hq
  rw [hq, List.inj_on_of_nodup_map h.nodup_entering (List.mem_of_find?_eq_some hq) hr hid]

theorem Census.unborn (h : Census log s) :
    s.nextId ∉ log.filterMap Incident.published? ∧ s.nextId ∉ log.filterMap Incident.signaled? ∧
      s.nextId ∉ log.filterMap Incident.released? := by
  have hn : (log.filterMap Incident.entered?).count s.nextId = 0 := by
    rw [List.count_eq_zero, h.numbers, List.mem_range'_1]
    have := h.positive
    omega
  have hc := h.callers s.nextId
  have hp := h.places s.nextId
  have hf := h.flags s.nextId
  have hr := h.partings s.nextId
  simp only [← List.count_eq_zero]
  omega

theorem fresh_census (config : Config) (heap : HeapId) (heaps : Heaps) (files : fs.State)
    (codecState : codec.State) :
    Census [] (fresh config heap heaps files codecState : Service fs codec) where
  staffed lane := by cases lane <;> simp [fresh, worker, queue, Queue.create]
  positive := Nat.zero_lt_one
  numbers := rfl
  callers k := by simp [fresh]
  places k := by simp [fresh, held, waiting, worker, queue, Queue.create, Queue.payloads]
  flags k := by simp [fresh, worker]
  partings k := by simp [fresh, worker]

theorem Transition.census (h : Transition s more t) (hs : Census log s) :
    Census (log ++ more) t where
  staffed := h.staffed hs.staffed
  positive := by
    have := h.numbered.2
    have := hs.positive
    omega
  numbers := by
    have hle := h.numbered.2
    have hpos := hs.positive
    rw [List.filterMap_append, hs.numbers, h.numbered.1]
    have happ := @List.range'_append_1 1 (s.nextId - 1) (t.nextId - s.nextId)
    rwa [show 1 + (s.nextId - 1) = s.nextId by omega,
      show s.nextId - 1 + (t.nextId - s.nextId) = t.nextId - 1 by omega] at happ
  callers k := by
    have := h.callers hs.nodup_entering k
    have := hs.callers k
    simp only [List.filterMap_append, ids_append, List.count_append]
    omega
  places k := by
    have := h.places hs.staffed k
    have := hs.places k
    simp only [List.filterMap_append, ids_append, List.count_append]
    omega
  flags k := by
    have := h.flags k
    have := hs.flags k
    simp only [List.filterMap_append, List.count_append]
    omega
  partings k := by
    have := h.partings k
    have := hs.partings k
    simp only [List.filterMap_append, List.count_append]
    omega

variable {config : Config} {heap : HeapId} {heaps : Heaps} {files : fs.State}
  {codecState : codec.State}

theorem Run.census (h : Run (fresh config heap heaps files codecState) log s) : Census log s :=
  h.invariant (fresh_census config heap heaps files codecState) fun hs ht ↦ ht.census hs

end Service

end QueuedFiles
