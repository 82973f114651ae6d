import QueuedFiles.Proofs.Lists
import QueuedFiles.Proofs.Service.Shutdown

/-!
What each incident tells: where its request was at that moment, and which order is behind it.
-/

namespace QueuedFiles

/-- The requests that an incident shows, as they are at that moment. -/
def Incident.requests : Incident → List Request
  | .accepted r | .refused r | .taken _ r | .handedOff _ r | .dropped r => [r]
  | .staged _ r after _ => [r, after]
  | .entered .. | .published .. | .signaled _ | .released _ | .marked _ | .stopped _ => []

namespace Service

variable {fs : FileSystem} {codec : Codec} {s t : Service fs codec} {log more : List Incident}
  {q r : Request} {p : Post} {lane onward : Lane} {config : Config} {heap : HeapId}
  {heaps : Heaps} {files : fs.State} {codecState : codec.State}

/-- Only the requests that are dropped share a move with others. -/
theorem Transition.single (h : Transition s more t) {i : Incident} (hi : i ∈ more)
    (hn : ∀ r, i ≠ .dropped r) : more = [i] := by
  cases h with
  | left | dismantled =>
    obtain ⟨r, -, rfl⟩ := List.mem_map.1 hi
    exact absurd rfl (hn r)
  | crashed =>
    rcases List.mem_cons.1 hi with rfl | hi
    · exact absurd rfl (hn _)
    · obtain ⟨r, -, rfl⟩ := List.mem_map.1 hi
      exact absurd rfl (hn r)
  | newHeap | turnedAway | closing | unmarked | joined | asked | forgot | gaveBack | prepared =>
    cases hi
  | _ =>
    obtain rfl := List.mem_singleton.1 hi
    rfl

/-- A run is cut at an incident that no other shares its move with. -/
theorem Run.cut {s₀ : Service fs codec} (h : Run s₀ log s) {i : Incident}
    {before after : List Incident} (hlog : log = before ++ i :: after)
    (hn : ∀ r, i ≠ .dropped r) :
    ∃ u v, Run s₀ before u ∧ Transition u [i] v ∧ Run s₀ (before ++ [i]) v ∧ Run v after s := by
  induction h generalizing after with
  | refl => simp at hlog
  | @step log t u m h hs ih =>
    have ht := step_transition m hs
    rcases cut_append (fun hi ↦ ht.single hi hn) hlog with ⟨rfl, rfl, hm⟩ | ⟨rest, hrest, rfl⟩
    · refine ⟨t, u, h, hm ▸ ht, ?_, .refl⟩
      rw [← hm]
      exact .step m h hs
    · obtain ⟨v, w, hv, htr, hw, hrun⟩ := ih hrest
      exact ⟨v, w, hv, htr, hw, .step m hrun hs⟩

theorem Transition.accepted_at (h : Transition s more t) (hr : .accepted r ∈ more) :
    s.At r .caller := by
  cases h with
  | accepted q lane hq =>
    obtain rfl : r = q := by simpa using hr
    exact hq
  | _ => simp at hr

theorem Transition.refused_at (h : Transition s more t) (hr : .refused r ∈ more) :
    s.At r .caller := by
  cases h with
  | refused q hq =>
    obtain rfl : r = q := by simpa using hr
    exact hq
  | _ => simp at hr

theorem Transition.taken_at (h : Transition s more t) (hs : s.Staffed)
    (hr : .taken lane r ∈ more) :
    s.At r (.queue lane) ∧ s.worker lane = .idle ∧ ∃ ms,
      (s.queue lane).messages = .payload r :: ms := by
  cases h with
  | taken k q ms hw hq =>
    obtain ⟨rfl, rfl⟩ : lane = k ∧ r = q := by simpa using hr
    have ho : (s.queue lane).isOpen = true := by simpa [hw] using hs lane
    refine ⟨?_, hw, ms, hq⟩
    simp [At, waiting_of_open ho, Queue.payloads_of_messages hq, Message.payload?]
  | _ => simp at hr

theorem Transition.staged_at (h : Transition s more t) {after : Request}
    {result : Except Error Unit} (hr : .staged lane r after result ∈ more) :
    (∃ task, s.At r (.hand lane task)) ∧ ∃ next, t.At after (.hand lane (.routing next)) := by
  cases h with
  | staged lane r st a added files codecState he =>
    simp only [List.mem_singleton, Incident.staged.injEq] at hr
    obtain ⟨rfl, rfl, rfl, -⟩ := hr
    exact ⟨he.task, st.next lane, by simp [At, Task.worker]⟩
  | _ => simp at hr

theorem Transition.handedOff_at (h : Transition s more t) (hr : .handedOff onward r ∈ more) :
    ∃ lane, s.At r (.hand lane (.routing (.handOff onward))) := by
  cases h with
  | handedOff lane k q hw =>
    obtain ⟨rfl, rfl⟩ : onward = k ∧ r = q := by simpa using hr
    exact ⟨lane, hw⟩
  | _ => simp at hr

theorem Transition.published_at (h : Transition s more t) {id : Nat} {o : Outcome}
    (hr : .published id o ∈ more) :
    ∃ r lane, s.At r (.hand lane (.routing .complete)) ∧ r.id = id ∧ o = r.completed.outcome := by
  cases h with
  | published lane r hw =>
    obtain ⟨rfl, rfl⟩ : id = r.id ∧ o = r.completed.outcome := by simpa using hr
    exact ⟨r, lane, hw, rfl, rfl⟩
  | _ => simp at hr

theorem Transition.dropped_from (h : Transition s more t) (hr : .dropped r ∈ more) :
    ∃ p, s.At r p := by
  cases h with
  | crashed q room hw =>
    obtain rfl | hq : r = q ∨ r ∈ s.waiting .codec := by simpa using hr
    · exact ⟨.hand .codec (.coding room), hw⟩
    · exact ⟨.queue .codec, hq⟩
  | abandoned k onward q hw =>
    obtain rfl : r = q := by simpa using hr
    exact ⟨.hand k (.routing (.handOff onward)), hw⟩
  | left k =>
    have hq : r ∈ s.waiting k := by simpa using hr
    exact ⟨.queue k, hq⟩
  | dismantled =>
    obtain hq | hq : r ∈ s.waiting .file ∨ r ∈ s.waiting .codec := by simpa using hr
    · exact ⟨.queue .file, hq⟩
    · exact ⟨.queue .codec, hq⟩
  | _ => simp at hr

/-- A request is dropped because its queue is given up, or because nobody is there to receive it. -/
theorem Transition.dropped_at (h : Transition s more t) (hc : codec.Returns)
    (hr : .dropped r ∈ more) :
    (∃ lane, s.At r (.queue lane) ∧ (s.worker lane = .leaving ∨ s.closing = .dismantling)) ∨
    ∃ lane onward, s.At r (.hand lane (.routing (.handOff onward))) ∧
      (s.queue onward).isOpen = false := by
  cases h with
  | crashed q room hw hx => simp [not_crashes hc] at hx
  | abandoned lane onward q hw ho =>
    obtain rfl : r = q := by simpa using hr
    exact .inr ⟨lane, onward, hw, ho⟩
  | left lane hw =>
    have hq : r ∈ s.waiting lane := by simpa using hr
    exact .inl ⟨lane, hq, .inl hw⟩
  | dismantled hd =>
    have hq : r ∈ s.waiting .file ∨ r ∈ s.waiting .codec := by simpa using hr
    rcases hq with hq | hq
    · exact .inl ⟨.file, hq, .inr hd⟩
    · exact .inl ⟨.codec, hq, .inr hd⟩
  | _ => simp at hr

theorem Transition.legs_dropped (h : Transition s more t) (hr : .dropped r ∈ more) (id : Nat) :
    legs id more = [] := by
  rw [legs, List.filterMap_eq_nil_iff]
  intro i hi
  cases h with
  | abandoned lane onward q =>
    obtain rfl := List.mem_singleton.1 hi
    rfl
  | left | dismantled =>
    obtain ⟨q, -, rfl⟩ := List.mem_map.1 hi
    rfl
  | crashed =>
    rcases List.mem_cons.1 hi with rfl | hi
    · rfl
    · obtain ⟨q, -, rfl⟩ := List.mem_map.1 hi
      rfl
  | _ => simp at hr

theorem Transition.shown_at (h : Transition s more t) (hs : s.Staffed) {i : Incident}
    (hi : i ∈ more) (hq : q ∈ i.requests) : (∃ p, s.At q p) ∨ ∃ p, t.At q p := by
  cases i with
  | entered | published | signaled | released | marked | stopped => cases hq
  | accepted r =>
    obtain rfl := List.mem_singleton.1 hq
    exact .inl ⟨_, h.accepted_at hi⟩
  | refused r =>
    obtain rfl := List.mem_singleton.1 hq
    exact .inl ⟨_, h.refused_at hi⟩
  | taken lane r =>
    obtain rfl := List.mem_singleton.1 hq
    exact .inl ⟨_, (h.taken_at hs hi).1⟩
  | handedOff onward r =>
    obtain rfl := List.mem_singleton.1 hq
    obtain ⟨lane, hr⟩ := h.handedOff_at hi
    exact .inl ⟨_, hr⟩
  | dropped r =>
    obtain rfl := List.mem_singleton.1 hq
    exact .inl (h.dropped_from hi)
  | staged lane r after result =>
    obtain ⟨⟨task, hr⟩, hafter⟩ := h.staged_at hi
    rcases List.mem_cons.1 hq with rfl | hq
    · exact .inl ⟨_, hr⟩
    · obtain rfl := List.mem_singleton.1 hq
      obtain ⟨next, hat⟩ := hafter
      exact .inr ⟨_, hat⟩

theorem Census.order_unique (h : Census log s) {id : Nat} {o o' : Order}
    (ho : .entered id o ∈ log) (ho' : .entered id o' ∈ log) : o = o' := by
  have hn : (log.filterMap Incident.entered?).Nodup := by
    rw [h.numbers]
    exact List.nodup_range'
  cases eq_of_nodup_filterMap hn ho ho' rfl rfl
  rfl

theorem Census.outcome_unique (h : Census log s) {id : Nat} {o o' : Outcome}
    (ho : .published id o ∈ log) (ho' : .published id o' ∈ log) : o = o' := by
  have hn : (log.filterMap Incident.published?).Nodup := by
    rw [List.nodup_iff_count_le_one]
    intro k
    have := h.places k
    have := h.accepted_le_one k
    omega
  cases eq_of_nodup_filterMap hn ho ho' rfl rfl
  rfl

theorem Bearing.carries (h : Bearing config heap log r p) (hc : Census log s) {o : Order}
    (ho : .entered r.id o ∈ log) : Carries config heap o r := by
  obtain ⟨o', ho', hcarries⟩ := h.order
  rwa [hc.order_unique ho ho']

theorem Run.carries (h : Run (fresh config heap heaps files codecState) log s) (hr : s.At r p)
    {o : Order} (ho : .entered r.id o ∈ log) : Carries config heap o r :=
  (h.bearing hr).carries h.census ho

theorem Bearing.append (h : Bearing config heap log r p) (hl : legs r.id more = []) :
    Bearing config heap (log ++ more) r p where
  order := by
    obtain ⟨o, ho, hc⟩ := h.order
    exact ⟨o, List.mem_append_left _ ho, hc⟩
  journey := by
    rw [legs_append, hl, List.append_nil]
    exact h.journey
  progress := h.progress

/-- Behind every request that an incident shows there is an order. -/
theorem Run.shown_order (h : Run (fresh config heap heaps files codecState) log s) {i : Incident}
    (hi : i ∈ log) (hq : q ∈ i.requests) :
    ∃ o, .entered q.id o ∈ log ∧ Carries config heap o q := by
  obtain ⟨pre, more, rest, u, v, hu, ht, hv, -, rfl, hm⟩ := h.split hi
  rcases ht.shown_at hu.census.staffed hm hq with ⟨p, hat⟩ | ⟨p, hat⟩
  · obtain ⟨o, ho, hc⟩ := (hu.bearing hat).order
    exact ⟨o, by simp [ho], hc⟩
  · obtain ⟨o, ho, hc⟩ := (hv.bearing hat).order
    exact ⟨o, List.mem_append_left _ ho, hc⟩

theorem Run.shown_carries (h : Run (fresh config heap heaps files codecState) log s) {i : Incident}
    (hi : i ∈ log) (hq : q ∈ i.requests) {o : Order} (ho : .entered q.id o ∈ log) :
    Carries config heap o q := by
  obtain ⟨o', ho', hc⟩ := h.shown_order hi hq
  rwa [h.census.order_unique ho ho']

theorem Run.shown_same (h : Run (fresh config heap heaps files codecState) log s)
    {i j : Incident} (hi : i ∈ log) (hq : q ∈ i.requests) (hj : j ∈ log) (hr : r ∈ j.requests)
    (he : q.id = r.id) : q.operation = r.operation ∧ q.flags = r.flags := by
  obtain ⟨o, ho, hcq⟩ := h.shown_order hi hq
  have hcr := h.shown_carries hj hr (he ▸ ho)
  exact ⟨hcq.operation.trans hcr.operation.symm, hcq.flags.trans hcr.flags.symm⟩

theorem Run.same_order (h : Run (fresh config heap heaps files codecState) log s)
    (hr : .accepted r ∈ log) (hb : Bearing config heap log q p) (he : q.id = r.id) :
    q.operation = r.operation ∧ q.isCompressed = r.isCompressed := by
  obtain ⟨o, ho, hc⟩ := h.shown_order hr (List.mem_singleton_self r)
  have hc' := hb.carries h.census (he ▸ ho)
  refine ⟨hc'.operation.trans hc.operation.symm, ?_⟩
  rw [Request.isCompressed, Request.isCompressed, hc.flags, hc'.flags]

theorem Run.published_bearing (h : Run (fresh config heap heaps files codecState) log s) {id : Nat}
    {o : Outcome} (hp : .published id o ∈ log) :
    ∃ r lane, r.id = id ∧ o = r.completed.outcome ∧
      Bearing config heap log r (.hand lane (.routing .complete)) := by
  obtain ⟨pre, more, rest, u, v, hu, ht, hv, hrest, rfl, hm⟩ := h.split hp
  obtain ⟨r, lane, hr, rfl, rfl⟩ := ht.published_at hm
  obtain rfl := ht.single hm fun _ hd ↦ by cases hd
  have hover : r.id ∈ (pre ++ [Incident.published r.id r.completed.outcome]).filterMap
      Incident.published? := by
    simp [Incident.published?]
  refine ⟨r, lane, rfl, rfl, ?_⟩
  rw [List.append_assoc]
  refine (hu.bearing hr).append ?_
  rw [legs_append, hv.over hrest (.inl hover)]
  rfl

theorem Run.dropped_somewhere (h : Run (fresh config heap heaps files codecState) log s)
    (hd : .dropped r ∈ log) : ∃ p, Bearing config heap log r p := by
  obtain ⟨pre, more, rest, u, v, hu, ht, hv, hrest, rfl, hm⟩ := h.split hd
  have hover : r.id ∈ ids ((pre ++ more).filterMap Incident.dropped?) :=
    mem_dropped.2 ⟨r, rfl, List.mem_append_right _ hm⟩
  obtain ⟨p, hr⟩ := ht.dropped_from hm
  refine ⟨p, ?_⟩
  rw [List.append_assoc]
  refine (hu.bearing hr).append ?_
  rw [legs_append, ht.legs_dropped hm, hv.over hrest (.inr hover)]
  rfl

theorem Run.dropped_bearing (h : Run (fresh config heap heaps files codecState) log s)
    (hc : codec.Returns) (hd : .dropped r ∈ log) :
    ∃ p, Bearing config heap log r p ∧ ((∃ lane, p = .queue lane) ∨
      ∃ lane onward, p = .hand lane (.routing (.handOff onward))) := by
  obtain ⟨pre, more, rest, u, v, hu, ht, hv, hrest, rfl, hm⟩ := h.split hd
  have hover : r.id ∈ ids ((pre ++ more).filterMap Incident.dropped?) := by
    exact mem_dropped.2 ⟨r, rfl, List.mem_append_right _ hm⟩
  have hl : legs r.id (more ++ rest) = [] := by
    rw [legs_append, ht.legs_dropped hm, hv.over hrest (.inr hover)]
    rfl
  rw [List.append_assoc]
  rcases ht.dropped_at hc hm with ⟨lane, hr, -⟩ | ⟨lane, onward, hr, -⟩
  · exact ⟨.queue lane, (hu.bearing hr).append hl, .inl ⟨lane, rfl⟩⟩
  · exact ⟨_, (hu.bearing hr).append hl, .inr ⟨lane, onward, rfl⟩⟩

end Service

end QueuedFiles
