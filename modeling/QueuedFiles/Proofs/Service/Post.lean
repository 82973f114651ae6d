import QueuedFiles.Proofs.Service.Census

/-!
The posts that a request passes before it is over, and the rules by which it goes from one to the
next. A request is at one post at a time, so what holds of every request at its post is proved rule
by rule.
-/

namespace QueuedFiles

/-- What a worker has a request in hand for. -/
inductive Task where
  | serving
  | coding (room : Option Reservation)
  | routing (next : Next)

inductive Post where
  /-- Still with the caller, whose push has not come back. -/
  | caller
  | queue (lane : Lane)
  | hand (lane : Lane) (task : Task)

def Post.lane? : Post → Option Lane
  | .caller => none
  | .queue lane | .hand lane _ => some lane

def Task.worker (r : Request) : Task → Worker
  | .serving => .serving r
  | .coding room => .coding r room
  | .routing next => .routing r next

theorem Task.requests_worker (r : Request) (task : Task) : (task.worker r).requests = [r] := by
  cases task <;> rfl

theorem Task.worker_inj {r q : Request} {task task' : Task} (h : task.worker r = task'.worker q) :
    task = task' ∧ r = q := by
  cases task <;> cases task' <;> simp_all [worker]

namespace Service

variable {fs : FileSystem} {codec : Codec} {s t : Service fs codec} {log more : List Incident}
  {r q : Request} {p p₀ : Post}

def At (s : Service fs codec) (r : Request) : Post → Prop
  | .caller => r ∈ s.entering
  | .queue lane => r ∈ s.waiting lane
  | .hand lane task => s.worker lane = task.worker r

theorem at_setWorker {lane : Lane} {w : Worker} (h : (s.setWorker lane w).At r p) :
    s.At r p ∨ ∃ task, p = .hand lane task ∧ w = task.worker r := by
  cases p with
  | caller => exact .inl (by simpa [At] using h)
  | queue k => exact .inl (by simpa [At] using h)
  | hand k task =>
    by_cases hk : k = lane
    · subst hk
      exact .inr ⟨task, rfl, by simpa [At] using h⟩
    · exact .inl (by simpa [At, hk] using h)

theorem at_setQueue {lane : Lane} {q : Queue Request} (h : (s.setQueue lane q).At r p) :
    s.At r p ∨ p = .queue lane ∧ q.isOpen = true ∧ r ∈ q.payloads := by
  cases p with
  | caller => exact .inl (by simpa [At] using h)
  | queue k =>
    by_cases hk : k = lane
    · subst hk
      by_cases ho : q.isOpen = true
      · exact .inr ⟨rfl, ho, by simpa [At, ho] using h⟩
      · simp [At, ho] at h
    · exact .inl (by simpa [At, hk] using h)
  | hand k task => exact .inl (by simpa [At] using h)

/-- The rules by which a request goes from post to post, with what the log says of it. -/
inductive Flow (s t : Service fs codec) : List Incident → Request → Post → Request → Post → Prop
  | accepted (r : Request) :
      Flow s t [.accepted r] r .caller r (.queue (entryLane r.operation r.flags))
  | taken (lane : Lane) (r : Request) :
      Flow s t [.taken lane r] r (.queue lane) r.begin (.hand lane .serving)
  | prepared {r : Request} {room : Option Reservation} {heaps : Heaps}
      (hp : s.Prepared r room heaps) :
      Flow s t [] r (.hand .codec .serving) r (.hand .codec (.coding room))
  | staged {lane : Lane} {r : Request} {staged : Staged} {a : Telemetry.Activity}
      {added : Option Telemetry.Addition} {files : fs.State} {codecState : codec.State}
      (task : Task) (hs : s.StageEnd lane r staged a added files codecState)
      (hheaps : t.heaps = staged.heaps) (hfiles : t.files = files) :
      Flow s t [.staged lane r (staged.routed lane) staged.result] r (.hand lane task)
        (staged.routed lane) (.hand lane (.routing (staged.next lane)))
  | handedOff (lane onward : Lane) (r : Request) :
      Flow s t [.handedOff onward r] r (.hand lane (.routing (.handOff onward))) r (.queue onward)

/-- A request that has just got its number. -/
inductive Arrival (s t : Service fs codec) : List Incident → Request → Prop
  | entered (o : Order) (path : Path)
      (hp : Path.ofText o.path s.config.maxPathLength.toNat = .ok path)
      (hheaps : t.heaps = (o.draw s.heap s.heaps).2) :
      Arrival s t [.entered s.nextId o]
        (o.request s.nextId path (o.heap s.heap) (o.draw s.heap s.heaps).1)

theorem StageEnd.task {lane : Lane} {staged : Staged} {a : Telemetry.Activity}
    {added : Option Telemetry.Addition} {files : fs.State} {codecState : codec.State}
    (h : s.StageEnd lane r staged a added files codecState) :
    ∃ task : Task, s.worker lane = task.worker r := by
  rcases h.holds with hw | ⟨room, hw⟩
  · exact ⟨.serving, hw⟩
  · exact ⟨.coding room, hw⟩

/-- A request that is at a post was there before, or has come by one of the rules, or is new. -/
theorem Transition.origin (h : Transition s more t) (hs : s.Staffed) (hr : t.At r p) :
    s.At r p ∨ (∃ q p₀, s.At q p₀ ∧ Flow s t more q p₀ r p) ∨ p = .caller ∧ Arrival s t more r := by
  cases h with
  | newHeap | turnedAway | closing | unmarked | joined | asked | forgot | gaveBack =>
    cases p <;> exact .inl (by simpa [At, waiting] using hr)
  | entered o path hc ha hp =>
    cases p with
    | caller =>
      simp only [At, List.mem_append, List.mem_singleton] at hr
      rcases hr with hr | rfl
      · exact .inl hr
      · exact .inr (.inr ⟨rfl, .entered o path hp rfl⟩)
    | queue => exact .inl (by simpa [At, waiting] using hr)
    | hand => exact .inl (by simpa [At] using hr)
  | refused q =>
    cases p with
    | caller => exact .inl (List.mem_of_mem_filter hr)
    | queue => exact .inl (by simpa [At, waiting] using hr)
    | hand => exact .inl (by simpa [At] using hr)
  | accepted q lane hq hl ho =>
    rcases at_setQueue hr with hr | ⟨rfl, -, hr⟩
    · cases p with
      | caller => exact .inl (List.mem_of_mem_filter hr)
      | queue => exact .inl (by simpa [At, waiting] using hr)
      | hand => exact .inl (by simpa [At] using hr)
    · simp only [Queue.payloads_extend, Message.payload?, Option.toList_some, List.mem_append,
        List.mem_singleton] at hr
      rcases hr with hr | rfl
      · exact .inl (by simpa [At, waiting_of_open ho] using hr)
      · subst hl
        exact .inr (.inl ⟨r, .caller, hq, .accepted r⟩)
  | taken lane q ms hw hq =>
    have ho : (s.queue lane).isOpen = true := by simpa [hw] using hs lane
    have hpay := Queue.payloads_of_messages hq
    rcases at_setWorker hr with hr | ⟨task, rfl, ht⟩
    · rcases at_setQueue hr with hr | ⟨rfl, -, hr⟩
      · exact .inl hr
      · exact .inl (by simp [At, waiting_of_open ho, hpay, hr])
    · have hq' : s.At q (.queue lane) := by simp [At, waiting_of_open ho, hpay, Message.payload?]
      cases task <;> simp only [Task.worker, Worker.serving.injEq, reduceCtorEq] at ht
      subst ht
      exact .inr (.inl ⟨q, _, hq', .taken lane q⟩)
  | stopped lane ms hw hq =>
    have ho : (s.queue lane).isOpen = true := by simpa [hw] using hs lane
    have hpay := Queue.payloads_of_messages hq
    rcases at_setWorker hr with hr | ⟨task, rfl, ht⟩
    · rcases at_setQueue hr with hr | ⟨rfl, -, hr⟩
      · exact .inl hr
      · exact .inl (by simp [At, waiting_of_open ho, hpay, hr])
    · cases task <;> cases ht
  | prepared q room heaps hp =>
    have hq : s.At q (.hand .codec .serving) := hp.holds
    rcases at_setWorker hr with hr | ⟨task, rfl, ht⟩
    · cases p <;> exact .inl (by simpa [At, waiting] using hr)
    · cases task <;> simp only [Task.worker, Worker.coding.injEq, reduceCtorEq] at ht
      obtain ⟨rfl, rfl⟩ := ht
      exact .inr (.inl ⟨q, _, hq, .prepared hp⟩)
  | staged lane q st a added files codecState he =>
    rcases at_setWorker hr with hr | ⟨task, rfl, ht⟩
    · cases p <;> exact .inl (by simpa [At, waiting] using hr)
    · obtain ⟨task', hw⟩ := he.task
      cases task <;> simp only [Task.worker, Worker.routing.injEq, reduceCtorEq] at ht
      obtain ⟨rfl, rfl⟩ := ht
      exact .inr (.inl ⟨q, .hand lane task', hw, .staged task' he (by simp) (by simp)⟩)
  | crashed | left =>
    rcases at_setWorker hr with hr | ⟨task, rfl, ht⟩
    · rcases at_setQueue hr with hr | ⟨rfl, ho, hr⟩
      · cases p <;> exact .inl (by simpa [At, waiting] using hr)
      · simp at ho
    · cases task <;> cases ht
  | published | signaled | released | abandoned =>
    rcases at_setWorker hr with hr | ⟨task, rfl, ht⟩
    · cases p <;> exact .inl (by simpa [At, waiting] using hr)
    · cases task <;> cases ht
  | handedOff lane onward q hw ho =>
    rcases at_setWorker hr with hr | ⟨task, rfl, ht⟩
    · rcases at_setQueue hr with hr | ⟨rfl, -, hr⟩
      · exact .inl hr
      · simp only [Queue.payloads_extend, Message.payload?, Option.toList_some, List.mem_append,
          List.mem_singleton] at hr
        rcases hr with hr | rfl
        · exact .inl (by simpa [At, waiting_of_open ho] using hr)
        · exact .inr (.inl ⟨r, .hand lane (.routing (.handOff onward)), hw, .handedOff lane onward r⟩)
    · cases task <;> cases ht
  | marked lane following hc ho =>
    rcases at_setQueue hr with hr | ⟨rfl, -, hr⟩
    · cases p <;> exact .inl (by simpa [At, waiting] using hr)
    · exact .inl (by simpa [At, waiting_of_open ho, Message.payload?] using hr)
  | dismantled =>
    rcases at_setQueue hr with hr | ⟨rfl, ho, hr⟩
    · rcases at_setQueue hr with hr | ⟨rfl, ho, hr⟩
      · cases p <;> exact .inl (by simpa [At, waiting] using hr)
      · simp [Queue.payloads] at hr
    · simp [Queue.payloads] at hr

theorem At.held_pos {lane : Lane} (h : s.At r p) (hp : p.lane? = some lane) :
    1 ≤ s.held r.id lane := by
  cases p with
  | caller => cases hp
  | queue k =>
    cases hp
    have hm : r.id ∈ ids (s.waiting lane) := List.mem_map_of_mem h
    have := List.count_pos_iff.2 hm
    simp only [held]
    omega
  | hand k task =>
    cases hp
    have hw : s.worker lane = task.worker r := h
    simp [held, hw, Task.requests_worker]

theorem Census.nodup_waiting (h : Census log s) (lane : Lane) : (ids (s.waiting lane)).Nodup := by
  rw [List.nodup_iff_count_le_one]
  intro k
  have := h.accepted_le_one k
  have hp := h.places k
  simp only [held] at hp
  cases lane <;> omega

theorem Census.not_entering (h : Census log s) {lane : Lane} {k : Nat} (hk : 1 ≤ s.held k lane) :
    k ∉ ids s.entering := by
  intro hm
  have := List.count_pos_iff.2 hm
  have := h.callers k
  have := h.entered_le_one k
  have := h.places k
  cases lane <;> omega

theorem Census.same_lane (h : Census log s) {lane lane' : Lane} {k : Nat}
    (hk : 1 ≤ s.held k lane) (hk' : 1 ≤ s.held k lane') : lane = lane' := by
  have := h.accepted_le_one k
  have := h.places k
  cases lane <;> cases lane' <;> first | rfl | omega

theorem held_two {lane : Lane} {task : Task} (hr : s.At r (.queue lane))
    (hq : s.At q (.hand lane task)) (he : r.id = q.id) : 2 ≤ s.held r.id lane := by
  have hm : r.id ∈ ids (s.waiting lane) := List.mem_map_of_mem hr
  have hc := List.count_pos_iff.2 hm
  have hw : s.worker lane = task.worker q := hq
  simp only [held, hw, Task.requests_worker, ids_cons, ids_nil, ← he, List.count_singleton_self]
  omega

theorem Census.unique (h : Census log s) (hr : s.At r p) (hq : s.At q p₀) (he : r.id = q.id) :
    r = q ∧ p = p₀ := by
  cases hl : p.lane? with
  | none =>
    cases p <;> simp only [Post.lane?, reduceCtorEq] at hl
    cases hl₀ : p₀.lane? with
    | none =>
      cases p₀ <;> simp only [Post.lane?, reduceCtorEq] at hl₀
      exact ⟨List.inj_on_of_nodup_map h.nodup_entering hr hq he, rfl⟩
    | some lane =>
      have hm : q.id ∈ ids s.entering := he ▸ List.mem_map_of_mem hr
      exact absurd hm (h.not_entering (hq.held_pos hl₀))
  | some lane =>
    have hpos := hr.held_pos hl
    cases hl₀ : p₀.lane? with
    | none =>
      cases p₀ <;> simp only [Post.lane?, reduceCtorEq] at hl₀
      have hm : r.id ∈ ids s.entering := he ▸ List.mem_map_of_mem hq
      exact absurd hm (h.not_entering hpos)
    | some lane' =>
      obtain rfl := h.same_lane hpos (he ▸ hq.held_pos hl₀)
      have hone : s.held r.id lane ≤ 1 := by
        have := h.accepted_le_one r.id
        have := h.places r.id
        cases lane <;> omega
      cases p with
      | caller => cases hl
      | queue k =>
        cases hl
        cases p₀ with
        | caller => cases hl₀
        | queue k =>
          cases hl₀
          exact ⟨List.inj_on_of_nodup_map (h.nodup_waiting lane) hr hq he, rfl⟩
        | hand k task =>
          cases hl₀
          have := held_two hr hq he
          omega
      | hand k task =>
        cases hl
        cases p₀ with
        | caller => cases hl₀
        | queue k =>
          cases hl₀
          have := held_two hq hr he.symm
          rw [← he] at this
          omega
        | hand k task' =>
          cases hl₀
          obtain ⟨rfl, rfl⟩ := Task.worker_inj (Eq.trans (Eq.symm hr) hq)
          exact ⟨rfl, rfl⟩

theorem Census.accepted_of_held (h : Census log s) {lane : Lane} {k : Nat}
    (hk : 1 ≤ s.held k lane) : 1 ≤ (ids (log.filterMap Incident.accepted?)).count k := by
  have := h.places k
  cases lane <;> omega

theorem Census.entered_of_at (h : Census log s) (hr : s.At r p) :
    1 ≤ (log.filterMap Incident.entered?).count r.id := by
  have hc := h.callers r.id
  cases hl : p.lane? with
  | none =>
    cases p <;> simp only [Post.lane?, reduceCtorEq] at hl
    have := List.count_pos_iff.2 (List.mem_map_of_mem (f := (·.id)) hr)
    simp only [ids] at hc
    omega
  | some lane =>
    have := h.accepted_of_held (hr.held_pos hl)
    omega

theorem Census.id_lt (h : Census log s) (hr : s.At r p) : r.id < s.nextId := by
  have hm := List.count_pos_iff.1 (h.entered_of_at hr)
  rw [h.numbers, List.mem_range'_1] at hm
  omega

theorem Census.over (h : Census log s) (hr : s.At r p) :
    r.id ∉ log.filterMap Incident.published? ∧ r.id ∉ ids (log.filterMap Incident.dropped?) := by
  have hp := h.places r.id
  have hc := h.callers r.id
  have he := h.entered_le_one r.id
  have hn : (log.filterMap Incident.published?).count r.id = 0 ∧
      (ids (log.filterMap Incident.dropped?)).count r.id = 0 := by
    cases hl : p.lane? with
    | none =>
      cases p <;> simp only [Post.lane?, reduceCtorEq] at hl
      have := List.count_pos_iff.2 (List.mem_map_of_mem (f := (·.id)) hr)
      simp only [ids] at hc hp ⊢
      omega
    | some lane =>
      have := hr.held_pos hl
      cases lane <;> omega
  exact ⟨List.count_eq_zero.1 hn.1, List.count_eq_zero.1 hn.2⟩

/-- The log of a transition says nothing of a request that stays at its post. -/
theorem Transition.quiet (h : Transition s more t) (hs : Census log s) (hr : s.At r p)
    (hr' : t.At r p) : ∀ i ∈ more, i.id? ≠ some r.id := by
  -- A request that has left its post is another one.
  have gone : ∀ q p₀, s.At q p₀ → ¬ t.At q p₀ → some q.id ≠ some r.id := by
    intro q p₀ hq hn he
    obtain ⟨rfl, rfl⟩ := hs.unique hr hq (Option.some.inj he).symm
    exact hn hr'
  have emptied : ∀ lane q, q ∈ s.waiting lane → t.waiting lane = [] → some q.id ≠ some r.id := by
    intro lane q hq hn
    exact gone q (.queue lane) hq (by simp [At, hn])
  cases h with
  | newHeap | turnedAway | closing | unmarked | joined | asked | forgot | gaveBack
  | prepared => simp
  | entered o path =>
    have := hs.id_lt hr
    simp [Incident.id?]
    omega
  | accepted q lane hq | refused q hq =>
    simpa [Incident.id?] using gone q .caller hq (by simp [At])
  | taken lane q ms hwl hq =>
    have ho : (s.queue lane).isOpen = true := by simpa [hwl] using hs.staffed lane
    have hpay := Queue.payloads_of_messages hq
    have hnd := hs.nodup_waiting lane
    simp only [waiting_of_open ho, hpay, Message.payload?, Option.toList_some, List.cons_append,
      List.nil_append, ids_cons, List.nodup_cons] at hnd
    have hq' : s.At q (.queue lane) := by simp [At, waiting_of_open ho, hpay, Message.payload?]
    have hn : q ∉ ms.filterMap Message.payload? := fun hm ↦ hnd.1 (List.mem_map_of_mem hm)
    simpa [Incident.id?] using gone q _ hq' (by simpa [At, ho, Queue.payloads] using hn)
  | stopped | marked => simp [Incident.id?]
  | staged lane q st a added files codecState he =>
    rcases he.holds with hw | ⟨room, hw⟩
    · simpa [Incident.id?] using gone q (.hand lane .serving) hw (by simp [At, Task.worker])
    · simpa [Incident.id?] using gone q (.hand lane (.coding room)) hw (by simp [At, Task.worker])
  | published lane q hw =>
    simpa [Incident.id?] using
      gone q (.hand lane (.routing .complete)) hw (by simp [At, Task.worker])
  | handedOff lane onward q hw | abandoned lane onward q hw =>
    simpa [Incident.id?] using
      gone q (.hand lane (.routing (.handOff onward))) hw (by simp [At, Task.worker])
  | signaled lane id hwl =>
    have hf := hs.flags id
    have hc : (s.worker lane).closing.count id = 1 := by simp [hwl]
    have hm : id ∈ log.filterMap Incident.published? :=
      List.count_pos_iff.1 (by cases lane <;> omega)
    have := (hs.over hr).1
    simp only [List.mem_singleton, forall_eq, Incident.id?, ne_eq, Option.some.injEq]
    rintro rfl
    exact this hm
  | released lane id hwl =>
    have hf := hs.flags id
    have hp := hs.partings id
    have hc : (s.worker lane).parting.count id = 1 := by simp [hwl]
    have hm : id ∈ log.filterMap Incident.published? :=
      List.count_pos_iff.1 (by cases lane <;> omega)
    have := (hs.over hr).1
    simp only [List.mem_singleton, forall_eq, Incident.id?, ne_eq, Option.some.injEq]
    rintro rfl
    exact this hm
  | left lane =>
    have hn := emptied lane
    simpa [Incident.id?] using hn
  | crashed q room hwl =>
    have hn := emptied .codec
    have hq := gone q (.hand .codec (.coding room)) hwl (by simp [At, Task.worker])
    simpa [Incident.id?] using ⟨by simpa using hq, by simpa using hn⟩
  | dismantled =>
    have hf := emptied .file
    have hc := emptied .codec
    simp [Queue.payloads] at hf hc
    simp only [List.map_append, List.mem_append, List.mem_map]
    rintro i (⟨q, hq, rfl⟩ | ⟨q, hq, rfl⟩)
    · simpa [Incident.id?] using hf q hq
    · simpa [Incident.id?] using hc q hq

variable {config : Config} {heap : HeapId} {heaps : Heaps} {files : fs.State}
  {codecState : codec.State}

/-- What arrivals have, what other requests' moves leave alone and what every rule passes on holds
of all requests at their posts. -/
theorem Run.along {P : List Incident → Request → Post → Prop}
    (arrival : ∀ {log more s t r}, Run (fresh config heap heaps files codecState) log s →
      Transition s more t → Arrival s t more r → P (log ++ more) r .caller)
    (quiet : ∀ {log more s t r p}, Run (fresh config heap heaps files codecState) log s →
      Transition s more t → P log r p → (∀ i ∈ more, i.id? ≠ some r.id) → P (log ++ more) r p)
    (flow : ∀ {log more s t q p₀ r p}, Run (fresh config heap heaps files codecState) log s →
      Transition s more t → s.At q p₀ → P log q p₀ → Flow s t more q p₀ r p → P (log ++ more) r p)
    (h : Run (fresh config heap heaps files codecState) log s) (hr : s.At r p) : P log r p := by
  induction h generalizing r p with
  | refl =>
    cases p with
    | caller => simp [At, fresh] at hr
    | queue lane => cases lane <;> simp [At, fresh, waiting, queue, Queue.create, Queue.payloads] at hr
    | hand lane task => cases lane <;> cases task <;> cases hr
  | @step log s t m h hs ih =>
    have ht := step_transition m hs
    rcases ht.origin h.census.staffed hr with hr' | ⟨q, p₀, hq, hf⟩ | ⟨rfl, ha⟩
    · exact quiet h ht (ih hr') (ht.quiet h.census hr' hr)
    · exact flow h ht hq (ih hq) hf
    · exact arrival h ht ha

end Service

end QueuedFiles
