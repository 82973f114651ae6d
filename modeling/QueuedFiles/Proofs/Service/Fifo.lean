import QueuedFiles.Proofs.Service.Conservation

/-!
First in, first out. What has been pushed onto a queue is what has been taken off it, followed by
what is in it, until the queue is given up; and nothing is taken off behind the marker.
-/

namespace QueuedFiles

namespace Incident

/-- What an incident puts at the end of a queue. -/
def push? (lane : Lane) : Incident → Option (Message Request)
  | .accepted r => if entryLane r.operation r.flags = lane then some (.payload r) else none
  | .handedOff onward r => if onward = lane then some (.payload r) else none
  | .marked k => if k = lane then some .shutdown else none
  | _ => none

/-- What an incident takes off the front of a queue. -/
def pull? (lane : Lane) : Incident → Option (Message Request)
  | .taken k r => if k = lane then some (.payload r) else none
  | .stopped k => if k = lane then some .shutdown else none
  | _ => none

end Incident

@[simp] theorem Incident.traffic_comp_dropped (lane : Lane) (rs : List Request) :
    rs.filterMap (push? lane ∘ dropped) = [] ∧ rs.filterMap (pull? lane ∘ dropped) = [] := by
  simp [push?, pull?]

def pushes (lane : Lane) (log : List Incident) : List (Message Request) :=
  log.filterMap (Incident.push? lane)

def pulls (lane : Lane) (log : List Incident) : List (Message Request) :=
  log.filterMap (Incident.pull? lane)

@[simp] theorem pushes_append (lane : Lane) (log more : List Incident) :
    pushes lane (log ++ more) = pushes lane log ++ pushes lane more :=
  List.filterMap_append

@[simp] theorem pulls_append (lane : Lane) (log more : List Incident) :
    pulls lane (log ++ more) = pulls lane log ++ pulls lane more :=
  List.filterMap_append

theorem shutdown_mem_pushes {lane : Lane} {log : List Incident} :
    .shutdown ∈ pushes lane log ↔ .marked lane ∈ log := by
  rw [pushes, List.mem_filterMap]
  constructor
  · rintro ⟨i, hi, hp⟩
    cases i <;> simp [Incident.push?] at hp
    exact hp ▸ hi
  · exact fun h ↦ ⟨_, h, by simp [Incident.push?]⟩

theorem payload_mem_pulls {lane : Lane} {log : List Incident} {r : Request} :
    .payload r ∈ pulls lane log ↔ .taken lane r ∈ log := by
  rw [pulls, List.mem_filterMap]
  constructor
  · rintro ⟨i, hi, hp⟩
    cases i <;> simp [Incident.pull?] at hp
    obtain ⟨rfl, rfl⟩ := hp
    exact hi
  · exact fun h ↦ ⟨_, h, by simp [Incident.pull?]⟩

namespace Service

variable {fs : FileSystem} {codec : Codec} {s t : Service fs codec} {log more : List Incident}
  {lane : Lane} {q r : Request} {config : Config} {heap : HeapId} {heaps : Heaps} {files : fs.State}
  {codecState : codec.State}

structure Fifo (log : List Incident) (s : Service fs codec) : Prop where
  order : ∀ lane, s.closing ≠ .done →
    pulls lane log ++ (s.queue lane).messages = pushes lane log
  front : ∀ lane, pulls lane log ++ (s.queue lane).messages <+: pushes lane log
  /-- A worker that has come to its marker takes nothing any more. -/
  stopped : ∀ lane, .shutdown ∈ pulls lane log ↔ (s.worker lane).stopping = 1

attribute [local simp] pushes pulls Incident.push? Incident.pull? List.filterMap_cons

theorem Transition.traffic (h : Transition s more t) (hd : t.closing ≠ .done) (k : Lane) :
    (s.queue k).messages ++ pushes k more = pulls k more ++ (t.queue k).messages := by
  cases h with
  | accepted r lane hr hl =>
    subst hl
    by_cases hk : k = entryLane r.operation r.flags
    · subst hk
      simp
    · simp [hk, Ne.symm hk]
  | taken lane r ms hw hq | stopped lane ms hw hq =>
    by_cases hk : k = lane
    · subst hk
      simp [hq]
    · simp [hk, Ne.symm hk]
  | handedOff lane onward r =>
    by_cases hk : k = onward
    · subst hk
      simp
    · simp [hk, Ne.symm hk]
  | left lane =>
    by_cases hk : k = lane
    · subst hk
      simp [Queue.close]
    · simp [hk]
  | crashed => cases k <;> simp [Queue.close]
  | marked lane =>
    by_cases hk : k = lane
    · subst hk
      simp
    · simp [hk, Ne.symm hk]
  | dismantled => simp at hd
  | _ => simp

theorem Transition.stopping (h : Transition s more t) (hc : codec.Returns) (k : Lane) :
    .shutdown ∉ pulls k more ∧ (t.worker k).stopping = (s.worker k).stopping ∨
      .shutdown ∈ pulls k more ∧ (t.worker k).stopping = 1 := by
  cases h with
  | taken lane r ms hw =>
    by_cases hk : k = lane
    · subst hk
      exact .inl (by simp [hw, Worker.stopping])
    · exact .inl (by simp [hk, Ne.symm hk])
  | published lane r hw | handedOff lane onward r hw | abandoned lane onward r hw
  | signaled lane id hw | released lane id hw | left lane hw =>
    refine .inl ⟨by simp, ?_⟩
    by_cases hk : k = lane
    · subst hk
      simp [hw, Worker.stopping]
    · simp [hk]
  | stopped lane ms hw =>
    by_cases hk : k = lane
    · subst hk
      exact .inr (by simp [Worker.stopping])
    · exact .inl (by simp [hk, Ne.symm hk])
  | prepared r room heaps hp =>
    refine .inl ⟨by simp, ?_⟩
    by_cases hk : k = .codec
    · subst hk
      simp [hp.holds, Worker.stopping]
    · simp [hk]
  | staged lane r st a added files codecState he =>
    refine .inl ⟨by simp, ?_⟩
    by_cases hk : k = lane
    · subst hk
      rcases he.holds with hw | ⟨room, hw⟩ <;> simp [hw, Worker.stopping]
    · simp [hk]
  | crashed r room hw hx => simp [not_crashes hc] at hx
  | _ => exact .inl (by simp)

theorem Orderly.closed_of_done (hp : s.Orderly) (hs : s.Staffed) (hd : s.closing = .done)
    (k : Lane) : s.worker k = .gone ∧ (s.queue k).isOpen = false := by
  have hg : s.worker k = .gone := hp.joined k (by rw [hd]; rfl)
  exact ⟨hg, (hs k).1 hg⟩

theorem Transition.done (h : Transition s more t) (hp : s.Orderly) (hs : s.Staffed)
    (hd : s.closing = .done) :
    t.closing = .done ∧ ∀ k, pulls k more = [] ∧ pushes k more = [] ∧
      (t.queue k).messages = (s.queue k).messages := by
  have hclosed := hp.closed_of_done hs hd
  cases h with
  | entered o path hn | closing hn => cases hd.symm.trans hn
  | accepted r lane hr hl ho => simp [(hclosed lane).2] at ho
  | handedOff lane onward r hw ho => simp [(hclosed onward).2] at ho
  | taken lane r ms hw | stopped lane ms hw | published lane r hw | signaled lane id hw
  | released lane id hw | left lane hw | abandoned lane onward r hw => cases (hclosed lane).1.symm.trans hw
  | crashed r room hw => cases (hclosed .codec).1.symm.trans hw
  | prepared r room heaps he => cases (hclosed .codec).1.symm.trans he.holds
  | staged lane r st a added files codecState he =>
    rcases he.holds with hw | ⟨room, hw⟩
    all_goals cases (hclosed lane).1.symm.trans hw
  | marked lane following hm | unmarked lane following hm =>
    rw [hd] at hm
    cases hm
  | joined lane following hj =>
    rw [hd] at hj
    cases hj
  | dismantled hn => cases hd.symm.trans hn
  | _ => simp [hd]

theorem Transition.dismantling (h : Transition s more t) (hs : s.closing ≠ .done)
    (ht : t.closing = .done) (k : Lane) :
    pulls k more = [] ∧ pushes k more = [] ∧ (t.queue k).messages = [] := by
  cases h with
  | marked lane following hm | unmarked lane following hm =>
    exact absurd (by simpa using ht) hm.not_done
  | joined lane following hj => exact absurd ht hj.not_done
  | closing => cases ht
  | dismantled => cases k <;> simp
  | _ => exact absurd (by simpa using ht) hs

theorem Transition.fifo (h : Transition s more t) (hc : codec.Returns) (hp : Protocol log s)
    (hs : s.Staffed) (hf : Fifo log s) : Fifo (log ++ more) t where
  order k hd := by
    have hn : s.closing ≠ .done := fun hsd ↦ hd (h.done hp.orderly hs hsd).1
    rw [pulls_append, pushes_append, ← hf.order k hn, List.append_assoc, List.append_assoc,
      h.traffic hd k]
  front k := by
    by_cases hsd : s.closing = .done
    · obtain ⟨-, hk⟩ := h.done hp.orderly hs hsd
      rw [pulls_append, pushes_append, (hk k).1, (hk k).2.1, (hk k).2.2, List.append_nil,
        List.append_nil]
      exact hf.front k
    · have ho := hf.order k hsd
      by_cases hd : t.closing = .done
      · obtain ⟨hl, hp, hm⟩ := h.dismantling hsd hd k
        rw [pulls_append, pushes_append, hl, hp, hm, ← ho, List.append_nil, List.append_nil,
          List.append_nil]
        exact List.prefix_append _ _
      · refine ⟨[], ?_⟩
        rw [List.append_nil, pulls_append, pushes_append, ← ho, List.append_assoc, List.append_assoc,
          h.traffic hd k]
  stopped k := by
    rw [pulls_append, List.mem_append, hf.stopped k]
    rcases h.stopping hc k with ⟨hn, he⟩ | ⟨hm, he⟩
    · simp only [hn, he, or_false]
    · simp only [hm, he, or_true]

theorem fresh_fifo (config : Config) (heap : HeapId) (heaps : Heaps) (files : fs.State)
    (codecState : codec.State) :
    Fifo [] (fresh config heap heaps files codecState : Service fs codec) where
  order lane _ := by cases lane <;> rfl
  front lane := by cases lane <;> exact List.prefix_rfl
  stopped lane := by cases lane <;> simp [fresh, worker, Worker.stopping]

theorem Run.fifo (h : Run (fresh config heap heaps files codecState) log s) (hc : codec.Returns) :
    Fifo log s := by
  induction h with
  | refl => exact fresh_fifo config heap heaps files codecState
  | step m h hs ih => exact (step_transition m hs).fifo hc (h.protocol hc) h.census.staffed ih

/-- What was pushed before the marker has been taken once the worker has come to the marker. -/
theorem Fifo.taken_of_early (h : Fifo log s) {before after : List Incident} {i : Incident}
    (hlog : log = before ++ i :: after) (hi : i.push? lane = some (.payload r))
    (hm : .marked lane ∉ before) (hs : (s.worker lane).stopping = 1) : .taken lane r ∈ log := by
  have hshut := (h.stopped lane).2 hs
  have hpush : pushes lane log = pushes lane before ++ .payload r :: pushes lane after := by
    rw [hlog, pushes_append]
    exact congrArg _ (List.filterMap_cons_some hi)
  have hpulls : pulls lane log <+: pushes lane log :=
    (List.prefix_append _ _).trans (h.front lane)
  have hbefore : pushes lane before ++ [.payload r] <+: pushes lane log :=
    ⟨pushes lane after, by rw [hpush, List.append_assoc, List.singleton_append]⟩
  have hno : .shutdown ∉ pushes lane before ++ [.payload r] := by
    rw [List.mem_append, shutdown_mem_pushes]
    simp [hm]
  rcases List.prefix_or_prefix_of_prefix hpulls hbefore with hle | hle
  · exact absurd (hle.subset hshut) hno
  · exact payload_mem_pulls.1 (hle.subset (by simp))

end Service

end QueuedFiles
