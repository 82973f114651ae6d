import QueuedFiles.Proofs.Service.Census

/-!
What the callers see: every request that was not refused has one ticket, and the ticket shows the
outcome and the flag exactly when the log does.
-/

namespace QueuedFiles

namespace Ticket

/-- The ticket shows what the log says of its request; its buffer may have been handed over. -/
structure Reflects (log : List Incident) (t : Ticket) : Prop where
  signaled : t.signaled = true ↔ t.id ∈ log.filterMap Incident.signaled?
  released : t.released = true ↔ t.id ∈ log.filterMap Incident.released?
  pending : t.outcome = none → t.id ∉ log.filterMap Incident.published?
  filled : ∀ left, t.outcome = some left → ∃ o, .published t.id o ∈ log ∧
    left.result = o.result ∧ left.size = o.size ∧ (left.buffer = o.buffer ∨ left.buffer = none)

/-- A ticket that has at most lost its buffer. -/
structure Emptied (t u : Ticket) : Prop where
  id : u.id = t.id
  signaled : u.signaled = t.signaled
  released : u.released = t.released
  outcome : u.outcome = t.outcome ∨ u.outcome = t.outcome.map fun o ↦ { o with buffer := none }

variable {t u : Ticket} {log more : List Incident}

theorem Emptied.refl (t : Ticket) : t.Emptied t := ⟨rfl, rfl, rfl, .inl rfl⟩

theorem emptied_look (t : Ticket) (q : Question) : t.Emptied (t.look q).2 := by
  cases q with
  | buffer => exact ⟨rfl, rfl, rfl, .inr rfl⟩
  | result | code | size => exact .refl t

theorem emptied_forget (t : Ticket) : t.Emptied t.forget := by
  unfold forget
  dsimp only
  split
  · exact ⟨rfl, rfl, rfl, .inr rfl⟩
  · exact ⟨rfl, rfl, rfl, .inl rfl⟩

theorem emptied_release (t : Ticket) : Emptied { t with released := true } t.release := by
  unfold release
  dsimp only
  split
  · exact .refl _
  · exact ⟨rfl, rfl, rfl, .inr rfl⟩

theorem Reflects.emptied (h : t.Reflects log) (hu : t.Emptied u) : u.Reflects log where
  signaled := by
    rw [hu.signaled, hu.id]
    exact h.signaled
  released := by
    rw [hu.released, hu.id]
    exact h.released
  pending hn := by
    rw [hu.id]
    rcases hu.outcome with ho | ho
    · exact h.pending (ho ▸ hn)
    · exact h.pending (Option.map_eq_none_iff.1 (ho ▸ hn))
  filled left hl := by
    rw [hu.id]
    rcases hu.outcome with ho | ho
    · exact h.filled left (ho ▸ hl)
    · obtain ⟨before, hb, rfl⟩ := Option.map_eq_some_iff.1 (ho ▸ hl)
      obtain ⟨o, hm, hr, hs, -⟩ := h.filled before hb
      exact ⟨o, hm, hr, hs, .inr rfl⟩

theorem Reflects.append (h : t.Reflects log) (hs : t.id ∉ more.filterMap Incident.signaled?)
    (hr : t.id ∉ more.filterMap Incident.released?)
    (hp : t.id ∉ more.filterMap Incident.published?) : t.Reflects (log ++ more) where
  signaled := by simp [h.signaled, hs]
  released := by simp [h.released, hr]
  pending hn := by
    rw [List.filterMap_append, List.mem_append]
    exact not_or.2 ⟨h.pending hn, hp⟩
  filled left hl := by
    obtain ⟨o, hm, ho⟩ := h.filled left hl
    exact ⟨o, List.mem_append_left _ hm, ho⟩

theorem Reflects.publish (h : t.Reflects log) (o : Outcome) :
    (t.publish o).Reflects (log ++ [.published t.id o]) where
  signaled := by simpa [Ticket.publish, Incident.signaled?] using h.signaled
  released := by simpa [Ticket.publish, Incident.released?] using h.released
  pending hn := by cases hn
  filled left hl := by
    cases hl
    exact ⟨o, by simp [Ticket.publish], rfl, rfl, .inl rfl⟩

theorem Reflects.signal (h : t.Reflects log) : t.signal.Reflects (log ++ [.signaled t.id]) where
  signaled := by simp [Ticket.signal, Incident.signaled?]
  released := by simpa [Ticket.signal, Incident.released?] using h.released
  pending hn := by simpa [Ticket.signal, Incident.published?] using h.pending hn
  filled left hl := by
    obtain ⟨o, hm, ho⟩ := h.filled left hl
    exact ⟨o, List.mem_append_left _ hm, ho⟩

theorem Reflects.release (h : t.Reflects log) : t.release.Reflects (log ++ [.released t.id]) := by
  refine Reflects.emptied ⟨?_, ?_, ?_, ?_⟩ t.emptied_release
  · simpa [Incident.signaled?] using h.signaled
  · simp [Incident.released?]
  · simpa [Incident.published?] using h.pending
  · intro left hl
    obtain ⟨o, hm, ho⟩ := h.filled left hl
    exact ⟨o, List.mem_append_left _ hm, ho⟩

theorem mem_updateAll {ts : List Ticket} {id : Nat} {f : Ticket → Ticket}
    (h : u ∈ updateAll ts id f) : ∃ t ∈ ts, t.id = id ∧ u = f t ∨ t.id ≠ id ∧ u = t := by
  obtain ⟨t, ht, rfl⟩ := List.mem_map.1 h
  by_cases hid : t.id = id
  · exact ⟨t, ht, .inl ⟨hid, if_pos hid⟩⟩
  · exact ⟨t, ht, .inr ⟨hid, if_neg hid⟩⟩

theorem map_id_updateAll (ts : List Ticket) (id : Nat) {f : Ticket → Ticket}
    (hf : ∀ t, (f t).id = t.id) : (updateAll ts id f).map (·.id) = ts.map (·.id) := by
  rw [updateAll, List.map_map]
  refine List.map_congr_left fun t _ ↦ ?_
  simp only [Function.comp_apply]
  split
  · exact hf t
  · rfl

end Ticket

namespace Service

variable {fs : FileSystem} {codec : Codec} {s t : Service fs codec} {log more : List Incident}

/-- The tickets of a run: one for each number that was not refused, and each as the log has it. -/
structure Desk (log : List Incident) (s : Service fs codec) : Prop where
  numbers : ∀ k, (s.tickets.map (·.id)).count k + (ids (log.filterMap Incident.refused?)).count k =
    (log.filterMap Incident.entered?).count k
  reflects : ∀ t ∈ s.tickets, t.Reflects log

theorem Desk.nodup (hd : Desk log s) (hs : Census log s) : (s.tickets.map (·.id)).Nodup := by
  rw [List.nodup_iff_count_le_one]
  intro k
  have := hd.numbers k
  have := hs.entered_le_one k
  omega

attribute [local simp] List.filterMap_cons Incident.entered? Incident.refused? Incident.published?
  Incident.signaled? Incident.released?

theorem Transition.tickets (h : Transition s more t) (hs : Census log s) (hd : Desk log s) (k : Nat) :
    (t.tickets.map (·.id)).count k + (ids (more.filterMap Incident.refused?)).count k =
      (s.tickets.map (·.id)).count k + (more.filterMap Incident.entered?).count k := by
  cases h with
  | entered o path =>
    simp [Ticket.ofRequest, Order.request]
  | refused r hr =>
    have hone := count_ids_of_mem hs.nodup_entering hr
    have hn := hd.numbers r.id
    have hc := hs.callers r.id
    have hle := hs.entered_le_one r.id
    have hf := count_map_filter Ticket.id s.tickets r.id k
    by_cases hk : k = r.id
    · subst hk
      simp [hf]
      omega
    · have hne : r.id ≠ k := Ne.symm hk
      simp [hf, hk, hne]
  | published lane r =>
    simp [Ticket.map_id_updateAll, Ticket.publish]
  | signaled lane id =>
    simp [Ticket.map_id_updateAll, Ticket.signal]
  | released lane id =>
    have hid : ∀ u : Ticket, u.release.id = u.id := fun u ↦ (Ticket.emptied_release u).id
    simp [Ticket.map_id_updateAll, hid]
  | asked id q =>
    have hid : ∀ u : Ticket, (u.look q).2.id = u.id := fun u ↦ (Ticket.emptied_look u q).id
    simp [Ticket.map_id_updateAll, hid]
  | forgot id =>
    have hid : ∀ u : Ticket, u.forget.id = u.id := fun u ↦ (Ticket.emptied_forget u).id
    simp [Ticket.map_id_updateAll, hid]
  | accepted | taken | stopped | staged | handedOff | abandoned | left | crashed | marked
  | dismantled => simp
  | _ => simp

theorem Transition.desk (h : Transition s more t) (hs : Census log s) (hd : Desk log s) :
    Desk (log ++ more) t where
  numbers k := by
    have := h.tickets hs hd k
    have := hd.numbers k
    simp only [List.filterMap_append, ids_append, List.count_append]
    omega
  reflects u hu := by
    cases h with
    | newHeap | turnedAway | closing | unmarked | joined | gaveBack =>
      simpa using hd.reflects u hu
    | accepted | taken | stopped | staged | handedOff | abandoned | left | crashed | marked
    | prepared | dismantled =>
      refine (hd.reflects u (by simpa using hu)).append ?_ ?_ ?_ <;> simp
    | entered o path =>
      rcases List.mem_append.1 hu with hu | hu
      · refine (hd.reflects u hu).append ?_ ?_ ?_ <;> simp
      · obtain rfl := List.mem_singleton.1 hu
        have hn := hs.unborn
        refine Ticket.Reflects.append ⟨?_, ?_, ?_, ?_⟩ ?_ ?_ ?_
        · exact iff_of_false Bool.false_ne_true hn.2.1
        · exact iff_of_false Bool.false_ne_true hn.2.2
        · exact fun _ ↦ hn.1
        · exact fun left hl ↦ by cases hl
        · simp
        · simp
        · simp
    | refused r =>
      refine (hd.reflects u (List.mem_of_mem_filter hu)).append ?_ ?_ ?_ <;> simp
    | published lane r =>
      rcases Ticket.mem_updateAll (by simpa using hu) with ⟨k, hk, ⟨hid, rfl⟩ | ⟨hid, rfl⟩⟩
      · rw [← hid]
        exact (hd.reflects k hk).publish _
      · refine (hd.reflects u hk).append ?_ ?_ ?_ <;> simp [hid]
    | signaled lane id =>
      rcases Ticket.mem_updateAll (by simpa using hu) with ⟨k, hk, ⟨rfl, rfl⟩ | ⟨hid, rfl⟩⟩
      · exact (hd.reflects k hk).signal
      · refine (hd.reflects u hk).append ?_ ?_ ?_ <;> simp [hid]
    | released lane id =>
      rcases Ticket.mem_updateAll (by simpa using hu) with ⟨k, hk, ⟨rfl, rfl⟩ | ⟨hid, rfl⟩⟩
      · exact (hd.reflects k hk).release
      · refine (hd.reflects u hk).append ?_ ?_ ?_ <;> simp [hid]
    | asked id q =>
      rw [List.append_nil]
      rcases Ticket.mem_updateAll (by simpa using hu) with ⟨k, hk, ⟨rfl, rfl⟩ | ⟨hid, rfl⟩⟩
      · exact (hd.reflects k hk).emptied (k.emptied_look q)
      · exact hd.reflects u hk
    | forgot id =>
      rw [List.append_nil]
      rcases Ticket.mem_updateAll (by simpa using hu) with ⟨k, hk, ⟨rfl, rfl⟩ | ⟨hid, rfl⟩⟩
      · exact (hd.reflects k hk).emptied k.emptied_forget
      · exact hd.reflects u hk

theorem fresh_desk (config : Config) (heap : HeapId) (heaps : Heaps) (files : fs.State)
    (codecState : codec.State) :
    Desk [] (fresh config heap heaps files codecState : Service fs codec) where
  numbers k := by simp [fresh]
  reflects t ht := by cases ht

variable {config : Config} {heap : HeapId} {heaps : Heaps} {files : fs.State}
  {codecState : codec.State}

theorem Run.desk (h : Run (fresh config heap heaps files codecState) log s) : Desk log s := by
  induction h with
  | refl => exact fresh_desk config heap heaps files codecState
  | step m h hs ih => exact (step_transition m hs).desk h.census ih

end Service

end QueuedFiles
