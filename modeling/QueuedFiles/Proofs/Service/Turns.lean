import QueuedFiles.Proofs.Service.Aftermath

/-!
Whose turn it is at the file worker. It comes to requests in the order in which they entered its
queue, to each once, and is through with one before it takes the next.
-/

namespace QueuedFiles

/-- The request whose file has been touched. -/
def Incident.filed? : Incident → Option Nat
  | .staged .file r _ _ => some r.id
  | _ => none

/-- The incidents that tell that a request is complete. -/
def Incident.Completes (id : Nat) : Incident → Prop
  | .published k _ | .signaled k => k = id
  | _ => False

/-- The incidents that tell that a request is being submitted. -/
def Incident.Submits (id : Nat) : Incident → Prop
  | .entered k _ => k = id
  | .accepted r => r.id = id
  | _ => False

/-- The requests that have been pushed onto a queue, first one first. -/
def entries (lane : Lane) (log : List Incident) : List Nat :=
  ids ((pushes lane log).filterMap Message.payload?)

def exits (lane : Lane) (log : List Incident) : List Nat :=
  ids ((pulls lane log).filterMap Message.payload?)

/-- The request that a worker has taken and done nothing for yet. -/
def Worker.begun : Worker → List Nat
  | .serving r => [r.id]
  | .idle | .coding .. | .routing .. | .signaling _ | .releasing _ | .leaving | .gone => []

@[simp] theorem Worker.begun_eq :
    (∀ r, (serving r).begun = [r.id]) ∧ (∀ r room, (coding r room).begun = []) ∧
    (∀ r next, (routing r next).begun = []) ∧ idle.begun = [] ∧
    (∀ id, (signaling id).begun = []) ∧ (∀ id, (releasing id).begun = []) ∧ leaving.begun = [] ∧
    gone.begun = [] := by
  simp [begun]

theorem entries_append (lane : Lane) (log more : List Incident) :
    entries lane (log ++ more) = entries lane log ++ entries lane more := by
  rw [entries, pushes_append, List.filterMap_append, ids_append]
  rfl

theorem exits_append (lane : Lane) (log more : List Incident) :
    exits lane (log ++ more) = exits lane log ++ exits lane more := by
  rw [exits, pulls_append, List.filterMap_append, ids_append]
  rfl

theorem mem_entries {lane : Lane} {log : List Incident} {id : Nat} :
    id ∈ entries lane log ↔ ∃ i ∈ log, ∃ r, i.push? lane = some (.payload r) ∧ r.id = id := by
  simp only [entries, ids, pushes, List.mem_map, List.mem_filterMap]
  constructor
  · rintro ⟨r, ⟨m, ⟨i, hi, hp⟩, hm⟩, hid⟩
    cases m <;> simp only [Message.payload?, reduceCtorEq, Option.some.injEq] at hm
    exact ⟨i, hi, r, hm ▸ hp, hid⟩
  · rintro ⟨i, hi, r, hp, hid⟩
    exact ⟨r, ⟨_, ⟨i, hi, hp⟩, rfl⟩, hid⟩

theorem mem_exits {lane : Lane} {log : List Incident} {id : Nat} :
    id ∈ exits lane log ↔ ∃ r, r.id = id ∧ .taken lane r ∈ log := by
  simp only [exits, ids, List.mem_map, List.mem_filterMap]
  constructor
  · rintro ⟨r, ⟨m, hp, hm⟩, hid⟩
    cases m <;> simp only [Message.payload?, reduceCtorEq, Option.some.injEq] at hm
    exact ⟨r, hid, payload_mem_pulls.1 (hm ▸ hp)⟩
  · rintro ⟨r, hid, hr⟩
    exact ⟨r, ⟨_, payload_mem_pulls.2 hr, rfl⟩, hid⟩

theorem sublist_of_front {α : Type} {l m : List α} {a b : α} (hm : m.Nodup) (hl : l <+: m)
    (hb : b ∈ l) (h : [a, b].Sublist m) : [a, b].Sublist l := by
  obtain ⟨rest, rfl⟩ := hl
  obtain ⟨x, y, hxy, hx, hy⟩ := List.sublist_append_iff.1 h
  have hno : b ∉ y := fun hby ↦ List.disjoint_of_nodup_append hm hb (hy.subset hby)
  cases y with
  | nil =>
    rw [List.append_nil] at hxy
    rwa [hxy]
  | cons c y =>
    -- The last of the two is behind the prefix.
    refine absurd ?_ hno
    have hlast := congrArg List.getLast? hxy
    rw [List.getLast?_append] at hlast
    exact List.mem_of_getLast? (by simpa using hlast.symm)

namespace Service

variable {fs : FileSystem} {codec : Codec} {s t : Service fs codec}
  {log more : List Incident} {q r : Request} {p : Post} {o : Order} {config : Config}
  {heap : HeapId} {heaps : Heaps} {files : fs.State} {codecState : codec.State}

attribute [local simp] exits pulls Incident.pull? Incident.filed? List.filterMap_cons
  Message.payload?

/-- What the file worker takes it serves before anything else. -/
theorem Transition.filing (h : Transition s more t) :
    (s.worker .file).begun ++ exits .file more =
      more.filterMap Incident.filed? ++ (t.worker .file).begun := by
  cases h with
  | taken lane r ms hw => cases lane <;> simp [hw, Request.begin]
  | stopped lane ms hw => cases lane <;> simp [hw]
  | published lane r hw | handedOff lane onward r hw | abandoned lane onward r hw
  | signaled lane id hw | released lane id hw | left lane hw => cases lane <;> simp [hw]
  | staged lane r st a added files codecState he =>
    cases he with
    | file hw => simp [hw]
    | overflow | compress | decompress => simp
  | dismantled => simp [Function.comp_def]
  | _ => simp

theorem Run.exits_eq (h : Run (fresh config heap heaps files codecState) log s) :
    exits .file log = log.filterMap Incident.filed? ++ (s.worker .file).begun := by
  induction h with
  | refl => rfl
  | step m h hs ih =>
    rw [exits_append, ih, List.append_assoc, (step_transition m hs).filing, List.filterMap_append,
      List.append_assoc]

theorem Fifo.exits_entries (h : Fifo log s) (lane : Lane) : exits lane log <+: entries lane log :=
  (((List.prefix_append _ _).trans (h.front lane)).filterMap _).map _

theorem Run.filed_entries (h : Run (fresh config heap heaps files codecState) log s)
    (hc : codec.Returns) : log.filterMap Incident.filed? <+: entries .file log := by
  refine List.IsPrefix.trans ?_ ((h.fifo hc).exits_entries .file)
  rw [h.exits_eq]
  exact List.prefix_append _ _

theorem Run.entered_queue (h : Run (fresh config heap heaps files codecState) log s)
    {lane : Lane} (hr : s.At r p) (hid : r.id ∈ entries lane log) :
    (.accepted ∈ legs r.id log ∧ entryLane r.operation r.flags = lane) ∨
      .handedOff lane ∈ legs r.id log := by
  obtain ⟨i, hi, q, hp, he⟩ := mem_entries.1 hid
  cases i with
  | accepted x =>
    obtain ⟨hlane, rfl⟩ : entryLane x.operation x.flags = lane ∧ x = q := by
      simpa [Incident.push?] using hp
    obtain ⟨o, ho, hcx⟩ := h.shown_order hi (List.mem_singleton_self x)
    have hcr := h.carries hr (he ▸ ho)
    refine .inl ⟨List.mem_filterMap.2 ⟨_, hi, by simp [Incident.leg?, he]⟩, ?_⟩
    rw [hcr.operation, hcr.flags, ← hcx.operation, ← hcx.flags]
    exact hlane
  | handedOff onward x =>
    obtain ⟨rfl, rfl⟩ : onward = lane ∧ x = q := by simpa [Incident.push?] using hp
    exact .inr (handedOff_mem_legs.2 ⟨x, he, hi⟩)
  | marked k => simp [Incident.push?] at hp
  | _ => cases hp

attribute [local simp] entries pushes Incident.push?

theorem Transition.pushing (h : Transition s more t) (lane : Lane) :
    entries lane more = [] ∨ ∃ r, entries lane more = [r.id] ∧ (s.At r .caller ∨
      ∃ k, s.At r (.hand k (.routing (.handOff lane)))) := by
  cases h with
  | accepted r k hr hl =>
    by_cases hk : k = lane
    · exact .inr ⟨r, by simp [← hl, hk], .inl hr⟩
    · exact .inl (by simp [← hl, hk])
  | handedOff k onward r hw =>
    by_cases hk : onward = lane
    · subst hk
      exact .inr ⟨r, by simp, .inr ⟨k, hw⟩⟩
    · exact .inl (by simp [hk])
  | marked k => exact .inl (by by_cases hk : k = lane <;> simp [hk])
  | _ => exact .inl (by simp)

theorem Run.entries_nodup (h : Run (fresh config heap heaps files codecState) log s) (lane : Lane) :
    (entries lane log).Nodup := by
  induction h with
  | refl => exact List.nodup_nil
  | @step log s t m h hs ih =>
    have ht := step_transition m hs
    generalize s.record m = more at ht
    rw [entries_append]
    rcases ht.pushing lane with hno | ⟨r, hone, hr⟩
    · rwa [hno, List.append_nil]
    · rw [hone, List.nodup_append]
      refine ⟨ih, List.nodup_singleton _, ?_⟩
      rintro id hid _ hsame rfl
      obtain rfl := List.mem_singleton.1 hsame
      rcases hr with hr | ⟨k, hr⟩
      · have hj := Journey.caller (h.bearing hr).journey
        rcases h.entered_queue hr hid with ⟨hm, -⟩ | hm
        all_goals simp [hj] at hm
      · have hj := (h.bearing hr).journey
        rcases h.entered_queue hr hid with ⟨-, hlane⟩ | hm
        · rcases Journey.routing hj with ⟨hcomp, ⟨hread, -, rfl⟩ | ⟨hwrite, -, rfl⟩⟩
          · simp [entryLane_eq, hread] at hlane
          · have hf : r.flags.contains .useCompression = true := hcomp
            simp [entryLane_eq, hwrite, hf] at hlane
        · exact (Journey.not_handedOff hj).1 hm

theorem Run.filed_nodup (h : Run (fresh config heap heaps files codecState) log s)
    (hc : codec.Returns) : (log.filterMap Incident.filed?).Nodup :=
  (h.entries_nodup .file).sublist (h.filed_entries hc).sublist

theorem pushed_in_order (h : [.accepted q, .accepted r].Sublist log)
    (hq : entryLane q.operation q.flags = .file) (hr : entryLane r.operation r.flags = .file) :
    [q.id, r.id].Sublist (entries .file log) := by
  have hmap := ((h.filterMap (Incident.push? .file)).filterMap Message.payload?).map (·.id)
  simpa [ids, hq, hr] using hmap

/-- Requests that enter at the file queue are served in the order in which they entered it. -/
theorem Run.served_in_order (h : Run (fresh config heap heaps files codecState) log s)
    (hc : codec.Returns) (hqr : [.accepted q, .accepted r].Sublist log)
    (hq : entryLane q.operation q.flags = .file) (hr : entryLane r.operation r.flags = .file)
    (hfiled : r.id ∈ log.filterMap Incident.filed?) :
    [q.id, r.id].Sublist (log.filterMap Incident.filed?) :=
  sublist_of_front (h.entries_nodup .file) (h.filed_entries hc) hfiled (pushed_in_order hqr hq hr)

theorem Run.filed_order (h : Run (fresh config heap heaps files codecState) log s) {id : Nat}
    (hid : id ∈ log.filterMap Incident.filed?) :
    (∃ o, .entered id o ∈ log) ∧ id ∈ ids (log.filterMap Incident.accepted?) := by
  obtain ⟨i, hi, hf⟩ := List.mem_filterMap.1 hid
  obtain ⟨pre, more, rest, u, v, hu, ht, -, -, rfl, hm⟩ := h.split hi
  cases i with
  | staged lane r after result =>
    cases lane with
    | codec => cases hf
    | file =>
      cases hf
      obtain ⟨⟨task, hat⟩, -⟩ := ht.staged_at hm
      obtain ⟨o, ho, -⟩ := (hu.bearing hat).order
      have hacc := List.count_pos_iff.1 (hu.census.accepted_of_held (hat.held_pos rfl))
      refine ⟨⟨o, by simp [ho]⟩, ?_⟩
      rw [List.append_assoc, List.filterMap_append, ids_append]
      exact List.mem_append_left _ hacc
  | _ => cases hf

theorem Run.filed_of_published (h : Run (fresh config heap heaps files codecState) log s) {id : Nat}
    (hid : id ∈ log.filterMap Incident.published?) : id ∈ log.filterMap Incident.filed? := by
  obtain ⟨o, ho⟩ := mem_published.1 hid
  obtain ⟨r, lane, rfl, -, hb⟩ := h.published_bearing ho
  obtain ⟨ok, hok⟩ := Journey.complete_staged hb.journey
  obtain ⟨i, hi, hleg⟩ := List.mem_filterMap.1 hok
  cases i <;> simp [Incident.leg?] at hleg
  obtain ⟨hid, rfl, -⟩ := hleg
  exact List.mem_filterMap.2 ⟨_, hi, congrArg some hid⟩

theorem Run.published_of_completes (h : Run (fresh config heap heaps files codecState) log s)
    {i : Incident} {id : Nat} (hi : i ∈ log) (hid : i.Completes id) :
    id ∈ log.filterMap Incident.published? := by
  cases i with
  | published k o =>
    obtain rfl : k = id := hid
    exact mem_published.2 ⟨o, hi⟩
  | signaled k =>
    obtain rfl : k = id := hid
    exact ((h.census.signaled_iff k).1 (mem_signaled.2 hi)).1
  | _ => cases hid

theorem exists_of_sublist {i j : Incident} (h : [i, j].Sublist log) :
    ∃ before after, log = before ++ j :: after ∧ i ∈ before := by
  obtain ⟨x, y, rfl, hi, hj⟩ := List.cons_sublist_iff.1 h
  obtain ⟨y, z, rfl⟩ := List.append_of_mem (List.singleton_sublist.1 hj)
  exact ⟨x ++ y, z, by simp, List.mem_append_left _ hi⟩

/-- What is complete before another request is submitted has come before it to its file. -/
theorem Run.precedes (h : Run (fresh config heap heaps files codecState) log s) {i j : Incident}
    {a b : Nat} (hij : [i, j].Sublist log) (hi : i.Completes a) (hj : j.Submits b)
    (hb : b ∈ log.filterMap Incident.filed?) :
    [a, b].Sublist (log.filterMap Incident.filed?) := by
  obtain ⟨before, after, hlog, hmem⟩ := exists_of_sublist hij
  have hndrop : ∀ r, j ≠ .dropped r := by
    rintro r rfl
    cases hj
  obtain ⟨u, v, hu, -, hv, -⟩ := h.cut hlog hndrop
  have ha := hu.filed_of_published (hu.published_of_completes hmem hi)
  have hno : b ∉ before.filterMap Incident.filed? := by
    intro hfiled
    obtain ⟨⟨o, ho⟩, hacc⟩ := hu.filed_order hfiled
    have hent : b ∈ before.filterMap Incident.entered? := List.mem_filterMap.2 ⟨_, ho, rfl⟩
    have hent := List.count_pos_iff.2 hent
    have hacc := List.count_pos_iff.2 hacc
    have hentle := hv.census.entered_le_one b
    have haccle := hv.census.accepted_le_one b
    cases j with
    | entered k o =>
      obtain rfl : k = b := hj
      simp [Incident.entered?] at hentle
      omega
    | accepted r =>
      obtain rfl : r.id = b := hj
      simp [Incident.accepted?] at haccle
      omega
    | _ => cases hj
  rw [hlog, List.filterMap_append] at hb ⊢
  exact (List.singleton_sublist.2 ha).append
    (List.singleton_sublist.2 ((List.mem_append.1 hb).resolve_left hno))

theorem Transition.signaling_at (h : Transition s more t) {lane : Lane} {id : Nat}
    (hs : s.worker lane ≠ .signaling id) (ht : t.worker lane = .signaling id) :
    ∃ r, s.At r (.hand lane (.routing .complete)) ∧ r.id = id ∧
      more = [.published r.id r.completed.outcome] := by
  cases h with
  | published k r hw =>
    by_cases hk : lane = k
    · subst hk
      exact ⟨r, hw, by simpa using ht, rfl⟩
    · exact absurd (by simpa [hk] using ht) hs
  | taken k | stopped k | staged k | handedOff k | abandoned k | signaled k | released k | left k =>
    by_cases hk : lane = k
    · simp [hk] at ht
    · exact absurd (by simpa [hk] using ht) hs
  | prepared | crashed =>
    by_cases hk : lane = .codec
    · simp [hk] at ht
    · exact absurd (by simpa [hk] using ht) hs
  | _ => exact absurd (by simpa using ht) hs

theorem Run.signaling_bearing (h : Run (fresh config heap heaps files codecState) log s)
    {lane : Lane} {id : Nat} (hw : s.worker lane = .signaling id) :
    ∃ r, r.id = id ∧ Bearing config heap log r (.hand lane (.routing .complete)) := by
  induction h with
  | refl => cases lane <;> cases hw
  | @step log s t m h hs ih =>
    have ht := step_transition m hs
    generalize s.record m = more at ht
    have hkept : s.worker lane = .signaling id →
        ∃ r, r.id = id ∧ Bearing config heap (log ++ more) r (.hand lane (.routing .complete)) := by
      intro hws
      obtain ⟨r, rfl, hb⟩ := ih hws
      have hpub : r.id ∈ log.filterMap Incident.published? := by
        have hf := h.census.flags r.id
        rw [← List.count_pos_iff]
        cases lane <;> simp [hws] at hf <;> omega
      refine ⟨r, rfl, hb.append (ht.legs_eq_nil h.census.staffed ?_)⟩
      rintro q p hq he
      exact (h.census.over hq).1 (he ▸ hpub)
    by_cases hws : s.worker lane = .signaling id
    · exact hkept hws
    · obtain ⟨r, hr, rfl, hm⟩ := ht.signaling_at hws hw
      have hquiet : legs r.id more = [] := by
        rw [hm]
        rfl
      exact ⟨r, rfl, (h.bearing hr).append hquiet⟩

/-- A plain request that the file worker has taken is complete before the worker takes another. -/
theorem Run.taken_complete (h : Run (fresh config heap heaps files codecState) log s)
    (hc : codec.Returns) (hr : .accepted r ∈ log) (hplain : r.isCompressed = false)
    (htaken : r.id ∈ exits .file log) (hidle : s.worker .file = .idle) : .signaled r.id ∈ log := by
  have hlane : ∀ {q p}, Bearing config heap log q p → q.id = r.id → p.lane? ≠ some .codec := by
    intro q p hb he hl
    have hcomp := Journey.codec_lane hb.journey hl
    rw [(h.same_order hr hb he).2, hplain] at hcomp
    cases hcomp
  have hpub : r.id ∈ log.filterMap Incident.published? := by
    obtain ⟨place, hplace, -⟩ := h.census.one_place hr
    have hpos : 0 < s.presence log r.id place := by omega
    cases place with
    | completed => exact List.count_pos_iff.1 hpos
    | queue lane =>
      obtain ⟨q, hq, he⟩ := List.mem_map.1 (List.count_pos_iff.1 hpos)
      have hat : s.At q (.queue lane) := hq
      have hb := h.bearing hat
      cases lane with
      | codec => exact absurd rfl (hlane hb he)
      | file =>
        obtain ⟨x, hx, hmem⟩ := mem_exits.1 htaken
        exact absurd (taken_mem_legs.2 ⟨x, hx.trans he.symm, hmem⟩)
          (Journey.queue_untaken hb.journey)
    | worker lane =>
      obtain ⟨q, hq, he⟩ := List.mem_map.1 (List.count_pos_iff.1 hpos)
      obtain ⟨task, hat⟩ := at_of_requests hq
      cases lane with
      | codec => exact absurd rfl (hlane (h.bearing hat) he)
      | file => cases task <;> cases hidle.symm.trans hat
    | dropped =>
      obtain ⟨q, he, hq⟩ := mem_dropped.1 (List.count_pos_iff.1 hpos)
      obtain ⟨p, hb, -⟩ := h.dropped_bearing hc hq
      have hcomp := (h.dropped_late hc hq).2.1
      rw [(h.same_order hr hb he).2, hplain] at hcomp
      cases hcomp
  refine mem_signaled.1 ((h.census.signaled_iff r.id).2 ⟨hpub, ?_⟩)
  intro lane hw
  cases lane with
  | file => cases hidle.symm.trans hw
  | codec =>
    obtain ⟨q, he, hb⟩ := h.signaling_bearing hw
    exact hlane hb he rfl

/-- When a plain request is complete, those that entered the file queue before it are too. -/
theorem Run.plain_complete (h : Run (fresh config heap heaps files codecState) log s)
    (hc : codec.Returns) (hqr : [.accepted q, .accepted r].Sublist log)
    (hq : q.isCompressed = false) (hr : r.isCompressed = false) {i : Incident} (hi : i ∈ log)
    (hcomp : i.Completes r.id) : .signaled q.id ∈ log := by
  have hlane : ∀ {x : Request}, x.isCompressed = false → entryLane x.operation x.flags = .file := by
    intro x hx
    have hf : x.flags.contains .useCompression = false := hx
    simp [entryLane_eq, hf]
  have hfiled := h.filed_of_published (h.published_of_completes hi hcomp)
  have hexit : r.id ∈ exits .file log := by
    rw [h.exits_eq]
    exact List.mem_append_left _ hfiled
  obtain ⟨x, hx, htaken⟩ := mem_exits.1 hexit
  obtain ⟨before, after, rfl⟩ := List.append_of_mem htaken
  obtain ⟨u, v, hu, ht, hv, -⟩ := h.cut rfl fun _ hd ↦ by cases hd
  have hidle := (ht.taken_at hu.census.staffed (List.mem_singleton_self _)).2.1
  have hnodup := h.entries_nodup .file
  have hexits : exits .file before ++ [r.id] <+:
      entries .file (before ++ .taken .file x :: after) := by
    refine List.IsPrefix.trans ⟨exits .file after, ?_⟩ ((h.fifo hc).exits_entries .file)
    rw [exits_append, ← List.singleton_append (l := after), exits_append, List.append_assoc]
    simp [hx]
  have hsub := pushed_in_order hqr (hlane hq) (hlane hr)
  have hboth := sublist_of_front hnodup hexits (by simp) hsub
  have hne : q.id ≠ r.id := by simpa using hnodup.sublist hsub
  have hbefore : q.id ∈ exits .file before := by
    have hmem := hboth.subset (List.mem_cons_self ..)
    simpa [hne] using hmem
  have hfiledq : q.id ∈ before.filterMap Incident.filed? := by
    have hex := hu.exits_eq
    rw [hidle, Worker.begun_eq.2.2.2.1, List.append_nil] at hex
    exact hex ▸ hbefore
  obtain ⟨y, hy, hacc⟩ := mem_accepted.1 (hu.filed_order hfiledq).2
  have hyplain : y.isCompressed = false := by
    have hlog : .accepted q ∈ before ++ .taken .file x :: after := hqr.subset (List.mem_cons_self ..)
    have hflags := (h.shown_same (List.mem_append_left _ hacc) (List.mem_singleton_self y) hlog
      (List.mem_singleton_self q) hy).2
    rw [Request.isCompressed, hflags]
    exact hq
  have hsig := hu.taken_complete hc hacc hyplain (hy ▸ hbefore) hidle
  exact List.mem_append_left _ (hy ▸ hsig)

end Service

end QueuedFiles
