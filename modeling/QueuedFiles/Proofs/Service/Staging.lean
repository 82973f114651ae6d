import QueuedFiles.Proofs.Service.Conservation
import QueuedFiles.Proofs.Service.Reference

/-!
The stages that a log tells of: the state in which each has ended, what it has done to the files, and
which of them is behind an outcome. Nothing is asked of the codec here.
-/

namespace QueuedFiles

@[simp] theorem Staged.payload_routed (staged : Staged) (lane : Lane) :
    (staged.routed lane).payload = staged.request.payload := by
  simp [Request.payload]

namespace FileStage

variable {fs : FileSystem} {files after : fs.State} {heaps : Heaps} {r : Request} {staged : Staged}

theorem run_of_read (hop : r.operation = .read) : run fs files heaps r = read fs files heaps r := by
  simp [run, hop]

theorem run_of_write (hop : r.operation = .write) : run fs files heaps r = write fs files heaps r := by
  simp [run, hop]

/-- A read that succeeds leaves the whole file as its payload; the terminator does not count. -/
theorem read_succeeded (hop : r.operation = .read)
    (hs : run fs files heaps r = (staged, after)) (hok : staged.result = .ok ()) :
    Reference.readFile fs files r.path = (.ok staged.request.payload, after) ∧
      staged.request.payload.length = staged.request.size ∧
      staged.request.buffer.map (·.bytes) = some (if r.flags.contains .nullTerminate then
        staged.request.payload ++ [Limits.terminator] else staged.request.payload) := by
  have heq := read_eq files heaps r
  rw [run_of_read hop] at hs
  rw [hs] at heq
  obtain ⟨hfiles, hread⟩ := heq
  cases hc : (Reference.readFile fs files r.path).1 with
  | error e =>
    rw [hc] at hread
    cases hread.1.symm.trans hok
  | ok data =>
    rw [hc] at hread
    obtain ⟨-, b, hreq, hb⟩ := hread
    have hpay : staged.request.payload = data := by
      rw [hreq, Request.payload]
      simp only [hb]
      split <;> simp
    refine ⟨?_, by rw [hpay, hreq], ?_⟩
    · rw [hpay]
      exact Prod.ext hc hfiles.symm
    · rw [hpay, hreq]
      simp [hb]

theorem read_failed (hop : r.operation = .read) (hs : run fs files heaps r = (staged, after))
    {e : Error} (hfail : staged.result = .error e) :
    Reference.readFile fs files r.path = (.error e, after) ∧ staged.request = r := by
  have heq := read_eq files heaps r
  rw [run_of_read hop] at hs
  rw [hs] at heq
  obtain ⟨hfiles, hread⟩ := heq
  cases hc : (Reference.readFile fs files r.path).1 with
  | ok data =>
    rw [hc] at hread
    cases hread.1.symm.trans hfail
  | error e' =>
    rw [hc] at hread
    obtain ⟨hresult, hreq⟩ := hread
    cases hfail.symm.trans hresult
    exact ⟨Prod.ext hc hfiles.symm, hreq⟩

/-- A write does to the files what its payload does there, and counts that payload if it succeeds. -/
theorem write_staged (hop : r.operation = .write) (hs : run fs files heaps r = (staged, after)) :
    Reference.writeFile fs files r.path (r.flags.contains .appendMode) r.payload =
        (staged.result, after) ∧
      staged.request.buffer = r.buffer ∧
      staged.request.size = (if staged.result = .ok () then r.payload.length else r.size) := by
  rw [run_of_write hop, write_reference] at hs
  obtain ⟨rfl, rfl⟩ := Prod.mk.inj hs
  refine ⟨rfl, ?_, ?_⟩
  · split <;> rfl
  · dsimp only
    cases (Reference.writeFile fs files r.path (r.flags.contains .appendMode) r.payload).1 with
    | ok => rfl
    | error e => simp

end FileStage

namespace Service

variable {fs : FileSystem} {codec : Codec} {s t u : Service fs codec} {log more : List Incident}
  {q r after : Request} {lane : Lane} {next : Next} {staged : Staged} {config : Config}
  {heap : HeapId} {heaps : Heaps} {files : fs.State} {codecState : codec.State}

theorem Transition.stage_end (h : Transition s more t) {result : Except Error Unit}
    (hm : .staged lane r after result ∈ more) :
    ∃ staged a added files codecState, s.StageEnd lane r staged a added files codecState ∧
      after = staged.routed lane ∧ result = staged.result ∧ t.files = files := by
  cases h with
  | staged k q staged a added files codecState he =>
    simp only [List.mem_singleton, Incident.staged.injEq] at hm
    obtain ⟨rfl, rfl, rfl, rfl⟩ := hm
    exact ⟨staged, a, added, files, codecState, he, rfl, rfl, by simp⟩
  | _ => simp at hm

/-- A run is cut where a stage ends. -/
theorem Run.stage_cut {s₀ : Service fs codec} (h : Run s₀ log s) {result : Except Error Unit}
    {before rest : List Incident} (hlog : log = before ++ .staged lane r after result :: rest) :
    ∃ u v staged a added files codecState, Run s₀ before u ∧
      u.StageEnd lane r staged a added files codecState ∧ after = staged.routed lane ∧
      result = staged.result ∧ v.files = files ∧
      Run s₀ (before ++ [.staged lane r after result]) v ∧ Run v rest s := by
  obtain ⟨u, v, hu, ht, hv, hrest⟩ := h.cut hlog fun _ hd ↦ by cases hd
  obtain ⟨staged, a, added, files, codecState, he, hafter, hresult, hfiles⟩ :=
    ht.stage_end (List.mem_singleton_self _)
  exact ⟨u, v, staged, a, added, files, codecState, hu, he, hafter, hresult, hfiles, hv, hrest⟩

theorem Run.file_cut {s₀ : Service fs codec} (h : Run s₀ log s) {result : Except Error Unit}
    {before rest : List Incident} (hlog : log = before ++ .staged .file r after result :: rest) :
    ∃ u v staged, Run s₀ before u ∧ u.worker .file = .serving r ∧
      FileStage.run fs u.files u.heaps r = (staged, v.files) ∧ after = staged.routed .file ∧
      result = staged.result ∧ Run s₀ (before ++ [.staged .file r after result]) v ∧
      Run v rest s := by
  obtain ⟨u, v, staged, a, added, files, codecState, hu, he, hafter, hresult, rfl, hv, hrest⟩ :=
    h.stage_cut hlog
  cases he with
  | file hw hs => exact ⟨u, v, staged, hu, hw, hs, hafter, hresult, hv, hrest⟩

/-- A request that leaves a lane: the stage behind it, and no news of it since. -/
structure Leaves (s₀ : Service fs codec) (log : List Incident) (lane : Lane) (q : Request)
    (staged : Staged) : Prop where
  cut : ∃ before after u a added files codecState,
    log = before ++ .staged lane q (staged.routed lane) staged.result :: after ∧ Run s₀ before u ∧
      u.StageEnd lane q staged a added files codecState ∧ legs q.id after = []

theorem Leaves.id {s₀ : Service fs codec} (h : Leaves s₀ log lane q staged) :
    staged.request.id = q.id := by
  obtain ⟨before, after, u, a, added, files, codecState, -, -, he, -⟩ := h.cut
  exact he.resized.id

theorem Leaves.append {s₀ : Service fs codec} (h : Leaves s₀ log lane q staged)
    (hm : legs q.id more = []) : Leaves s₀ (log ++ more) lane q staged := by
  obtain ⟨before, after, u, a, added, files, codecState, rfl, hu, he, hafter⟩ := h.cut
  refine ⟨before, after ++ more, u, a, added, files, codecState, by simp, hu, he, ?_⟩
  rw [legs_append, hafter, hm]
  rfl

theorem Run.leaves (h : Run (fresh config heap heaps files codecState) log s)
    (hr : s.At r (.hand lane (.routing next))) :
    ∃ q staged, Leaves (fresh config heap heaps files codecState) log lane q staged ∧
      r = staged.routed lane ∧ next = staged.next lane := by
  refine h.along (P := fun log r p ↦ ∀ lane next, p = .hand lane (.routing next) → ∃ q staged,
    Leaves (fresh config heap heaps files codecState) log lane q staged ∧ r = staged.routed lane ∧
      next = staged.next lane) ?_ ?_ ?_ hr lane next rfl
  · intro log more s t r h ht ha lane next hp
    cases hp
  · intro log more s t r p h ht hd hm lane next hp
    obtain ⟨q, staged, hl, rfl, rfl⟩ := hd lane next hp
    refine ⟨q, staged, hl.append (legs_of_quiet ?_), rfl, rfl⟩
    simpa [hl.id] using hm
  · intro log more s t q p₀ r p h ht hq hd hf lane next hp
    cases hf with
    | staged task he =>
      cases hp
      exact ⟨q, _, ⟨log, [], s, _, _, _, _, rfl, h, he, rfl⟩, rfl, rfl⟩
    | _ => cases hp

theorem Leaves.last_stage {s₀ : Service fs codec} (h : Leaves s₀ log lane q staged) :
    (stages q.id log).getLast? = some (lane, staged.result.isOk) := by
  obtain ⟨before, after, u, a, added, files, codecState, rfl, -, -, hlegs⟩ := h.cut
  rw [List.append_cons, stages, legs_append, hlegs, List.append_nil, legs_append,
    List.filterMap_append]
  simp [Leg.stage?]

theorem Leaves.carries (h : Leaves (fresh config heap heaps files codecState) log lane q staged)
    (hs : Run (fresh config heap heaps files codecState) log s) {o : Order}
    (ho : .entered q.id o ∈ log) : Carries config heap o q := by
  obtain ⟨before, after, u, a, added, files, codecState, hlog, -⟩ := h.cut
  have hm : .staged lane q (staged.routed lane) staged.result ∈ log := by simp [hlog]
  exact hs.shown_carries hm (List.mem_cons_self ..) ho

theorem Run.coding_side (h : Run (fresh config heap heaps files codecState) log s) :
    ∀ room, s.worker .codec = .coding r room → (room = none ↔ r.operation = .write) := by
  intro room hw
  cases room with
  | none => exact iff_of_true rfl (h.compressing hw).1
  | some room => exact iff_of_false nofun (by simp [(h.decompressing hw).1])

/-- Behind every outcome there is the stage that was the last. -/
theorem Run.published_leaves (h : Run (fresh config heap heaps files codecState) log s) {id : Nat}
    {o : Outcome} (ho : .published id o ∈ log) :
    ∃ lane q staged, Leaves (fresh config heap heaps files codecState) log lane q staged ∧
      q.id = id ∧ staged.next lane = .complete ∧ o = staged.settled.outcome := by
  obtain ⟨pre, more, rest, u, v, hu, ht, hv, hrest, rfl, hm⟩ := h.split ho
  obtain ⟨r, lane, hr, rfl, rfl⟩ := ht.published_at hm
  obtain rfl := ht.single hm fun _ hd ↦ by cases hd
  obtain ⟨q, staged, hl, rfl, hnext⟩ := hu.leaves hr
  have hid : (staged.routed lane).id = q.id := by simp [hl.id]
  have hrouted : staged.routed lane = staged.settled := by
    rw [Staged.routed, ← hnext]
  refine ⟨lane, q, staged, ?_, hid.symm, hnext.symm, by rw [hrouted]; rfl⟩
  have hover : q.id ∈ (pre ++ [Incident.published (staged.routed lane).id
      (staged.routed lane).completed.outcome]).filterMap Incident.published? := by
    rw [hid]
    simp [Incident.published?]
  rw [List.append_assoc]
  refine hl.append ?_
  rw [legs_append, hv.over hrest (.inl hover)]
  rfl

theorem Run.itinerary_of_published (h : Run (fresh config heap heaps files codecState) log s)
    {id : Nat} {o : Order} {left : Outcome} (hl : .published id left ∈ log)
    (ho : .entered id o ∈ log) :
    Itinerary o.operation (o.flags.contains .useCompression) (stages id log) := by
  obtain ⟨r, lane, rfl, -, hb⟩ := h.published_bearing hl
  have hc := hb.carries h.census ho
  have hi := Journey.itinerary hb.journey
  rwa [Request.isCompressed, hc.operation, hc.flags] at hi

/-- A request that is on its way has been accepted. -/
theorem Run.accepted_of_leg (h : Run (fresh config heap heaps files codecState) log s) {id : Nat}
    {leg : Leg} (hl : leg ∈ legs id log) : ∃ r, r.id = id ∧ .accepted r ∈ log := by
  obtain ⟨i, hi, hleg⟩ := mem_legs.1 hl
  obtain ⟨pre, more, rest, u, v, hu, ht, -, -, rfl, hm⟩ := h.split hi
  have held : ∀ {q : Request} {p : Post} {lane : Lane}, u.At q p → p.lane? = some lane → q.id = id →
      ∃ r, r.id = id ∧ .accepted r ∈ pre ++ more ++ rest := by
    rintro q p lane hq hp rfl
    have hpos := hu.census.accepted_of_held (hq.held_pos hp)
    obtain ⟨r, hid, hr⟩ := mem_accepted.1 (List.count_pos_iff.1 hpos)
    exact ⟨r, hid, by simp [hr]⟩
  cases i with
  | accepted r => exact ⟨r, by_contra fun hn ↦ by simp [Incident.leg?, hn] at hleg, hi⟩
  | taken lane r =>
    have hid : r.id = id := by_contra fun hn ↦ by simp [Incident.leg?, hn] at hleg
    exact held (ht.taken_at hu.census.staffed hm).1 rfl hid
  | staged lane r after result =>
    have hid : r.id = id := by_contra fun hn ↦ by simp [Incident.leg?, hn] at hleg
    obtain ⟨⟨task, hat⟩, -⟩ := ht.staged_at hm
    exact held hat rfl hid
  | handedOff onward r =>
    have hid : r.id = id := by_contra fun hn ↦ by simp [Incident.leg?, hn] at hleg
    obtain ⟨lane, hat⟩ := ht.handedOff_at hm
    exact held hat rfl hid
  | entered | refused | published | signaled | released | dropped | marked | stopped =>
    simp [Incident.leg?] at hleg

/-- The stages of a request, wherever it is or was last, are the beginning of a route. -/
theorem Run.stages_route (h : Run (fresh config heap heaps files codecState) log s) {id : Nat}
    {o : Order} (ho : .entered id o ∈ log) :
    ∃ rest, Itinerary o.operation (o.flags.contains .useCompression) (stages id log ++ rest) := by
  cases hl : legs id log with
  | nil =>
    have hroute := Journey.route (Journey.entered o.operation (o.flags.contains .useCompression))
    simpa [stages, hl] using hroute
  | cons leg l =>
    obtain ⟨r, rfl, hr⟩ := h.accepted_of_leg (hl ▸ List.mem_cons_self .. : leg ∈ legs id log)
    obtain ⟨q, p, he, hb⟩ := h.bearing_of_accepted hr
    have hc := hb.carries h.census (he ▸ ho)
    have hroute := Journey.route hb.journey
    rwa [Request.isCompressed, hc.operation, hc.flags, he] at hroute

end Service

end QueuedFiles
