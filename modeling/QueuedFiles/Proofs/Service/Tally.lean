import QueuedFiles.Proofs.Service.Aftermath

/-!
The books of a shutdown. What was accepted is finished or lost, and there are two ways to be lost:
the push onto the next queue fails, or it succeeds and the queue is given up before its worker comes
to the request. The counter knows of the first way only.
-/

namespace QueuedFiles

open Telemetry

deriving instance DecidableEq for Leg

/-- The lost requests whose push onto the next queue has failed. -/
def unreceived (log : List Incident) : List Request :=
  (log.filterMap Incident.dropped?).filter fun r ↦ .handedOff .file ∉ legs r.id log

/-- The lost requests that a queue had taken in and that were given up with it. -/
def stranded (log : List Incident) : List Request :=
  (log.filterMap Incident.dropped?).filter fun r ↦ .handedOff .file ∈ legs r.id log

theorem length_unreceived_add_stranded (log : List Incident) :
    (unreceived log).length + (stranded log).length = (log.filterMap Incident.dropped?).length := by
  rw [unreceived, stranded, Nat.add_comm]
  simp only [← List.countP_eq_length_filter]
  rw [List.length_eq_countP_add_countP fun r ↦ .handedOff .file ∈ legs r.id log]
  simp

theorem mem_ids_lost {log : List Incident} (P : Nat → Prop) [DecidablePred P] {id : Nat} :
    id ∈ ids ((log.filterMap Incident.dropped?).filter fun r ↦ P r.id) ↔
      (∃ r, r.id = id ∧ .dropped r ∈ log) ∧ P id := by
  rw [← mem_dropped]
  simp only [ids, List.mem_map, List.mem_filter, decide_eq_true_eq]
  constructor
  · rintro ⟨r, ⟨hr, hp⟩, rfl⟩
    exact ⟨⟨r, hr, rfl⟩, hp⟩
  · rintro ⟨⟨r, hr, rfl⟩, hp⟩
    exact ⟨r, ⟨hr, hp⟩, rfl⟩

theorem mem_ids_unreceived {log : List Incident} {id : Nat} :
    id ∈ ids (unreceived log) ↔
      (∃ r, r.id = id ∧ .dropped r ∈ log) ∧ .handedOff .file ∉ legs id log :=
  mem_ids_lost fun id ↦ .handedOff .file ∉ legs id log

theorem mem_ids_stranded {log : List Incident} {id : Nat} :
    id ∈ ids (stranded log) ↔
      (∃ r, r.id = id ∧ .dropped r ∈ log) ∧ .handedOff .file ∈ legs id log :=
  mem_ids_lost fun id ↦ .handedOff .file ∈ legs id log

namespace Service

variable {fs : FileSystem} {codec : Codec} {s t : Service fs codec} {log more : List Incident}
  {r : Request} {config : Config} {heap : HeapId} {heaps : Heaps} {files : fs.State}
  {codecState : codec.State}

/-- A recorder with what a stage adds behind its time. -/
def booked (timed : Recorder) (added : Option Addition) (result : Except Error Unit) : Recorder :=
  match result with
  | .ok () => added.elim timed timed.count
  | .error _ => (added.elim timed timed.count).count .failure

theorem book_booked (a : Activity) (added : Option Addition) (result : Except Error Unit) :
    (s.book a added result).recorder = booked (s.recorder.addTime a .zero).2 added result := by
  cases result <;> rfl

/-- What a stage that ends adds: what stands behind its time, and a failure where it has failed. -/
def load (weight : Addition → UInt64) (added : Option Addition) (result : Except Error Unit) :
    UInt64 :=
  added.elim 0 weight + match result with | .ok () => 0 | .error _ => weight .failure

theorem value_booked {value : Counters → UInt64} {weight : Addition → UInt64}
    (hv : ∀ c x, value (c.add x) = value c + weight x) (timed : Recorder) (added : Option Addition)
    (result : Except Error Unit) :
    value (booked timed added result).counters =
      value timed.counters + load weight added result := by
  have hcount : ∀ (r : Recorder) x, value (r.count x).counters = value r.counters + weight x :=
    fun r x ↦ hv r.counters x
  cases added with
  | none =>
    cases result with
    | ok => simp [booked, load]
    | error e => simp [booked, load, hcount]
  | some x =>
    cases result with
    | ok => simp [booked, load, hcount]
    | error e => simp [booked, load, hcount, UInt64.add_assoc]

theorem value_book {value : Counters → UInt64} {weight : Addition → UInt64}
    (hv : ∀ c x, value (c.add x) = value c + weight x) (a : Activity) (added : Option Addition)
    (result : Except Error Unit) :
    value (s.book a added result).recorder.counters =
      value s.recorder.counters + load weight added result := by
  rw [book_booked, value_booked hv, Recorder.counters_addTime]

/-- What an addition adds to the counter of requests that were given up. -/
def givenUp : Addition → UInt64
  | .abandoned => 1
  | _ => 0

theorem abandoned_add (c : Counters) (x : Addition) :
    (c.add x).abandoned = c.abandoned + givenUp x := by
  cases x <;> simp [Counters.add, givenUp]

theorem abandoned_book (a : Activity) {added : Option Addition} (h : added ≠ some .abandoned)
    (result : Except Error Unit) :
    (s.book a added result).recorder.counters.abandoned = s.recorder.counters.abandoned := by
  have hbook := @value_book fs codec s Counters.abandoned givenUp abandoned_add a added result
  have hadded : added.elim 0 givenUp = 0 := by
    cases added with
    | none => rfl
    | some x => cases x <;> simp_all [givenUp]
  rw [hbook]
  cases result <;> simp [load, hadded, givenUp]

theorem StageEnd.not_abandoned {lane : Lane} {staged : Staged} {a : Activity}
    {added : Option Addition} {files : fs.State} {codecState : codec.State}
    (h : s.StageEnd lane r staged a added files codecState) : added ≠ some .abandoned := by
  cases h with
  | file =>
    cases staged.result with
    | ok => cases hop : staged.request.operation <;> simp [FileStage.addition, hop]
    | error => simp
  | overflow => simp
  | @compress _ answer =>
    cases CodecStage.checkedBlock codec.name r answer <;> simp [CodecStage.compressAddition]
  | @decompress _ _ d => cases d.reported <;> simp [CodecStage.decompressAddition]

/-- What a move drops is handed off before, but for the one request whose push fails; and that one
is counted. -/
theorem Transition.counted (ht : Transition s more t)
    (h : Run (fresh config heap heaps files codecState) log s) (hc : codec.Returns) :
    t.recorder.counters.abandoned = s.recorder.counters.abandoned +
      UInt64.ofNat ((more.filterMap Incident.dropped?).filter fun r ↦
        .handedOff .file ∉ legs r.id log).length := by
  have waiting : ∀ lane, s.worker lane = .leaving ∨ s.closing = .dismantling →
      ∀ r ∈ s.waiting lane, .handedOff .file ∈ legs r.id log := by
    intro lane hw r hr
    have hat : s.At r (.queue lane) := hr
    obtain ⟨-, -, -, hh, -⟩ := h.waiting_late hc hat hw
    exact hh
  have none : ∀ rs : List Request, (∀ r ∈ rs, .handedOff .file ∈ legs r.id log) →
      rs.filter (fun r ↦ .handedOff .file ∉ legs r.id log) = [] := by
    intro rs hrs
    rw [List.filter_eq_nil_iff]
    intro r hr
    simpa using hrs r hr
  cases ht with
  | abandoned lane onward r hw ho =>
    obtain ⟨-, -, -, hh⟩ := h.routing_late hc hw ho
    simp [Incident.dropped?, hh, Recorder.count, Recorder.update, Counters.addAll, Counters.add]
  | left lane hw =>
    have hnone := none _ (waiting lane (.inl hw))
    simp only [List.filterMap_map, Incident.filterMap_comp_dropped, hnone]
    simp
  | dismantled hd =>
    have hfile := none _ (waiting .file (.inr hd))
    have hcodec := none _ (waiting .codec (.inr hd))
    simp only [List.filterMap_map, Incident.filterMap_comp_dropped, List.filter_append, hfile, hcodec]
    simp
  | crashed r room hw hx => simp [not_crashes hc] at hx
  | staged lane r st a added files codecState he =>
    simp [List.filterMap_cons, abandoned_book a he.not_abandoned, Incident.dropped?]
  | _ => simp [List.filterMap_cons, Incident.dropped?]

/-- Nothing is heard of a request once it is lost, so what was said of it stays so. -/
theorem Run.unreceived_append (h : Run (fresh config heap heaps files codecState) log s)
    (hrest : Run s more t) :
    unreceived (log ++ more) = unreceived log ++
      (more.filterMap Incident.dropped?).filter fun r ↦
        .handedOff .file ∉ legs r.id (log ++ more) := by
  rw [unreceived, List.filterMap_append, List.filter_append]
  congr 1
  apply List.filter_congr
  intro r hr
  have hover := h.over hrest (.inr (List.mem_map_of_mem (f := (·.id)) hr))
  rw [legs_append, hover, List.append_nil]

/-- The counter is the number of pushes that have failed, as far as a word of 64 bits can tell. -/
theorem Run.counted (h : Run (fresh config heap heaps files codecState) log s)
    (hc : codec.Returns) :
    s.recorder.counters.abandoned = UInt64.ofNat (unreceived log).length := by
  induction h with
  | refl => rfl
  | @step log s t m h hs ih =>
    have ht := step_transition m hs
    have hquiet : ((s.record m).filterMap Incident.dropped?).filter
        (fun r ↦ .handedOff .file ∉ legs r.id (log ++ s.record m)) =
          ((s.record m).filterMap Incident.dropped?).filter
            fun r ↦ .handedOff .file ∉ legs r.id log := by
      apply List.filter_congr
      intro r hr
      rw [legs_append, ht.legs_dropped (by simpa [List.mem_filterMap, Incident.dropped?_eq] using hr),
        List.append_nil]
    rw [h.unreceived_append (.one m hs), hquiet, List.length_append, UInt64.ofNat_add, ← ih]
    exact ht.counted h hc

theorem Run.accepted_perm (h : Run (fresh config heap heaps files codecState) log s)
    (hd : s.closing = .done) :
    (ids (log.filterMap Incident.accepted?)).Perm
      (log.filterMap Incident.signaled? ++ ids (log.filterMap Incident.dropped?)) := by
  have hclosed := h.orderly.closed_of_done h.census.staffed hd
  rw [List.perm_iff_count]
  intro k
  have hp : (log.filterMap Incident.published?).count k +
      (ids (log.filterMap Incident.dropped?)).count k =
        (ids (log.filterMap Incident.accepted?)).count k := by
    simpa [held, waiting, hclosed] using h.census.places k
  have hf : (log.filterMap Incident.signaled?).count k =
      (log.filterMap Incident.published?).count k := by
    simpa [hclosed] using h.census.flags k
  rw [List.count_append, ← hp, hf]

theorem Census.nodup_signaled (h : Census log s) : (log.filterMap Incident.signaled?).Nodup := by
  rw [List.nodup_iff_count_le_one]
  intro k
  have := h.flags k
  have := h.places k
  have := h.accepted_le_one k
  omega

theorem Census.accepted_of_signaled (h : Census log s) {id : Nat}
    (hs : id ∈ log.filterMap Incident.signaled?) : ∃ r, r.id = id ∧ .accepted r ∈ log := by
  have hpub := List.count_pos_iff.2 ((h.signaled_iff id).1 hs).1
  have hp := h.places id
  exact mem_accepted.1 (List.count_pos_iff.1 (by omega))

theorem Run.polled_perm (h : Run (fresh config heap heaps files codecState) log s) :
    ((s.tickets.filter (·.poll)).map (·.id)).Perm (log.filterMap Incident.signaled?) := by
  have hnodup : ((s.tickets.filter (·.poll)).map (·.id)).Nodup :=
    (h.desk.nodup h.census).sublist (List.filter_sublist.map _)
  rw [List.perm_ext_iff_of_nodup hnodup h.census.nodup_signaled]
  intro id
  rw [List.mem_map]
  constructor
  · rintro ⟨t, ht, rfl⟩
    obtain ⟨ht, hp⟩ := List.mem_filter.1 ht
    exact (h.desk.reflects t ht).signaled.1 hp
  · intro hs
    obtain ⟨r, rfl, hr⟩ := h.census.accepted_of_signaled hs
    obtain ⟨t, ht, hid, href⟩ := h.ticket_of_accepted hr
    refine ⟨t, List.mem_filter.2 ⟨List.mem_of_find?_eq_some ht, ?_⟩, hid⟩
    exact href.signaled.2 (hid ▸ hs)

theorem Run.accepted_of_handedOff (h : Run (fresh config heap heaps files codecState) log s)
    {id : Nat} (hl : .handedOff .file ∈ legs id log) :
    ∃ r, r.id = id ∧ .accepted r ∈ log ∧ r.operation = .write ∧ r.isCompressed = true := by
  obtain ⟨q, rfl, hq⟩ := handedOff_mem_legs.1 hl
  obtain ⟨pre, more, rest, u, v, hu, ht, -, -, rfl, hm⟩ := h.split hq
  obtain ⟨lane, hat⟩ := ht.handedOff_at hm
  have hheld := hu.census.accepted_of_held (hat.held_pos rfl)
  obtain ⟨r, hid, hr⟩ := mem_accepted.1 (List.count_pos_iff.1 hheld)
  have hr' : .accepted r ∈ pre ++ more ++ rest := by simp [hr]
  have hb := hu.bearing hat
  obtain ⟨hop, hcomp⟩ := hu.same_order hr hb hid.symm
  rcases Journey.routing hb.journey with ⟨hc, ⟨-, -, ho⟩ | ⟨hw, -, -⟩⟩
  · cases ho
  · exact ⟨r, hid, hr', hop.symm.trans hw, hcomp.symm.trans hc⟩

theorem Run.mem_stranded (h : Run (fresh config heap heaps files codecState) log s)
    (hc : codec.Returns) (hd : s.closing = .done) (id : Nat) :
    id ∈ ids (stranded log) ↔ .handedOff .file ∈ legs id log ∧ ¬ InTime id log := by
  rw [mem_ids_stranded]
  constructor
  · rintro ⟨⟨r, rfl, hr⟩, hl⟩
    exact ⟨hl, (h.dropped_late hc hr).2.2.2⟩
  · rintro ⟨hl, hlate⟩
    obtain ⟨r, rfl, hr, hop, hcomp⟩ := h.accepted_of_handedOff hl
    refine ⟨?_, hl⟩
    rcases h.settled hd hr with hp | hlost
    · exact absurd (h.inTime_of_published hc hr hop hcomp hp) hlate
    · exact hlost

theorem Run.mem_unreceived (h : Run (fresh config heap heaps files codecState) log s)
    (hc : codec.Returns) (hd : s.closing = .done) (id : Nat) :
    id ∈ ids (unreceived log) ↔
      (∃ r, r.id = id ∧ .accepted r ∈ log ∧ r.operation = .write ∧ r.isCompressed = true) ∧
        .handedOff .file ∉ legs id log := by
  rw [mem_ids_unreceived]
  constructor
  · rintro ⟨⟨r, rfl, hr⟩, hl⟩
    obtain ⟨hop, hcomp, -⟩ := h.dropped_late hc hr
    have hp := h.census.places r.id
    have hdrop := List.count_pos_iff.2 (mem_dropped.2 ⟨r, rfl, hr⟩)
    obtain ⟨q, hid, hq⟩ := mem_accepted.1 (List.count_pos_iff.1 (by omega :
      0 < (ids (log.filterMap Incident.accepted?)).count r.id))
    obtain ⟨hsame, hflags⟩ := h.shown_same hq (List.mem_singleton_self q) hr
      (List.mem_singleton_self r) hid
    refine ⟨⟨q, hid, hq, hsame.trans hop, ?_⟩, hl⟩
    rw [Request.isCompressed, hflags]
    exact hcomp
  · rintro ⟨⟨r, rfl, hr, hop, hcomp⟩, hl⟩
    refine ⟨?_, hl⟩
    rcases h.settled hd hr with hp | hlost
    · exact absurd (h.inTime_of_published hc hr hop hcomp hp).handedOff hl
    · exact hlost

/-- The books of a finished shutdown. -/
structure Tally (log : List Incident) (s : Service fs codec) : Prop where
  books : (log.filterMap Incident.accepted?).length =
    (s.tickets.filter (·.poll)).length + (unreceived log).length + (stranded log).length
  counter : s.recorder.counters.abandoned = UInt64.ofNat (unreceived log).length
  /-- Counted are the compressed writes that were never handed off. -/
  counted : ∀ id, id ∈ ids (unreceived log) ↔
    (∃ r, r.id = id ∧ .accepted r ∈ log ∧ r.operation = .write ∧ r.isCompressed = true) ∧
      .handedOff .file ∉ legs id log
  /-- Not counted are those that were handed off behind the marker. -/
  uncounted : ∀ id, id ∈ ids (stranded log) ↔ .handedOff .file ∈ legs id log ∧ ¬ InTime id log

/-- No request vanishes: it has its flag, or its push failed and is counted, or it went down with the
queue behind the marker. -/
theorem Run.shutdown_tally (h : Run (fresh config heap heaps files codecState) log s)
    (hc : codec.Returns) (hd : s.closing = .done) : Tally log s where
  books := by
    have hall := (h.accepted_perm hd).length_eq
    have hflags := h.polled_perm.length_eq
    have hlost := length_unreceived_add_stranded log
    simp only [ids, List.length_append, List.length_map] at hall hflags
    omega
  counter := h.counted hc
  counted := h.mem_unreceived hc hd
  uncounted := h.mem_stranded hc hd

/-- A shutdown in which a compressed write comes to the file queue behind the marker. -/
def tooLate : List Incident × Service FileSystem.single (.ofPure .verbatim) :=
  ((sample default (.ofPure .verbatim) ()).follow [.enter (.write "f" [1] true false), .push 1,
    .work .codec, .work .codec, .work .codec, .close, .close, .work .codec, .work .file, .work .file,
    .close, .close, .work .codec, .work .codec, .close, .close]).get (by decide)

theorem tooLate_done :
    Run (sample default (.ofPure .verbatim) ()) tooLate.1 tooLate.2 ∧ tooLate.2.closing = .done :=
  ⟨.of_isSome _, by decide⟩

theorem shutdown_tally_tooLate :
    Run (sample default (.ofPure .verbatim) ()) tooLate.1 tooLate.2 ∧ tooLate.2.closing = .done ∧
      Tally tooLate.1 tooLate.2 := by
  obtain ⟨hrun, hdone⟩ := tooLate_done
  exact ⟨hrun, hdone, Run.shutdown_tally hrun (Codec.ofPure_returns _) hdone⟩

/-- The flags and the counter do not make up the books: what goes down with the file queue is in
neither. -/
theorem flags_and_counter_short :
    ¬ ∀ (log : List Incident) (s : Service FileSystem.single (.ofPure .verbatim)),
      Run (sample default (.ofPure .verbatim) ()) log s → s.closing = .done →
        (log.filterMap Incident.accepted?).length =
          (s.tickets.filter (·.poll)).length + s.recorder.counters.abandoned.toNat := by
  intro h
  obtain ⟨hrun, hdone⟩ := tooLate_done
  have hbooks := h _ _ hrun hdone
  revert hbooks
  decide

end Service

end QueuedFiles
