import QueuedFiles.Proofs.Service.Bearing

/-!
The protocol of a shutdown, for a codec whose calls come back. Each lane gets its marker once; the
marker is in the queue until the worker comes to it. The codec lane gets its own only after the file
worker has gone.
-/

namespace QueuedFiles

/-- Whether a lane has got its marker. -/
def Closing.marked : Closing → Lane → Bool
  | .notYet, _ | .markingFiles, _ => false
  | .joiningFiles, lane | .markingCodec, lane => lane = .file
  | .joiningCodec, _ | .dismantling, _ | .done, _ => true

/-- Whether the worker of a lane has been waited for. -/
def Closing.joined : Closing → Lane → Bool
  | .notYet, _ | .markingFiles, _ | .joiningFiles, _ => false
  | .markingCodec, lane | .joiningCodec, lane => lane = .file
  | .dismantling, _ | .done, _ => true

def Message.isShutdown {α : Type} : Message α → Bool
  | .payload _ => false
  | .shutdown => true

/-- How many markers are in a queue. -/
def Queue.markers {α : Type} (q : Queue α) : Nat := q.messages.countP Message.isShutdown

/-- A worker has come to its marker once it is about to leave. -/
def Worker.stopping : Worker → Nat
  | .leaving | .gone => 1
  | .idle | .serving _ | .coding .. | .routing .. | .signaling _ | .releasing _ => 0

namespace Queue

variable {α : Type} (q : Queue α)

@[simp] theorem markers_payload (a : α) : (q.extend (.payload a)).markers = q.markers := by
  simp [markers, Message.isShutdown]

@[simp] theorem markers_shutdown : (q.extend .shutdown).markers = q.markers + 1 := by
  simp [markers, Message.isShutdown]

@[simp] theorem markers_close : q.close.markers = q.markers := rfl

theorem markers_of_payload {a : α} {ms : List (Message α)} (h : q.messages = .payload a :: ms) :
    markers { q with messages := ms } = q.markers := by
  simp [markers, h, Message.isShutdown]

theorem markers_of_shutdown {ms : List (Message α)} (h : q.messages = .shutdown :: ms) :
    markers { q with messages := ms } + 1 = q.markers := by
  simp [markers, h, List.countP_cons, Message.isShutdown]

end Queue

namespace Service

variable {fs : FileSystem} {codec : Codec} {s t : Service fs codec} {log more : List Incident}
  {lane : Lane} {c following : Closing} {r : Request}

theorem not_crashes (hc : codec.Returns) (s : Service fs codec) (r : Request)
    (room : Option Reservation) : s.crashes r room = false := by
  cases room with
  | none =>
    obtain ⟨a, u, h⟩ := hc.1 s.codecState r.payload
    simp [crashes, h]
  | some room =>
    obtain ⟨a, u, h⟩ := hc.2 s.codecState r.payload s.config.maxDecompressedSize.toNat
    simp [crashes, h]

theorem Marking.marked (h : Marking c lane following) (k : Lane) :
    (following.marked k = if k = lane then true else c.marked k) ∧ c.marked lane = false ∧
      following.joined k = c.joined k := by
  cases h <;> cases k <;> decide

theorem Joining.joined (h : Joining c lane following) (k : Lane) :
    (following.joined k = if k = lane then true else c.joined k) ∧
      following.marked k = c.marked k := by
  cases h <;> cases k <;> decide

/-- The markers of a lane, in its queue or with its worker. -/
def stops (s : Service fs codec) (lane : Lane) : Nat :=
  (s.queue lane).markers + (s.worker lane).stopping

theorem stops_setWorker {w : Worker} (hw : w.stopping = (s.worker lane).stopping) (k : Lane) :
    (s.setWorker lane w).stops k = s.stops k := by
  by_cases hk : k = lane
  · subst hk
    simp [stops, hw]
  · simp [stops, hk]

theorem stops_setQueue {q : Queue Request} (hq : q.markers = (s.queue lane).markers) (k : Lane) :
    (s.setQueue lane q).stops k = s.stops k := by
  by_cases hk : k = lane
  · subst hk
    simp [stops, hq]
  · simp [stops, hk]

theorem Marking.begun (h : Marking c lane following) : c ≠ .notYet ∧ following ≠ .notYet := by
  cases h <;> decide

theorem Marking.not_done (h : Marking c lane following) : following ≠ .done := by
  cases h <;> decide

theorem Joining.not_done (h : Joining c lane following) : following ≠ .done := by
  cases h <;> decide

theorem Joining.begun (h : Joining c lane following) : c ≠ .notYet ∧ following ≠ .notYet := by
  cases h <;> decide

/-- The protocol: markers are counted from the owner's move to the worker's end, and who has been
waited for is gone. -/
structure Protocol (log : List Incident) (s : Service fs codec) : Prop where
  stops : ∀ lane, s.stops lane = (s.closing.marked lane).toNat
  joined : ∀ lane, s.closing.joined lane = true → s.worker lane = .gone
  callers : s.closing ≠ .notYet → s.entering = []
  marks : ∀ lane, .marked lane ∈ log ↔ s.closing.marked lane = true

/-- The part of the protocol that no codec upsets: it holds also where calls do not come back. -/
structure Orderly (s : Service fs codec) : Prop where
  joined : ∀ lane, s.closing.joined lane = true → s.worker lane = .gone
  callers : s.closing ≠ .notYet → s.entering = []

theorem Protocol.orderly (h : Protocol log s) : s.Orderly := ⟨h.joined, h.callers⟩

theorem Protocol.not_joined (h : Protocol log s) (hw : s.worker lane ≠ .gone) :
    s.closing.joined lane = false :=
  Bool.eq_false_iff.2 fun hj ↦ hw (h.joined lane hj)

theorem Protocol.marked_of_stopping (h : Protocol log s) (hw : (s.worker lane).stopping = 1) :
    s.closing.marked lane = true ∧ (s.queue lane).markers = 0 := by
  have hs := h.stops lane
  rw [Service.stops, hw] at hs
  cases hm : s.closing.marked lane with
  | false => simp [hm] at hs
  | true => exact ⟨rfl, by simpa [hm] using hs⟩

theorem Transition.keeps_stops (h : Transition s more t) (hc : codec.Returns) (hs : s.Staffed)
    (hp : Protocol log s) (k : Lane) : t.stops k = (t.closing.marked k).toNat := by
  have hk := hp.stops k
  cases h with
  | newHeap | turnedAway | entered | refused | asked | forgot | gaveBack =>
    simpa [stops] using hk
  | accepted r lane =>
    rw [stops_setQueue (by simp)]
    simpa [stops] using hk
  | taken lane r ms hw hq =>
    rw [stops_setWorker (by simp [hw, Worker.stopping]),
      stops_setQueue (Queue.markers_of_payload _ hq)]
    simpa using hk
  | stopped lane ms hw hq =>
    have hm := Queue.markers_of_shutdown _ hq
    by_cases hl : k = lane
    · subst hl
      simp only [stops, hw, Worker.stopping] at hk
      simpa [stops, Worker.stopping, hm] using hk
    · simpa [stops, hl] using hk
  | prepared r room heaps hpre =>
    rw [stops_setWorker (by simp [hpre.holds, Worker.stopping])]
    simpa [stops] using hk
  | staged lane r st a added files codecState he =>
    have hw : (s.worker lane).stopping = 0 := by
      rcases he.holds with hw | ⟨room, hw⟩ <;> simp [hw, Worker.stopping]
    rw [stops_setWorker (by simpa [Worker.stopping] using hw.symm)]
    simpa [stops] using hk
  | crashed r room hw hx => simp [not_crashes hc] at hx
  | published lane r hw | abandoned lane onward r hw | signaled lane id hw | released lane id hw =>
    rw [stops_setWorker (by simp [hw, Worker.stopping])]
    simpa [stops] using hk
  | handedOff lane onward r hw =>
    rw [stops_setWorker (by simp [hw, Worker.stopping]), stops_setQueue (by simp)]
    simpa using hk
  | left lane hw =>
    rw [stops_setWorker (by simp [hw, Worker.stopping]), stops_setQueue (by simp)]
    simpa using hk
  | closing hn => simpa [stops, hn, Closing.marked] using hk
  | marked lane following hm =>
    obtain ⟨hf, hl, -⟩ := hm.marked k
    by_cases hkl : k = lane
    · subst hkl
      simp only [stops, hl, Bool.toNat_false] at hk
      simp [stops, hf]
      omega
    · simpa [stops, hkl, hf] using hk
  | unmarked lane following hm ho =>
    have hg := (hs lane).2 ho
    have hst : (s.worker lane).stopping = 1 := by simp [hg, Worker.stopping]
    have := (hp.marked_of_stopping hst).1
    simp [(hm.marked k).2.1] at this
  | joined lane following hj =>
    rw [(hj.joined k).2]
    simpa [stops] using hk
  | dismantled hd =>
    have hg : s.worker k = .gone := hp.joined k (by rw [hd]; rfl)
    cases k <;> simp [stops, hg, Worker.stopping, Queue.markers, Closing.marked]

theorem Transition.keeps_joined (h : Transition s more t) (hp : s.Orderly) (k : Lane)
    (hk : t.closing.joined k = true) : t.worker k = .gone := by
  cases h with
  | newHeap | turnedAway | entered | refused | asked | forgot | gaveBack | accepted =>
    simpa using hp.joined k (by simpa using hk)
  | taken lane r ms hw | stopped lane ms hw | published lane r hw | abandoned lane onward r hw
  | signaled lane id hw | released lane id hw | handedOff lane onward r hw =>
    have hg := hp.joined k (by simpa using hk)
    have hne : k ≠ lane := by
      rintro rfl
      simp [hw] at hg
    simpa [hne] using hg
  | prepared r room heaps hpre =>
    have hg := hp.joined k (by simpa using hk)
    have hne : k ≠ .codec := by
      rintro rfl
      simp [hpre.holds] at hg
    simpa [hne] using hg
  | staged lane r st a added files codecState he =>
    have hg := hp.joined k (by simpa using hk)
    have hne : k ≠ lane := by
      rintro rfl
      rcases he.holds with hw | ⟨room, hw⟩ <;> simp [hw] at hg
    simpa [hne] using hg
  | left lane | crashed =>
    have hg := hp.joined k (by simpa using hk)
    simp [hg]
  | closing => cases hk
  | marked lane following hm | unmarked lane following hm =>
    simpa using hp.joined k (by simpa [(hm.marked k).2.2] using hk)
  | joined lane following hj hw =>
    by_cases hl : k = lane
    · subst hl
      simpa using hw
    · simp only [(hj.joined k).1, hl, if_false] at hk
      simpa using hp.joined k hk
  | dismantled hd => simpa using hp.joined k (by rw [hd]; rfl)

theorem Transition.keeps_callers (h : Transition s more t) (hp : s.Orderly)
    (ht : t.closing ≠ .notYet) : t.entering = [] := by
  cases h with
  | entered o path hc => exact absurd hc ht
  | accepted | refused => simp [hp.callers (by simpa using ht)]
  | closing hc he => exact he
  | marked lane following hm | unmarked lane following hm =>
    simpa using hp.callers hm.begun.1
  | joined lane following hj => exact hp.callers hj.begun.1
  | dismantled hd => simpa using hp.callers (by simp [hd])
  | _ => simpa using hp.callers (by simpa using ht)

theorem Transition.keeps_marks (h : Transition s more t) (hc : codec.Returns) (hs : s.Staffed)
    (hp : Protocol log s) (k : Lane) :
    .marked k ∈ log ++ more ↔ t.closing.marked k = true := by
  have hk := hp.marks k
  cases h with
  | closing hn =>
    simp only [hn, Closing.marked] at hk
    simpa [Closing.marked] using hk
  | marked lane following hm =>
    by_cases hl : k = lane
    · subst hl
      simp [(hm.marked k).1]
    · simp [(hm.marked k).1, hl, hk]
  | unmarked lane following hm ho =>
    have hg := (hs lane).2 ho
    have hst : (s.worker lane).stopping = 1 := by simp [hg, Worker.stopping]
    have := (hp.marked_of_stopping hst).1
    simp [(hm.marked k).2.1] at this
  | joined lane following hj => simpa [(hj.joined k).2] using hk
  | dismantled hd =>
    simp only [hd, Closing.marked] at hk
    simpa [Closing.marked] using hk
  | crashed r room hw hx => simp [not_crashes hc] at hx
  | _ => simpa using hk

theorem fresh_protocol (config : Config) (heap : HeapId) (heaps : Heaps) (files : fs.State)
    (codecState : codec.State) :
    Protocol [] (fresh config heap heaps files codecState : Service fs codec) where
  stops lane := by cases lane <;> rfl
  joined lane h := by cases h
  callers h := absurd rfl h
  marks lane := iff_of_false List.not_mem_nil Bool.false_ne_true

theorem Transition.protocol (h : Transition s more t) (hc : codec.Returns) (hs : s.Staffed)
    (hp : Protocol log s) : Protocol (log ++ more) t where
  stops := h.keeps_stops hc hs hp
  joined := h.keeps_joined hp.orderly
  callers := h.keeps_callers hp.orderly
  marks := h.keeps_marks hc hs hp

variable {config : Config} {heap : HeapId} {heaps : Heaps} {files : fs.State}
  {codecState : codec.State}

theorem Run.orderly (h : Run (fresh config heap heaps files codecState) log s) : s.Orderly := by
  induction h with
  | refl => exact (fresh_protocol config heap heaps files codecState).orderly
  | step m _ hs ih =>
    have ht := step_transition m hs
    exact ⟨ht.keeps_joined ih, ht.keeps_callers ih⟩

theorem Run.protocol (h : Run (fresh config heap heaps files codecState) log s)
    (hc : codec.Returns) : Protocol log s := by
  induction h with
  | refl => exact fresh_protocol config heap heaps files codecState
  | step m h hs ih => exact (step_transition m hs).protocol hc h.census.staffed ih

end Service

end QueuedFiles
