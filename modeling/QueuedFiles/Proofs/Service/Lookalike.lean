import QueuedFiles.Proofs.Service.Census
import QueuedFiles.Proofs.Service.Unseen

/-!
Logs as they are seen by somebody who does not see terminators. A run can be followed, move by move,
from any state that looks the same, and what is written into its log looks the same.
-/

namespace QueuedFiles

def Order.blind : Order → Order
  | .read path heap _ compressed => .read path heap false compressed
  | o => o

namespace Incident

def blind (id : Nat) : Incident → Incident
  | .entered i o => .entered i (if i = id then o.blind else o)
  | .accepted r => .accepted (r.blind id)
  | .refused r => .refused (r.blind id)
  | .taken lane r => .taken lane (r.blind id)
  | .staged lane r after result => .staged lane (r.blind id) (after.blind id) result
  | .handedOff onward r => .handedOff onward (r.blind id)
  | .published i o => .published i o.blind
  | .signaled i => .signaled i
  | .released i => .released i
  | .dropped r => .dropped (r.blind id)
  | .marked lane => .marked lane
  | .stopped lane => .stopped lane

@[simp] theorem blind_blind (id : Nat) (i : Incident) : (i.blind id).blind id = i.blind id := by
  cases i with
  | entered i o => cases o <;> simp only [blind, Order.blind] <;> split <;> rfl
  | _ => simp [blind]

@[simp] theorem blind_dropped (id : Nat) (r : Request) :
    (dropped r).blind id = .dropped (r.blind id) := rfl

end Incident

namespace Service

variable {fs : FileSystem} {codec : Codec}

section

variable (id : Nat) (s : Service fs codec) (lane : Lane)

theorem waiting_blind : (s.blind id).waiting lane = (s.waiting lane).map (Request.blind id) := by
  simp only [waiting, queue_blind, Queue.isOpen_blind, Queue.payloads_blind]
  split <;> rfl

theorem crashes_blind (r : Request) (room : Option Reservation) :
    (s.blind id).crashes (r.blind id) room = s.crashes r room := by
  have hstate : (s.blind id).codecState = s.codecState := rfl
  have hmax : (s.blind id).config = s.config := rfl
  cases room <;> simp only [crashes, hstate, hmax, Request.payload_blind]

theorem stage?_blind :
    ((s.blind id).stage? lane).map (Staged.blind id) = (s.stage? lane).map (Staged.blind id) := by
  have hfiles : (s.blind id).files = s.files := rfl
  have hstate : (s.blind id).codecState = s.codecState := rfl
  have hmax : (s.blind id).config = s.config := rfl
  have hheaps : (s.blind id).heaps = s.heaps.blind := rfl
  cases lane with
  | file =>
    simp only [stage?, worker_blind, hfiles, hheaps]
    cases s.worker .file with
    | serving r => exact congrArg some (FileStage.run_blind id s.files s.heaps r).1
    | _ => rfl
  | codec =>
    simp only [stage?, worker_blind, hstate, hmax, hheaps]
    cases s.worker .codec with
    | serving r =>
      have hop : (r.blind id).operation = r.operation := rfl
      simp only [Worker.blind, hop]
      cases r.operation with
      | write => rfl
      | read =>
        cases CodecStage.capacity? s.config.maxDecompressedSize.toNat with
        | none => exact congrArg some (CodecStage.overflow_blind id s.heaps r _)
        | some capacity => rfl
    | coding r room =>
      cases room with
      | none =>
        simp only [Worker.blind, Request.payload_blind]
        cases codec.compress s.codecState r.payload with
        | returns answer state => exact congrArg some (CodecStage.compressed_blind id s.heaps r _)
        | waits | crashes => rfl
      | some room =>
        simp only [Worker.blind, Request.payload_blind]
        cases codec.decompress s.codecState r.payload s.config.maxDecompressedSize.toNat with
        | returns d state =>
          exact congrArg some (CodecStage.decompressed_blind id s.heaps r _ room _ _)
        | waits | crashes => rfl
    | _ => rfl

theorem recordStage_blind (r : Request) :
    ((s.blind id).recordStage lane (r.blind id)).map (Incident.blind id) =
      (s.recordStage lane r).map (Incident.blind id) := by
  have hrecord : ∀ (t : Service fs codec) (q : Request),
      (t.recordStage lane q).map (Incident.blind id) =
        (((t.stage? lane).map (Staged.blind id)).map fun st ↦
          .staged lane (q.blind id) (st.routed lane) st.result).toList := by
    intro t q
    unfold recordStage
    cases t.stage? lane with
    | none => rfl
    | some st =>
      simp only [List.map_cons, List.map_nil, Incident.blind, Option.map_some, Staged.routed_blind]
      rfl
  rw [hrecord, hrecord, stage?_blind, Request.blind_blind]

theorem recordPush_blind (i : Nat) :
    (s.blind id).recordPush i = (s.recordPush i).map (Incident.blind id) := by
  simp only [recordPush, find_entering_blind]
  cases s.entering.find? fun r ↦ r.id = i with
  | none => rfl
  | some r =>
    simp only [Option.map_some, Request.entryLane_blind, queue_blind, Queue.offer_payload_blind]
    cases (s.queue (entryLane r.operation r.flags)).offer (.payload r) <;> rfl

theorem recordWork_blind :
    ((s.blind id).recordWork lane).map (Incident.blind id) =
      (s.recordWork lane).map (Incident.blind id) := by
  simp only [recordWork, worker_blind]
  cases s.worker lane with
  | idle =>
    have hmessages : ((s.blind id).queue lane).messages =
        (s.queue lane).messages.map (Message.blind id) := by
      rw [queue_blind]
      rfl
    simp only [Worker.blind, hmessages]
    cases (s.queue lane).messages with
    | nil => rfl
    | cons m ms => cases m <;> simp [Message.blind, Incident.blind]
  | serving r => exact s.recordStage_blind id lane r
  | coding r room =>
    simp only [Worker.blind, crashes_blind]
    split
    · simp [waiting_blind, Function.comp_def]
    · exact s.recordStage_blind id lane r
  | routing r next =>
    cases next with
    | complete =>
      exact congrArg (fun o ↦ [Incident.published r.id o]) r.completed.outcome.blind_blind
    | handOff onward =>
      simp only [Worker.blind, queue_blind, Queue.offer_payload_blind]
      cases (s.queue onward).offer (.payload r) <;> simp [Incident.blind]
  | signaling i => rfl
  | releasing i => rfl
  | leaving => simp [Worker.blind, waiting_blind, Function.comp_def]
  | gone => rfl

theorem recordClose_blind :
    ((s.blind id).recordClose).map (Incident.blind id) = s.recordClose.map (Incident.blind id) := by
  have hclosing : (s.blind id).closing = s.closing := rfl
  have hmark : ∀ lane, (s.blind id).recordMark lane = s.recordMark lane := by
    intro lane
    simp only [recordMark, queue_blind, Queue.offer_shutdown_blind]
    cases (s.queue lane).offer .shutdown <;> rfl
  simp only [recordClose, hclosing, hmark]
  cases s.closing with
  | dismantling => simp [waiting_blind, Function.comp_def]
  | _ => rfl

theorem record_blind {m : Move} (henter : ∀ o, m = .enter o → s.nextId ≠ id) :
    ((s.blind id).record m).map (Incident.blind id) = (s.record m).map (Incident.blind id) := by
  cases m with
  | enter o => simp only [record, (s.enter_blind id (henter o rfl)).1]
  | push i =>
    simp only [record, recordPush_blind, List.map_map]
    congr 1
    funext i
    exact i.blind_blind id
  | work lane => exact s.recordWork_blind id lane
  | close => exact s.recordClose_blind id
  | newHeap | ask | forget | giveBack => rfl

end

/-- What is given back is known by its number. -/
def Move.blind : Move → Move
  | .giveBack b => .giveBack (b.cut 0)
  | m => m

variable {s t u : Service fs codec} {m : Move} {ms : List Move} {log more : List Incident} {id : Nat}

theorem step_alike (hid : id < s.nextId) (hst : s.blind id = t.blind id) (h : s.step m = some u) :
    ∃ m' v, m'.blind = m.blind ∧ t.step m' = some v ∧ u.blind id = v.blind id ∧
      (s.record m).map (Incident.blind id) = (t.record m').map (Incident.blind id) := by
  have hnext : s.nextId = t.nextId := (congrArg nextId hst :)
  by_cases hback : ∃ b, m = .giveBack b
  · obtain ⟨b, rfl⟩ := hback
    have htaken : s.taken.map (·.cut 0) = t.taken.map (·.cut 0) := (congrArg taken hst :)
    simp only [step, Option.ite_none_right_eq_some, Option.some.injEq] at h
    obtain ⟨hb, rfl⟩ := h
    have hmem : b.cut 0 ∈ t.taken.map (·.cut 0) := htaken ▸ List.mem_map_of_mem hb
    obtain ⟨c, hc, hcut⟩ := List.mem_map.1 hmem
    refine ⟨.giveBack c, t.giveBack c, ?_, if_pos hc, ?_, rfl⟩
    · simp only [Move.blind, hcut]
    · rw [← giveBack_blind, ← giveBack_blind, hst, hcut]
  · have hback : ∀ b, m ≠ .giveBack b := fun b hb ↦ hback ⟨b, hb⟩
    have hs : ∀ o, m = .enter o → s.nextId ≠ id := fun _ _ ↦ Nat.ne_of_gt hid
    have ht : ∀ o, m = .enter o → t.nextId ≠ id := fun _ _ ↦ hnext ▸ Nat.ne_of_gt hid
    have hstep : (t.step m).map (blind id) = some (u.blind id) := by
      rw [← step_blind id t ht hback, ← hst, step_blind id s hs hback, h]
      rfl
    obtain ⟨v, hv, huv⟩ := Option.map_eq_some_iff.1 hstep
    refine ⟨m, v, rfl, hv, huv.symm, ?_⟩
    rw [← record_blind id t ht, ← hst, record_blind id s hs]

/-- Whatever goes on in one run can go on in one that looks the same so far, and will look the same. -/
theorem follow_alike (hid : id < s.nextId) (hst : s.blind id = t.blind id)
    (h : s.follow ms = some (log, u)) :
    ∃ ms' log' v, ms'.map Move.blind = ms.map Move.blind ∧ t.follow ms' = some (log', v) ∧
      u.blind id = v.blind id ∧ log.map (Incident.blind id) = log'.map (Incident.blind id) := by
  induction ms generalizing s t log with
  | nil =>
    cases h
    exact ⟨[], [], t, rfl, rfl, hst, rfl⟩
  | cons m ms ih =>
    obtain ⟨s₁, hs₁, h⟩ := Option.bind_eq_some_iff.1 h
    obtain ⟨⟨rest, w⟩, hrest, h⟩ := Option.map_eq_some_iff.1 h
    cases h
    obtain ⟨m', t₁, hm, ht₁, hst₁, hrecord⟩ := step_alike hid hst hs₁
    have hid₁ : id < s₁.nextId := Nat.lt_of_lt_of_le hid (step_transition m hs₁).numbered.2
    obtain ⟨ms', rest', v, hms, hfollow, huv, hlog⟩ := ih hid₁ hst₁ hrest
    refine ⟨m' :: ms', t.record m' ++ rest', v, ?_, ?_, huv, ?_⟩
    · simp only [List.map_cons, hm, hms]
    · simp only [follow, ht₁, hfollow, Option.bind_some, Option.map_some]
    · rw [List.map_append, List.map_append, hrecord, hlog]

end Service

end QueuedFiles
