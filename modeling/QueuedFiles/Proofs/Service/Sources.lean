import QueuedFiles.Proofs.Service.Stakes

/-!
Which heap a buffer comes from. A request keeps the heap that its order names, and all that is drawn
for it is drawn there, be it for as long as one stage.
-/

namespace QueuedFiles

namespace Heaps

variable (hs : Heaps) {h k : HeapId}

/-- No heap but `h` has handed out a number. -/
def DrawsFrom (h : HeapId) (hs ks : Heaps) : Prop :=
  ∀ k, k ≠ h → (ks.get k).nextId = (hs.get k).nextId

@[simp] theorem nextId_release (b : Buffer) (k : HeapId) :
    ((hs.release b).get k).nextId = (hs.get k).nextId :=
  hs.nextId_update (f := (·.release _)) (fun _ ↦ rfl) _ _

@[simp] theorem nextId_releaseOption (b : Option Buffer) (k : HeapId) :
    ((hs.releaseOption b).get k).nextId = (hs.get k).nextId := by
  cases b with
  | none => rfl
  | some b => exact hs.nextId_release b k

@[simp] theorem nextId_cancel (r : Reservation) (k : HeapId) :
    ((hs.cancel r).get k).nextId = (hs.get k).nextId :=
  hs.nextId_update (f := (·.release _)) (fun _ ↦ rfl) _ _

@[simp] theorem nextId_fill (r : Reservation) (bytes : Bytes) (k : HeapId) :
    ((hs.fill r bytes).2.get k).nextId = (hs.get k).nextId :=
  hs.nextId_update (f := (·.resize _ _)) (fun _ ↦ rfl) _ _

@[simp] theorem nextId_discardAll (rs : List Request) (k : HeapId) :
    ((hs.discardAll rs).get k).nextId = (hs.get k).nextId := by
  induction rs generalizing hs with
  | nil => rfl
  | cons r rs ih => exact (ih _).trans (hs.nextId_releaseOption _ _)

theorem drawsFrom_register (n : Nat) : DrawsFrom h hs (hs.update h (·.register n)) := by
  intro k hk
  rw [get_update, if_neg fun hc ↦ hk hc.1]

theorem drawsFrom_adopt (h : HeapId) (bytes : Bytes) : DrawsFrom h hs (hs.adopt h bytes).2 :=
  hs.drawsFrom_register _

theorem drawsFrom_reserve (h : HeapId) (n : Nat) : DrawsFrom h hs (hs.reserve h n).2 :=
  hs.drawsFrom_register _

end Heaps

namespace FileStage

variable {fs : FileSystem} (files : fs.State) (heaps : Heaps) (r : Request)

theorem run_draws : heaps.DrawsFrom r.heap (run fs files heaps r).1.heaps := by
  intro k hk
  unfold run
  split
  · simp only [read]
    repeat' split
    all_goals simp [heaps.drawsFrom_reserve _ _ k hk]
  · rw [(write_frame files heaps r).1]

theorem run_buffer {b : Buffer} (hb : (run fs files heaps r).1.request.buffer = some b) :
    r.buffer = some b ∨ b.heap = r.heap := by
  unfold run at hb
  split at hb
  · simp only [read] at hb
    repeat' split at hb
    all_goals first
      | exact .inl hb
      | cases hb
        exact .inr rfl
  · rw [(write_frame files heaps r).2] at hb
    exact .inl hb

end FileStage

namespace CodecStage

variable (heaps : Heaps) (r : Request)

theorem overflow_draws (max : Nat) : heaps.DrawsFrom r.heap (overflow max heaps r).heaps := by
  intro k hk
  simp only [overflow, Heaps.nextId_releaseOption]
  exact heaps.drawsFrom_adopt _ _ k hk

theorem compressed_draws (block : Except BlockError Bytes) :
    heaps.DrawsFrom r.heap (compressed heaps r block).heaps := by
  intro k hk
  cases block
  all_goals
    simp only [compressed, Heaps.nextId_releaseOption]
    exact heaps.drawsFrom_adopt _ _ k hk

theorem decompressed_draws (max : Nat) (room : Reservation) (written : Bytes)
    (reported : Except BlockError Nat) :
    heaps.DrawsFrom r.heap (decompressed max heaps r room written reported).heaps := by
  intro k _
  simp [decompressed]

end CodecStage

namespace Service

variable {fs : FileSystem} {codec : Codec} {s t : Service fs codec} {lane : Lane} {k : HeapId}

theorem finish_heaps (s : Service fs codec) (lane : Lane) (staged : Staged)
    (a : Telemetry.Activity) (added : Option Telemetry.Addition) :
    (s.finish lane staged a added).heaps = staged.heaps := by
  simp [finish, book]

theorem enter_draws (o : Order) (hk : o.operation = .write → k ≠ s.heap) :
    ((s.enter o).2.heaps.get k).nextId = (s.heaps.get k).nextId := by
  have hdraw : ((o.draw s.heap s.heaps).2.get k).nextId = (s.heaps.get k).nextId := by
    cases o with
    | read => rfl
    | write path bytes => exact s.heaps.drawsFrom_adopt _ _ k (hk rfl)
  unfold enter
  dsimp only
  split <;> simpa using hdraw

theorem push_draws {id : Nat} {a : Except Error Unit} (h : s.push id = some (a, t)) :
    (t.heaps.get k).nextId = (s.heaps.get k).nextId := by
  unfold push at h
  split at h
  · cases h
  · dsimp only at h
    split at h
    · cases h
    · cases h
      simp
    · cases h
      simp [discard]

theorem callCodec_draws {r : Request} {room : Option Reservation} (hk : k ≠ r.heap)
    (h : s.callCodec r room = some t) : (t.heaps.get k).nextId = (s.heaps.get k).nextId := by
  have hcrash : ((s.crash r room).heaps.get k).nextId = (s.heaps.get k).nextId := by
    cases room <;> simp [crash, closeQueue, discard]
  unfold callCodec at h
  split at h
  · split at h
    · cases h
    · cases h
      exact hcrash
    · cases h
      rw [finish_heaps]
      exact CodecStage.compressed_draws _ _ _ k hk
  · dsimp only at h
    split at h
    · cases h
    · cases h
      exact hcrash
    · cases h
      rw [finish_heaps]
      exact CodecStage.decompressed_draws _ _ _ _ _ _ k hk

theorem serveCodec_draws {r : Request} (hk : k ≠ r.heap) :
    ((s.serveCodec r).heaps.get k).nextId = (s.heaps.get k).nextId := by
  unfold serveCodec
  split
  · rfl
  · dsimp only
    split
    · rw [finish_heaps]
      exact CodecStage.overflow_draws _ _ _ k hk
    · exact s.heaps.drawsFrom_reserve _ _ k hk

theorem route_draws {r : Request} {next : Next} (h : s.route lane r next = some t) :
    (t.heaps.get k).nextId = (s.heaps.get k).nextId := by
  unfold route at h
  split at h
  · cases h
    simp [updateTicket]
  · split at h
    · cases h
    · cases h
      simp
    · cases h
      simp [discard, count]

theorem work_draws (h : s.work lane = some t) (hk : ∀ r ∈ (s.worker lane).requests, k ≠ r.heap) :
    (t.heaps.get k).nextId = (s.heaps.get k).nextId := by
  unfold work at h
  cases hw : s.worker lane with
  | idle =>
    simp only [hw, take] at h
    split at h
    · cases h
    all_goals
      cases h
      simp
  | serving r =>
    have hr : k ≠ r.heap := hk r (by simp [hw])
    simp only [hw] at h
    cases lane with
    | file =>
      cases h
      rw [serveFile, finish_heaps]
      exact FileStage.run_draws _ _ _ k hr
    | codec =>
      cases h
      exact serveCodec_draws hr
  | coding r room =>
    simp only [hw] at h
    cases lane with
    | file => cases h
    | codec => exact callCodec_draws (hk r (by simp [hw])) h
  | routing r next =>
    simp only [hw] at h
    exact route_draws h
  | signaling id =>
    simp only [hw] at h
    cases h
    simp [signal, updateTicket]
  | releasing id =>
    simp only [hw] at h
    cases h
    simp [release]
  | leaving =>
    simp only [hw] at h
    cases h
    simp [closeQueue]
  | gone => simp [hw] at h

theorem mark_heaps {following : Closing} (h : s.mark lane following = some t) :
    t.heaps = s.heaps := by
  unfold mark at h
  split at h
  · cases h
  all_goals
    cases h
    simp

theorem join_heaps {following : Closing} (h : s.join lane following = some t) :
    t.heaps = s.heaps := by
  unfold join at h
  split at h
  · cases h
    rfl
  · cases h

theorem close_draws (h : s.close = some t) :
    (t.heaps.get k).nextId = (s.heaps.get k).nextId := by
  unfold close at h
  split at h
  · split at h <;> cases h
    rfl
  · rw [mark_heaps h]
  · rw [join_heaps h]
  · rw [mark_heaps h]
  · rw [join_heaps h]
  · cases h
    simp [dismantleQueue, discardAll, Queue.dismantle]
  · cases h

theorem ask_heaps {id : Nat} {q : Question} {a : Answer} (h : s.ask id q = some (a, t)) :
    t.heaps = s.heaps := by
  unfold ask at h
  split at h
  · cases h
  · cases h
    rfl

/-- A move that draws from a heap is that of a caller with bytes to write, and then it is the
service's own, or that of a worker whose request keeps this heap. -/
theorem step_draws {m : Move} (h : s.step m = some t)
    (hk : (t.heaps.get k).nextId ≠ (s.heaps.get k).nextId) :
    (∃ o, m = .enter o ∧ o.operation = .write ∧ k = s.heap) ∨
      ∃ lane, m = .work lane ∧ ∃ r ∈ (s.worker lane).requests, k = r.heap := by
  by_contra hn
  simp only [not_or, not_exists, not_and] at hn
  obtain ⟨hnenter, hnwork⟩ := hn
  refine hk ?_
  cases m with
  | newHeap name =>
    cases h
    exact (s.heaps.books_create name k).2
  | enter o =>
    simp only [step] at h
    split at h
    · cases h
      exact enter_draws o (hnenter o rfl)
    · cases h
  | push id =>
    obtain ⟨⟨a, u⟩, hp, rfl⟩ := Option.map_eq_some_iff.1 h
    exact push_draws hp
  | work lane => exact work_draws h (hnwork lane rfl)
  | close => exact close_draws h
  | ask id q =>
    obtain ⟨⟨a, u⟩, hp, rfl⟩ := Option.map_eq_some_iff.1 h
    rw [ask_heaps hp]
  | forget id =>
    cases h
    simp [forget]
  | giveBack b =>
    simp only [step] at h
    split at h
    · cases h
      simp [giveBack]
    · cases h

section

variable {log : List Incident} {r : Request} {p : Post} {config : Config} {heap : HeapId}
  {heaps : Heaps} {files : fs.State} {codecState : codec.State}

/-- All that a request at its post has is drawn from its own heap. -/
structure OwnHeap (r : Request) (p : Post) : Prop where
  buffer : ∀ b, r.buffer = some b → b.heap = r.heap
  room : ∀ lane room, p = .hand lane (.coding (some room)) → room.heap = r.heap

theorem StageEnd.own_heap {staged : Staged} {a : Telemetry.Activity}
    {added : Option Telemetry.Addition} (h : s.StageEnd lane r staged a added files codecState)
    (hr : s.At r p) (ho : OwnHeap r p) (hs : Census log s) :
    ∀ b, staged.request.buffer = some b → b.heap = r.heap := by
  intro b hb
  cases h with
  | @file r staged files hw hrun =>
    have hfrom := FileStage.run_buffer s.files s.heaps r (b := b) (by rwa [hrun])
    exact hfrom.elim (ho.buffer b) id
  | overflow =>
    cases hb
    rfl
  | @compress r answer =>
    generalize CodecStage.checkedBlock codec.name r answer = block at hb
    cases block
    all_goals
      cases hb
      rfl
  | @decompress r room d state hw =>
    have hat : s.At r (.hand .codec (.coding (some room))) := hw
    cases hb
    exact ho.room .codec room (hs.unique hr hat rfl).2

theorem Run.own_heap (h : Run (fresh config heap heaps files codecState) log s) (hr : s.At r p) :
    OwnHeap r p := by
  refine h.along (P := fun _ ↦ OwnHeap) ?_ ?_ ?_ hr
  · intro log more s t r h ht ha
    cases ha with
    | entered o path =>
      refine ⟨fun b hb ↦ ?_, fun lane room hp ↦ by cases hp⟩
      cases o with
      | read => cases hb
      | write =>
        cases hb
        rfl
  · intro log more s t r p h ht ho hm
    exact ho
  · intro log more s t q p₀ r p h ht hq ho hf
    cases hf with
    | accepted | handedOff => exact ⟨ho.buffer, fun lane room hp ↦ by cases hp⟩
    | taken => exact ⟨ho.buffer, fun lane room hp ↦ by cases hp⟩
    | prepared hp =>
      refine ⟨ho.buffer, fun lane room he ↦ ?_⟩
      cases he
      cases hp
      rfl
    | staged task he =>
      refine ⟨fun b hb ↦ ?_, fun lane room hp ↦ by cases hp⟩
      have hheap := he.own_heap hq ho h.census b (by simpa using hb)
      simpa [he.resized.heap] using hheap

end

end Service

end QueuedFiles
