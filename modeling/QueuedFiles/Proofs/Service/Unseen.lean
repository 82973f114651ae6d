import QueuedFiles.Proofs.Blind
import QueuedFiles.Proofs.Service.Sample

/-!
The moves of a service as they are seen by somebody who does not see terminators: from two states that
look the same, the same moves can be made, and what comes of them looks the same.
-/

namespace QueuedFiles

def Outcome.blind (o : Outcome) : Outcome := { o with buffer := o.buffer.map (·.cut o.size) }

@[simp] theorem Outcome.blind_blind (o : Outcome) : o.blind.blind = o.blind := by
  simp [blind, Function.comp_def, Buffer.cut_cut]

namespace Ticket

def blind (k : Ticket) : Ticket := { k with outcome := k.outcome.map Outcome.blind }

variable (k : Ticket)

@[simp] theorem blind_blind : k.blind.blind = k.blind := by
  simp [blind, Function.comp_def]

theorem blind_look (q : Question) : (k.look q).2.blind = (k.blind.look q).2 := by
  cases q with
  | buffer => cases ho : k.outcome <;> simp [look, blind, ho, Outcome.blind]
  | result | code | size => rfl

/-- Of a buffer that is handed over only the number is seen. -/
theorem handed_blind (q : Question) :
    (k.blind.look q).1.buffer?.toList.map (·.cut 0) = (k.look q).1.buffer?.toList.map (·.cut 0) := by
  cases q with
  | buffer =>
    cases ho : k.outcome with
    | none => simp [look, blind, ho]
    | some o => cases hb : o.buffer <;>
        simp [look, blind, ho, Outcome.blind, hb, Answer.buffer?, Buffer.cut_cut]
  | result | code | size => rfl

theorem blind_release : k.release.blind = k.blind.release := by
  unfold release
  change _ = if k.held then { k.blind with released := true } else
    ({ k.blind with released := true } : Ticket).withoutBuffer
  dsimp only
  split
  · rfl
  · exact blind_look { k with released := true } .buffer

theorem blind_forget : k.forget.blind = k.blind.forget := by
  unfold forget
  change _ = if k.released then ({ k.blind with held := false } : Ticket).withoutBuffer else
    { k.blind with held := false }
  dsimp only
  split
  · exact blind_look { k with held := false } .buffer
  · rfl

theorem releaseOption_blind (hs : Heaps) :
    hs.releaseOption k.blind.buffer = hs.releaseOption k.buffer := by
  cases ho : k.outcome with
  | none => simp [buffer, blind, ho]
  | some o => simp [buffer, blind, ho, Outcome.blind]

/-- What a ticket gives up or keeps is not seen to be any longer or shorter. -/
theorem releaseOption_bind {f : Ticket → Option Buffer}
    (hf : ∀ k (hs : Heaps), hs.releaseOption (f (blind k)) = hs.releaseOption (f k)) (x : Option Ticket)
    (hs : Heaps) : hs.releaseOption ((x.map blind).bind f) = hs.releaseOption (x.bind f) := by
  cases x with
  | none => rfl
  | some k => exact hf k hs

theorem blind_updateAll {f g : Ticket → Ticket} (hfg : ∀ k, (f k).blind = g k.blind) (ts : List Ticket)
    (id : Nat) : (updateAll ts id f).map blind = updateAll (ts.map blind) id g := by
  simp only [updateAll, List.map_map]
  refine List.map_congr_left fun k _ ↦ ?_
  change (if k.id = id then f k else k).blind = if k.id = id then g k.blind else k.blind
  split
  · exact hfg k
  · rfl

end Ticket

def Message.blind (id : Nat) : Message Request → Message Request
  | .payload r => .payload (r.blind id)
  | .shutdown => .shutdown

namespace Queue

def blind (id : Nat) (q : Queue Request) : Queue Request :=
  { q with messages := q.messages.map (Message.blind id) }

variable (id : Nat) (q : Queue Request)

@[simp] theorem blind_blind : (q.blind id).blind id = q.blind id := by
  have hm : ∀ m : Message Request, (m.blind id).blind id = m.blind id := by
    intro m
    cases m <;> simp [Message.blind]
  simp [blind, Function.comp_def, hm]

@[simp] theorem isOpen_blind : (q.blind id).isOpen = q.isOpen := rfl

theorem payloads_blind : (q.blind id).payloads = q.payloads.map (Request.blind id) := by
  simp only [payloads, blind, List.filterMap_map, List.map_filterMap]
  congr 1
  funext m
  cases m <;> rfl

theorem offer_blind (m : Message Request) :
    (q.blind id).offer (m.blind id) = match q.offer m with
      | .taken t => .taken (t.blind id)
      | .full => .full
      | .closed => .closed := by
  unfold offer
  by_cases ho : q.isOpen = true
  · by_cases hroom : q.messages.length < q.capacity <;> simp [blind, ho, hroom]
  · simp [blind, ho]

theorem offer_payload_blind (r : Request) :
    (q.blind id).offer (.payload (r.blind id)) = match q.offer (.payload r) with
      | .taken t => .taken (t.blind id)
      | .full => .full
      | .closed => .closed :=
  q.offer_blind id (.payload r)

theorem offer_shutdown_blind :
    (q.blind id).offer .shutdown = match q.offer .shutdown with
      | .taken t => .taken (t.blind id)
      | .full => .full
      | .closed => .closed :=
  q.offer_blind id .shutdown

theorem take?_blind :
    (q.blind id).take? = q.take?.map fun x ↦ (x.1.blind id, x.2.blind id) := by
  unfold take? blind
  cases q.messages <;> rfl

end Queue

namespace Worker

def blind (id : Nat) : Worker → Worker
  | .serving r => .serving (r.blind id)
  | .coding r room => .coding (r.blind id) room
  | .routing r next => .routing (r.blind id) next
  | w => w

@[simp] theorem blind_blind (id : Nat) (w : Worker) : (w.blind id).blind id = w.blind id := by
  cases w <;> simp [blind]

theorem blind_coding (id : Nat) (r : Request) (room : Option Reservation) :
    (coding r room).blind id = .coding (r.blind id) room := rfl

end Worker

namespace Service

variable {fs : FileSystem} {codec : Codec}

def blind (id : Nat) (s : Service fs codec) : Service fs codec :=
  { s with
    heaps := s.heaps.blind
    fileQueue := s.fileQueue.blind id
    codecQueue := s.codecQueue.blind id
    fileWorker := s.fileWorker.blind id
    codecWorker := s.codecWorker.blind id
    entering := s.entering.map (Request.blind id)
    tickets := s.tickets.map Ticket.blind
    taken := s.taken.map (·.cut 0) }

section

variable (id : Nat) (s : Service fs codec) (lane : Lane)

@[simp] theorem blind_blind : (s.blind id).blind id = s.blind id := by
  simp [blind, Function.comp_def, Buffer.cut_cut]

@[simp] theorem queue_blind : (s.blind id).queue lane = (s.queue lane).blind id := by
  cases lane <;> rfl

@[simp] theorem worker_blind : (s.blind id).worker lane = (s.worker lane).blind id := by
  cases lane <;> rfl

@[simp] theorem blind_setQueue (q : Queue Request) :
    (s.setQueue lane q).blind id = (s.blind id).setQueue lane (q.blind id) := by
  cases lane <;> rfl

@[simp] theorem blind_setWorker (w : Worker) :
    (s.setWorker lane w).blind id = (s.blind id).setWorker lane (w.blind id) := by
  cases lane <;> rfl

theorem blind_updateTicket {f g : Ticket → Ticket} (hfg : ∀ k, (f k).blind = g k.blind) (i : Nat) :
    (s.updateTicket i f).blind id = (s.blind id).updateTicket i g := by
  simp only [updateTicket, blind, Ticket.blind_updateAll hfg]

theorem ticket?_blind (i : Nat) : (s.blind id).ticket? i = (s.ticket? i).map Ticket.blind :=
  List.find?_map ..

@[simp] theorem blind_discard (r : Request) :
    (s.discard r).blind id = (s.blind id).discard (r.blind id) := by
  simp [discard, blind]

theorem blind_finish (staged : Staged) (a : Telemetry.Activity) (added : Option Telemetry.Addition) :
    (s.finish lane staged a added).blind id =
      (s.blind id).finish lane (staged.blind id) a added := by
  unfold finish
  rw [blind_setWorker, Staged.routed_blind, Staged.next_blind]
  rfl

theorem find_entering_blind (i : Nat) :
    (s.blind id).entering.find? (fun r ↦ r.id = i) =
      (s.entering.find? fun r ↦ r.id = i).map (Request.blind id) :=
  List.find?_map ..

theorem push_blind (i : Nat) :
    (s.blind id).push i = (s.push i).map fun x ↦ (x.1, x.2.blind id) := by
  simp only [push, find_entering_blind]
  cases s.entering.find? fun r ↦ r.id = i with
  | none => rfl
  | some r =>
    simp only [Option.map_some, Request.entryLane_blind, queue_blind, Queue.offer_payload_blind]
    have hentering : (s.blind id).entering.filter (fun r ↦ r.id ≠ i) =
        (s.entering.filter fun r ↦ r.id ≠ i).map (Request.blind id) :=
      List.filter_map ..
    have htickets : (s.blind id).tickets.filter (fun k ↦ k.id ≠ i) =
        (s.tickets.filter fun k ↦ k.id ≠ i).map Ticket.blind :=
      List.filter_map ..
    rw [hentering, htickets]
    cases (s.queue (entryLane r.operation r.flags)).offer (.payload r) with
    | full => rfl
    | taken q =>
      simp only [Option.map_some, blind_setQueue]
      rfl
    | closed =>
      simp only [Option.map_some, discard, Request.releaseOption_blind]
      simp [blind]

theorem take_blind : (s.blind id).take lane = (s.take lane).map (blind id) := by
  simp only [take, queue_blind, Queue.take?_blind]
  cases (s.queue lane).take? with
  | none => rfl
  | some x =>
    obtain ⟨m, q⟩ := x
    cases m with
    | payload r =>
      simp only [Option.map_some, Message.blind, blind_setWorker, blind_setQueue]
      rfl
    | shutdown =>
      simp only [Option.map_some, Message.blind, blind_setWorker, blind_setQueue]
      rfl

theorem route_blind (r : Request) (next : Next) :
    (s.blind id).route lane (r.blind id) next = (s.route lane r next).map (blind id) := by
  cases next with
  | complete =>
    have hticket := s.blind_updateTicket id (f := (·.publish r.completed.outcome))
      (g := (·.publish (r.blind id).completed.outcome)) (fun _ ↦ rfl) r.id
    simp only [route, Option.map_some, blind_setWorker, hticket]
    rfl
  | handOff onward =>
    simp only [route, queue_blind, Queue.offer_payload_blind]
    cases (s.queue onward).offer (.payload r) with
    | full => rfl
    | taken q => simp [Worker.blind]
    | closed =>
      simp [Worker.blind]
      rfl

theorem signal_blind (i : Nat) : (s.blind id).signal lane i = (s.signal lane i).blind id := by
  have hticket := s.blind_updateTicket id (f := (·.signal)) (g := (·.signal)) (fun _ ↦ rfl) i
  simp only [signal, blind_setWorker, ← hticket]
  rfl

theorem release_blind (i : Nat) : (s.blind id).release lane i = (s.release lane i).blind id := by
  have hticket := s.blind_updateTicket id (f := (·.release)) Ticket.blind_release i
  have hleft := Ticket.releaseOption_bind (f := fun k ↦ if k.held then none else k.buffer)
    (fun k hs ↦ by cases hk : k.held <;> simp [Ticket.blind, hk, ← k.releaseOption_blind hs])
    (s.ticket? i) s.heaps.blind
  simp only [release, blind_setWorker, ticket?_blind, ← hticket]
  congr 1
  simp only [blind, Heaps.blind_releaseOption, hleft]

theorem forget_blind (i : Nat) : (s.blind id).forget i = (s.forget i).blind id := by
  have hticket := s.blind_updateTicket id (f := (·.forget)) Ticket.blind_forget i
  have hleft := Ticket.releaseOption_bind (f := fun k ↦ if k.released then k.buffer else none)
    (fun k hs ↦ by cases hk : k.released <;> simp [Ticket.blind, hk, ← k.releaseOption_blind hs])
    (s.ticket? i) s.heaps.blind
  simp only [forget, ticket?_blind, ← hticket]
  simp only [blind, Heaps.blind_releaseOption, hleft]

theorem giveBack_blind (b : Buffer) : (s.blind id).giveBack (b.cut 0) = (s.giveBack b).blind id := by
  have htaken : (s.blind id).taken.filter (fun c ↦ c.key ≠ (b.cut 0).key) =
      (s.taken.filter fun c ↦ c.key ≠ b.key).map (·.cut 0) :=
    List.filter_map ..
  have hrelease : s.heaps.blind.release (b.cut 0) = (s.heaps.release b).blind :=
    (s.heaps.blind_release b.heap b.id).symm
  simp only [giveBack, htaken]
  simp only [blind, hrelease]

theorem mark_blind (following : Closing) :
    (s.blind id).mark lane following = (s.mark lane following).map (blind id) := by
  simp only [mark, queue_blind, Queue.offer_shutdown_blind]
  cases (s.queue lane).offer .shutdown with
  | full => rfl
  | taken q => cases lane <;> rfl
  | closed => rfl

theorem join_blind (following : Closing) :
    (s.blind id).join lane following = (s.join lane following).map (blind id) := by
  simp only [join, worker_blind]
  cases s.worker lane <;> rfl

theorem dismantleQueue_blind :
    (s.blind id).dismantleQueue lane = (s.dismantleQueue lane).blind id := by
  have hlost : ((s.blind id).queue lane).payloads =
      (s.queue lane).payloads.map (Request.blind id) := by
    rw [queue_blind, Queue.payloads_blind]
  have hheaps := s.heaps.blind_discardAll id (s.queue lane).payloads
  simp only [Queue.payloads] at hlost hheaps
  cases lane <;> simp only [dismantleQueue, Queue.dismantle, discardAll, setQueue, hlost] <;>
    simp only [blind, hheaps] <;> rfl

theorem close_blind : (s.blind id).close = s.close.map (blind id) := by
  have hclosing : (s.blind id).closing = s.closing := rfl
  unfold close
  rw [hclosing]
  cases s.closing with
  | notYet =>
    have hentering : (s.blind id).entering.isEmpty = s.entering.isEmpty := List.isEmpty_map
    rw [hentering]
    dsimp only
    split <;> rfl
  | markingFiles => exact s.mark_blind id ..
  | joiningFiles => exact s.join_blind id ..
  | markingCodec => exact s.mark_blind id ..
  | joiningCodec => exact s.join_blind id ..
  | dismantling =>
    simp only [dismantleQueue_blind]
    rfl
  | done => rfl

/-- What is drawn for an order is not seen to be any longer or shorter. -/
theorem draw_blind (o : Order) (own : HeapId) (hs : Heaps) :
    (o.draw own hs.blind).1 = (o.draw own hs).1 ∧
      (o.draw own hs.blind).2.blind = (o.draw own hs).2.blind := by
  cases o with
  | read => simp [Order.draw]
  | write path bytes => simp [Order.draw]

theorem request_blind {o : Order} {n : Nat} (hn : n ≠ id) (path : Path) (k : HeapId)
    (b : Option Buffer) : (o.request n path k b).blind id = o.request n path k b := by
  cases b <;> simp [Order.request, Request.blind, hn, Buffer.cut_length]

theorem enter_blind {o : Order} (hid : s.nextId ≠ id) :
    ((s.blind id).enter o).1 = (s.enter o).1 ∧
      ((s.blind id).enter o).2.blind id = (s.enter o).2.blind id := by
  obtain ⟨hbuffer, hheaps⟩ := draw_blind o s.heap s.heaps
  have hlimit : Path.ofText o.path (s.blind id).config.maxPathLength.toNat =
      Path.ofText o.path s.config.maxPathLength.toNat := rfl
  have hdraw : o.draw (s.blind id).heap (s.blind id).heaps = o.draw s.heap s.heaps.blind := rfl
  simp only [enter, hlimit, hdraw, hbuffer]
  cases Path.ofText o.path s.config.maxPathLength.toNat with
  | error e => simp [blind, hheaps, Function.comp_def, Buffer.cut_cut]
  | ok path =>
    refine ⟨rfl, ?_⟩
    simp [blind, hheaps, request_blind id hid, Function.comp_def, Buffer.cut_cut]

theorem finish_alike {t : Service fs codec} {staged staged' : Staged} (a : Telemetry.Activity)
    {added added' : Option Telemetry.Addition} (hs : s.blind id = t.blind id)
    (hstaged : staged.blind id = staged'.blind id) (hadded : added = added') :
    (s.finish lane staged a added).blind id = (t.finish lane staged' a added').blind id := by
  rw [blind_finish, blind_finish, hs, hstaged, hadded]

theorem serveFile_blind (r : Request) :
    ((s.blind id).serveFile (r.blind id)).blind id = (s.serveFile r).blind id := by
  have hrun := FileStage.run_blind id s.files s.heaps r
  rcases hseen : FileStage.run fs s.files s.heaps.blind (r.blind id) with ⟨seen, after⟩
  rcases hs : FileStage.run fs s.files s.heaps r with ⟨staged, after'⟩
  rw [hseen, hs] at hrun
  obtain ⟨hstaged, rfl⟩ : seen.blind id = staged.blind id ∧ after = after' := hrun
  have hseen : FileStage.run fs (s.blind id).files (s.blind id).heaps (r.blind id) = (seen, after) :=
    hseen
  simp only [serveFile, hseen, hs]
  refine finish_alike id _ .file _ ?_ hstaged ?_
  · exact congrArg (fun t : Service fs codec ↦ { t with files := after }) (s.blind_blind id)
  · -- What is counted of a stage is seen of it.
    have hresult : seen.result = staged.result := (congrArg Staged.result hstaged :)
    rw [hresult]
    cases staged.result with
    | ok => exact (congrArg (fun st ↦ some (FileStage.addition st.request)) hstaged :)
    | error e => rfl

theorem serveCodec_blind (r : Request) :
    ((s.blind id).serveCodec (r.blind id)).blind id = (s.serveCodec r).blind id := by
  have hop : (r.blind id).operation = r.operation := rfl
  have hmax : (s.blind id).config = s.config := rfl
  simp only [serveCodec, hop, hmax]
  cases r.operation with
  | write => simp [blind, Worker.blind_coding, Function.comp_def, Buffer.cut_cut]
  | read =>
    cases CodecStage.capacity? s.config.maxDecompressedSize.toNat with
    | none =>
      refine finish_alike id _ .codec _ (s.blind_blind id) ?_ rfl
      exact CodecStage.overflow_blind id s.heaps r _
    | some capacity =>
      have hheap : (r.blind id).heap = r.heap := rfl
      simp [blind, Worker.blind_coding, hheap, Function.comp_def, Buffer.cut_cut]

theorem crash_blind (r : Request) (room : Option Reservation) :
    (s.blind id).crash (r.blind id) room = (s.crash r room).blind id := by
  cases room <;> simp [crash, blind, discard, closeQueue, setQueue, setWorker, queue] <;>
    exact ⟨rfl, rfl⟩

theorem callCodec_blind (r : Request) (room : Option Reservation) :
    ((s.blind id).callCodec (r.blind id) room).map (blind id) =
      (s.callCodec r room).map (blind id) := by
  have hstate : (s.blind id).codecState = s.codecState := rfl
  have hmax : (s.blind id).config = s.config := rfl
  have hcalled : ∀ state, ({ s.blind id with codecState := state } : Service fs codec).blind id =
      ({ s with codecState := state } : Service fs codec).blind id := fun state ↦
    congrArg (fun t : Service fs codec ↦ { t with codecState := state }) (s.blind_blind id)
  cases room with
  | none =>
    simp only [callCodec, hstate, Request.payload_blind]
    cases codec.compress s.codecState r.payload with
    | waits => rfl
    | crashes => simp [crash_blind]
    | returns answer state =>
      simp only [Option.map_some, Option.some.injEq]
      refine finish_alike id _ .codec _ (hcalled state) ?_ rfl
      exact CodecStage.compressed_blind id s.heaps r _
  | some room =>
    simp only [callCodec, hstate, hmax, Request.payload_blind]
    cases codec.decompress s.codecState r.payload s.config.maxDecompressedSize.toNat with
    | waits => rfl
    | crashes => simp [crash_blind]
    | returns d state =>
      simp only [Option.map_some, Option.some.injEq]
      refine finish_alike id _ .codec _ (hcalled state) ?_ rfl
      exact CodecStage.decompressed_blind id s.heaps r _ room _ _

theorem ask_blind (i : Nat) (q : Question) :
    ((s.blind id).ask i q).map (fun x ↦ x.2.blind id) = (s.ask i q).map fun x ↦ x.2.blind id := by
  simp only [ask, ticket?_blind]
  cases s.ticket? i with
  | none => rfl
  | some k =>
    have hsignaled : k.blind.signaled = k.signaled := rfl
    simp only [Option.map_some, Option.bind_some, Ticket.ask, Ticket.wait, hsignaled]
    cases k.signaled with
    | false => rfl
    | true =>
      have hticket := s.blind_updateTicket id (f := fun k ↦ (k.look q).2)
        (g := fun k ↦ (k.look q).2) (fun k ↦ k.blind_look q) i
      have hhanded := k.handed_blind q
      simp only [↓reduceIte, Option.map_some, ← hticket]
      simp [blind, hhanded, Function.comp_def, Buffer.cut_cut]

/-- What looks the same in two states looks the same from outside of them. -/
theorem map_blind {x y : Option (Service fs codec)} (h : x = y.map (blind id)) :
    x.map (blind id) = y.map (blind id) := by
  rw [h, Option.map_map]
  congr 1
  funext s
  exact s.blind_blind id

theorem work_blind : ((s.blind id).work lane).map (blind id) = (s.work lane).map (blind id) := by
  simp only [work, worker_blind]
  cases s.worker lane with
  | idle => exact map_blind id (s.take_blind id lane)
  | serving r =>
    cases lane with
    | file => exact congrArg some (s.serveFile_blind id r)
    | codec => exact congrArg some (s.serveCodec_blind id r)
  | coding r room =>
    cases lane with
    | file => rfl
    | codec => exact s.callCodec_blind id r room
  | routing r next => exact map_blind id (s.route_blind id lane r next)
  | signaling i => exact map_blind id (congrArg some (s.signal_blind id lane i))
  | releasing i => exact map_blind id (congrArg some (s.release_blind id lane i))
  | leaving =>
    refine map_blind id (congrArg some ?_)
    rw [blind_setWorker, closeQueue, closeQueue, blind_setQueue, queue_blind]
    rfl
  | gone => rfl

/-- Apart from entering with what is not seen, and from giving back what is. -/
theorem step_blind {m : Move} (henter : ∀ o, m = .enter o → s.nextId ≠ id)
    (hback : ∀ b, m ≠ .giveBack b) :
    ((s.blind id).step m).map (blind id) = (s.step m).map (blind id) := by
  cases m with
  | newHeap name =>
    refine map_blind id (congrArg some ?_)
    simp only [blind, Heaps.blind_create]
  | enter o =>
    have hadmits : (s.blind id).admits o = s.admits o := by
      cases o <;> simp [admits, blind]
    have hclosing : (s.blind id).closing = s.closing := rfl
    simp only [step, hadmits, hclosing]
    split
    · exact congrArg some (s.enter_blind id (henter o rfl)).2
    · rfl
  | push i =>
    refine map_blind id ?_
    simp only [step, push_blind, Option.map_map]
    rfl
  | work lane => exact s.work_blind id lane
  | close => exact map_blind id (s.close_blind id)
  | ask i q =>
    have hask := s.ask_blind id i q
    simp only [step, Option.map_map]
    exact hask
  | forget i => exact map_blind id (congrArg some (s.forget_blind id i))
  | giveBack b => exact absurd rfl (hback b)

end

end Service

end QueuedFiles
