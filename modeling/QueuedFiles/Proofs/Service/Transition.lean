import QueuedFiles.Proofs.Queue
import QueuedFiles.Proofs.Service.History
import QueuedFiles.Proofs.Service.Stage

/-!
The moves of a service one by one: what each needs, what it leaves behind, and what the log says of
it. Every invariant is proved along these rules, so that no other proof opens a move.
-/

namespace QueuedFiles

open Telemetry

namespace Service

variable {fs : FileSystem} {codec : Codec}

/-- A stage that ends with the next move of a worker, and what it does to the world: the staged
request, what is booked, the files and the codec's state. -/
inductive StageEnd (s : Service fs codec) : Lane → Request → Staged → Activity →
    Option Addition → fs.State → codec.State → Prop
  | file {r : Request} {staged : Staged} {files : fs.State}
      (hw : s.worker .file = .serving r)
      (hs : FileStage.run fs s.files s.heaps r = (staged, files)) :
      StageEnd s .file r staged (FileStage.activity r.operation)
        (match staged.result with
          | .ok () => some (FileStage.addition staged.request)
          | .error _ => none) files s.codecState
  | overflow {r : Request}
      (hw : s.worker .codec = .serving r) (ho : r.operation = .read)
      (hc : CodecStage.capacity? s.config.maxDecompressedSize.toNat = none) :
      StageEnd s .codec r (CodecStage.overflow s.config.maxDecompressedSize.toNat s.heaps r)
        .decompress none s.files s.codecState
  | compress {r : Request} {answer : Except BlockError Bytes} {state : codec.State}
      (hw : s.worker .codec = .coding r none)
      (hc : codec.compress s.codecState r.payload = .returns answer state) :
      StageEnd s .codec r
        (CodecStage.compressed s.heaps r (CodecStage.checkedBlock codec.name r answer)) .compress
        (CodecStage.compressAddition r (CodecStage.checkedBlock codec.name r answer)) s.files state
  | decompress {r : Request} {room : Reservation} {d : Decoded} {state : codec.State}
      (hw : s.worker .codec = .coding r (some room))
      (hc : codec.decompress s.codecState r.payload s.config.maxDecompressedSize.toNat =
        .returns d state) :
      StageEnd s .codec r
        (CodecStage.decompressed s.config.maxDecompressedSize.toNat s.heaps r room d.written
          d.reported) .decompress (CodecStage.decompressAddition r d.reported) s.files state

section

variable {s : Service fs codec} {lane : Lane} {r : Request} {staged : Staged} {a : Activity}
  {added : Option Addition} {files : fs.State} {codecState : codec.State}

theorem StageEnd.holds (h : s.StageEnd lane r staged a added files codecState) :
    s.worker lane = .serving r ∨ ∃ room, s.worker lane = .coding r room := by
  cases h with
  | file hw | overflow hw => exact .inl hw
  | compress hw | decompress hw => exact .inr ⟨_, hw⟩

theorem StageEnd.resized (h : s.StageEnd lane r staged a added files codecState) :
    r.Resized staged.request := by
  cases h with
  | file hw hs =>
    have hr := FileStage.run_resized s.files s.heaps r
    rwa [hs] at hr
  | overflow => exact CodecStage.overflow_resized _ _ r
  | compress => exact CodecStage.compressed_resized _ r _
  | decompress => exact CodecStage.decompressed_resized _ _ r _ _ _

end

/-- A codec stage up to the call: what the worker has in hand then, and the heaps. -/
inductive Prepared (s : Service fs codec) : Request → Option Reservation → Heaps → Prop
  | write {r : Request} (hw : s.worker .codec = .serving r) (ho : r.operation = .write) :
      Prepared s r none s.heaps
  | read {r : Request} {capacity : Nat} (hw : s.worker .codec = .serving r)
      (ho : r.operation = .read)
      (hc : CodecStage.capacity? s.config.maxDecompressedSize.toNat = some capacity) :
      Prepared s r (some (s.heaps.reserve r.heap capacity).1) (s.heaps.reserve r.heap capacity).2

theorem Prepared.holds {s : Service fs codec} {r : Request} {room : Option Reservation}
    {heaps : Heaps} (h : s.Prepared r room heaps) : s.worker .codec = .serving r := by
  cases h with
  | write hw | read hw => exact hw

/-- The two markings of a shutdown, with what comes behind each. -/
inductive Marking : Closing → Lane → Closing → Prop
  | file : Marking .markingFiles .file .joiningFiles
  | codec : Marking .markingCodec .codec .joiningCodec

/-- The two waits of a shutdown, with what comes behind each. -/
inductive Joining : Closing → Lane → Closing → Prop
  | file : Joining .joiningFiles .file .markingCodec
  | codec : Joining .joiningCodec .codec .dismantling

/-- The ways in which a move can come out. -/
inductive Transition (s : Service fs codec) : List Incident → Service fs codec → Prop
  | newHeap (name : String) : Transition s [] { s with heaps := (s.heaps.create name).2 }
  | turnedAway (o : Order) :
      Transition s []
        { s with heaps := (o.draw s.heap s.heaps).2.releaseOption (o.draw s.heap s.heaps).1 }
  | entered (o : Order) (path : Path) (hc : s.closing = .notYet) (ha : s.admits o)
      (hp : Path.ofText o.path s.config.maxPathLength.toNat = .ok path) :
      Transition s [.entered s.nextId o]
        { s with
          heaps := (o.draw s.heap s.heaps).2
          nextId := s.nextId + 1
          entering :=
            s.entering ++ [o.request s.nextId path (o.heap s.heap) (o.draw s.heap s.heaps).1]
          tickets := s.tickets ++
            [.ofRequest (o.request s.nextId path (o.heap s.heap) (o.draw s.heap s.heaps).1)] }
  | accepted (r : Request) (lane : Lane) (hr : r ∈ s.entering)
      (hl : lane = entryLane r.operation r.flags)
      (ho : (s.queue lane).isOpen = true)
      (hc : (s.queue lane).messages.length < (s.queue lane).capacity) :
      Transition s [.accepted r]
        (({ s with entering := s.entering.filter fun k ↦ k.id ≠ r.id } : Service fs codec).setQueue
          lane ((s.queue lane).extend (.payload r)))
  | refused (r : Request) (hr : r ∈ s.entering)
      (ho : (s.queue (entryLane r.operation r.flags)).isOpen = false) :
      Transition s [.refused r]
        { s with
          heaps := s.heaps.releaseOption r.buffer
          entering := s.entering.filter fun k ↦ k.id ≠ r.id
          tickets := s.tickets.filter fun k ↦ k.id ≠ r.id }
  | taken (lane : Lane) (r : Request) (ms : List (Message Request)) (hw : s.worker lane = .idle)
      (hq : (s.queue lane).messages = .payload r :: ms) :
      Transition s [.taken lane r]
        ((s.setQueue lane { s.queue lane with messages := ms }).setWorker lane (.serving r.begin))
  | stopped (lane : Lane) (ms : List (Message Request)) (hw : s.worker lane = .idle)
      (hq : (s.queue lane).messages = .shutdown :: ms) :
      Transition s [.stopped lane]
        ((s.setQueue lane { s.queue lane with messages := ms }).setWorker lane .leaving)
  | prepared (r : Request) (room : Option Reservation) (heaps : Heaps)
      (hp : s.Prepared r room heaps) :
      Transition s []
        (({ s with heaps := heaps } : Service fs codec).setWorker .codec (.coding r room))
  | staged (lane : Lane) (r : Request) (staged : Staged) (a : Activity)
      (added : Option Addition) (files : fs.State) (codecState : codec.State)
      (hs : s.StageEnd lane r staged a added files codecState) :
      Transition s [.staged lane r (staged.routed lane) staged.result]
        (({ s with
          heaps := staged.heaps
          files := files
          codecState := codecState
          recorder := (s.book a added staged.result).recorder } : Service fs codec).setWorker lane
            (.routing (staged.routed lane) (staged.next lane)))
  | crashed (r : Request) (room : Option Reservation) (hw : s.worker .codec = .coding r room)
      (hc : s.crashes r room = true) :
      Transition s (.dropped r :: (s.waiting .codec).map .dropped)
        ((({ s with
          heaps := (room.elim s.heaps s.heaps.cancel).releaseOption r.buffer } :
            Service fs codec).setQueue .codec (s.queue .codec).close).setWorker .codec .gone)
  | published (lane : Lane) (r : Request) (hw : s.worker lane = .routing r .complete) :
      Transition s [.published r.id r.completed.outcome]
        (({ s with tickets := Ticket.updateAll s.tickets r.id (·.publish r.completed.outcome) } :
          Service fs codec).setWorker lane (.signaling r.id))
  | handedOff (lane onward : Lane) (r : Request) (hw : s.worker lane = .routing r (.handOff onward))
      (ho : (s.queue onward).isOpen = true)
      (hc : (s.queue onward).messages.length < (s.queue onward).capacity) :
      Transition s [.handedOff onward r]
        ((s.setQueue onward ((s.queue onward).extend (.payload r))).setWorker lane .idle)
  | abandoned (lane onward : Lane) (r : Request) (hw : s.worker lane = .routing r (.handOff onward))
      (ho : (s.queue onward).isOpen = false) :
      Transition s [.dropped r]
        (({ s with
          recorder := s.recorder.count .abandoned
          heaps := s.heaps.releaseOption r.buffer } : Service fs codec).setWorker lane .idle)
  | signaled (lane : Lane) (id : Nat) (hw : s.worker lane = .signaling id) :
      Transition s [.signaled id]
        (({ s with tickets := Ticket.updateAll s.tickets id (·.signal) } :
          Service fs codec).setWorker lane (.releasing id))
  | released (lane : Lane) (id : Nat) (hw : s.worker lane = .releasing id) :
      Transition s [.released id]
        (({ s with
          tickets := Ticket.updateAll s.tickets id (·.release)
          heaps := s.heaps.releaseOption
            ((s.ticket? id).bind fun t ↦ if t.held then none else t.buffer) } :
              Service fs codec).setWorker lane .idle)
  | left (lane : Lane) (hw : s.worker lane = .leaving) :
      Transition s ((s.waiting lane).map .dropped)
        ((s.setQueue lane (s.queue lane).close).setWorker lane .gone)
  | closing (hc : s.closing = .notYet) (he : s.entering = []) :
      Transition s [] { s with closing := .markingFiles }
  | marked (lane : Lane) (following : Closing) (hc : Marking s.closing lane following)
      (ho : (s.queue lane).isOpen = true)
      (hl : (s.queue lane).messages.length < (s.queue lane).capacity) :
      Transition s [.marked lane]
        (({ s with closing := following } : Service fs codec).setQueue lane
          ((s.queue lane).extend .shutdown))
  | unmarked (lane : Lane) (following : Closing) (hc : Marking s.closing lane following)
      (ho : (s.queue lane).isOpen = false) :
      Transition s [] { s with closing := following }
  | joined (lane : Lane) (following : Closing) (hc : Joining s.closing lane following)
      (hw : s.worker lane = .gone) :
      Transition s [] { s with closing := following }
  | dismantled (hc : s.closing = .dismantling) :
      Transition s ((s.waiting .file ++ s.waiting .codec).map .dropped)
        ((({ s with
          heaps := (s.heaps.discardAll s.fileQueue.payloads).discardAll s.codecQueue.payloads
          closing := .done } : Service fs codec).setQueue .file
            { s.fileQueue with messages := [] }).setQueue .codec
              { s.codecQueue with messages := [] })
  | asked (id : Nat) (q : Question) (t : Ticket) (ht : s.ticket? id = some t)
      (hs : t.signaled = true) :
      Transition s []
        { s with
          tickets := Ticket.updateAll s.tickets id (fun k ↦ (k.look q).2)
          taken := s.taken ++ (t.look q).1.buffer?.toList }
  | forgot (id : Nat) :
      Transition s []
        { s with
          tickets := Ticket.updateAll s.tickets id (·.forget)
          heaps := s.heaps.releaseOption
            ((s.ticket? id).bind fun t ↦ if t.released then t.buffer else none) }
  | gaveBack (b : Buffer) (hb : b ∈ s.taken) :
      Transition s []
        { s with heaps := s.heaps.release b, taken := s.taken.filter fun c ↦ c.key ≠ b.key }

variable {s t : Service fs codec}

theorem enter_transition (o : Order) (hc : s.closing = .notYet) (ha : s.admits o) :
    Transition s (s.record (.enter o)) (s.enter o).2 := by
  cases hp : Path.ofText o.path s.config.maxPathLength.toNat with
  | error e => simpa [record, enter, hp] using Transition.turnedAway o
  | ok path => simpa [record, enter, hp, Order.request] using Transition.entered o path hc ha hp

theorem push_transition (id : Nat) (h : (s.push id).map (·.2) = some t) :
    Transition s (s.record (.push id)) t := by
  simp only [record, recordPush, push] at h ⊢
  cases hf : s.entering.find? fun r ↦ r.id = id with
  | none => simp [hf] at h
  | some r =>
    have hr : r ∈ s.entering := List.mem_of_find?_eq_some hf
    have hid : r.id = id := by simpa using List.find?_some hf
    subst hid
    simp only [hf] at h ⊢
    cases ho : (s.queue (entryLane r.operation r.flags)).offer (.payload r) with
    | full => simp [ho] at h
    | taken q =>
      obtain ⟨hopen, hroom, rfl⟩ := Queue.offer_eq_taken ho
      simp only [ho, Option.map_some, Option.some.injEq] at h
      subst h
      exact .accepted r _ hr rfl hopen hroom
    | closed =>
      simp only [ho, Option.map_some, Option.some.injEq] at h
      subst h
      exact .refused r hr (Queue.offer_eq_closed ho)

theorem take_transition (lane : Lane) (hw : s.worker lane = .idle) (h : s.take lane = some t) :
    Transition s (s.recordWork lane) t := by
  simp only [recordWork, hw, take, Queue.take?] at h ⊢
  cases hq : (s.queue lane).messages with
  | nil => simp [hq] at h
  | cons m ms =>
    cases m with
    | payload r =>
      simp only [hq, Option.some.injEq] at h
      subst h
      exact .taken lane r ms hw hq
    | shutdown =>
      simp only [hq, Option.some.injEq] at h
      subst h
      exact .stopped lane ms hw hq

theorem serveFile_transition {r : Request} (hw : s.worker .file = .serving r) :
    Transition s (s.recordStage .file r) (s.serveFile r) := by
  have hs : s.stage? .file = some (FileStage.run fs s.files s.heaps r).1 := by
    simp [stage?, hw]
  simp only [recordStage, hs, serveFile, finish]
  exact .staged .file r _ _ _ _ _ (.file hw rfl)

theorem serveCodec_transition {r : Request} (hw : s.worker .codec = .serving r) :
    Transition s (s.recordStage .codec r) (s.serveCodec r) := by
  simp only [recordStage, stage?, hw, serveCodec]
  cases ho : r.operation with
  | write => exact .prepared r none _ (.write hw ho)
  | read =>
    cases hc : CodecStage.capacity? s.config.maxDecompressedSize.toNat with
    | none => exact .staged .codec r _ _ _ _ _ (.overflow hw ho hc)
    | some capacity => exact .prepared r _ _ (.read hw ho hc)

theorem callCodec_transition {r : Request} {room : Option Reservation}
    (hw : s.worker .codec = .coding r room) (h : s.callCodec r room = some t) :
    Transition s (s.recordWork .codec) t := by
  simp only [recordWork, hw, callCodec] at h ⊢
  cases room with
  | none =>
    simp only at h
    cases hc : codec.compress s.codecState r.payload with
    | waits => simp [hc] at h
    | crashes =>
      have hx : s.crashes r none = true := by simp [crashes, hc]
      simp only [hc, Option.some.injEq] at h
      subst h
      rw [if_pos hx]
      exact .crashed r none hw hx
    | returns answer state =>
      have hx : s.crashes r none = false := by simp [crashes, hc]
      simp only [hc, Option.some.injEq] at h
      subst h
      simp only [hx, Bool.false_eq_true, if_false, recordStage, stage?, hw, hc]
      exact .staged .codec r _ _ _ _ _ (.compress hw hc)
  | some room =>
    simp only at h
    cases hc : codec.decompress s.codecState r.payload s.config.maxDecompressedSize.toNat with
    | waits => simp [hc] at h
    | crashes =>
      have hx : s.crashes r (some room) = true := by simp [crashes, hc]
      simp only [hc, Option.some.injEq] at h
      subst h
      rw [if_pos hx]
      exact .crashed r (some room) hw hx
    | returns d state =>
      have hx : s.crashes r (some room) = false := by simp [crashes, hc]
      simp only [hc, Option.some.injEq] at h
      subst h
      simp only [hx, Bool.false_eq_true, if_false, recordStage, stage?, hw, hc]
      exact .staged .codec r _ _ _ _ _ (.decompress hw hc)

theorem route_transition {lane : Lane} {r : Request} {next : Next}
    (hw : s.worker lane = .routing r next) (h : s.route lane r next = some t) :
    Transition s (s.recordWork lane) t := by
  cases next with
  | complete =>
    simp only [route, Option.some.injEq] at h
    subst h
    simp only [recordWork, hw]
    exact .published lane r hw
  | handOff onward =>
    simp only [route, recordWork, hw] at h ⊢
    cases ho : (s.queue onward).offer (.payload r) with
    | full => simp [ho] at h
    | taken q =>
      obtain ⟨hopen, hroom, rfl⟩ := Queue.offer_eq_taken ho
      simp only [ho, Option.some.injEq] at h
      subst h
      exact .handedOff lane onward r hw hopen hroom
    | closed =>
      simp only [ho, Option.some.injEq] at h
      subst h
      exact .abandoned lane onward r hw (Queue.offer_eq_closed ho)

theorem work_transition (lane : Lane) (h : s.work lane = some t) :
    Transition s (s.recordWork lane) t := by
  unfold work at h
  cases hw : s.worker lane with
  | idle =>
    simp only [hw] at h
    exact take_transition lane hw h
  | serving r =>
    cases lane with
    | file =>
      simp only [hw, Option.some.injEq] at h
      subst h
      simpa only [recordWork, hw] using serveFile_transition hw
    | codec =>
      simp only [hw, Option.some.injEq] at h
      subst h
      simpa only [recordWork, hw] using serveCodec_transition hw
  | coding r room =>
    cases lane with
    | file => simp [hw] at h
    | codec =>
      simp only [hw] at h
      exact callCodec_transition hw h
  | routing r next =>
    simp only [hw] at h
    exact route_transition hw h
  | signaling id =>
    simp only [hw, Option.some.injEq] at h
    subst h
    simp only [recordWork, hw]
    exact .signaled lane id hw
  | releasing id =>
    simp only [hw, Option.some.injEq] at h
    subst h
    simp only [recordWork, hw]
    exact .released lane id hw
  | leaving =>
    simp only [hw, Option.some.injEq] at h
    subst h
    simp only [recordWork, hw]
    exact .left lane hw
  | gone => simp [hw] at h

theorem mark_transition {c following : Closing} {lane : Lane} (hs : s.closing = c)
    (hc : Marking c lane following) (h : s.mark lane following = some t) :
    Transition s (s.recordMark lane) t := by
  unfold mark at h
  unfold recordMark
  cases ho : (s.queue lane).offer .shutdown with
  | full => simp [ho] at h
  | taken q =>
    obtain ⟨hopen, hroom, rfl⟩ := Queue.offer_eq_taken ho
    simp only [ho, Option.some.injEq] at h
    subst h
    cases hc with
    | file => exact .marked .file _ (hs ▸ .file) hopen hroom
    | codec => exact .marked .codec _ (hs ▸ .codec) hopen hroom
  | closed =>
    simp only [ho, Option.some.injEq] at h
    subst h
    exact .unmarked lane following (hs ▸ hc) (Queue.offer_eq_closed ho)

theorem join_transition {lane : Lane} {following : Closing}
    (hc : Joining s.closing lane following) (h : s.join lane following = some t) :
    Transition s [] t := by
  unfold join at h
  split at h
  · next hw =>
    cases h
    exact .joined lane following hc hw
  · cases h

theorem close_transition (h : s.close = some t) : Transition s s.recordClose t := by
  unfold close at h
  unfold recordClose
  cases hc : s.closing <;> simp only [hc] at h ⊢
  case notYet =>
    split at h
    · next he =>
      cases h
      exact .closing hc (by simpa using he)
    · cases h
  case markingFiles => exact mark_transition hc .file h
  case joiningFiles => exact join_transition (hc ▸ .file) h
  case markingCodec => exact mark_transition hc .codec h
  case joiningCodec => exact join_transition (hc ▸ .codec) h
  case dismantling =>
    cases h
    exact .dismantled hc
  case done => cases h

theorem ask_transition (id : Nat) (q : Question) (h : (s.ask id q).map (·.2) = some t) :
    Transition s [] t := by
  unfold ask at h
  cases ht : s.ticket? id with
  | none => simp [ht] at h
  | some k =>
    by_cases hs : k.signaled = true
    · simp only [ht, Option.bind_some, Ticket.ask, Ticket.wait, hs, if_true, Option.map_some,
        Option.some.injEq] at h
      subst h
      exact .asked id q k ht hs
    · simp [ht, Ticket.ask, Ticket.wait, hs] at h

/-- Every move that can be made goes by one of the rules. -/
theorem step_transition (m : Move) (h : s.step m = some t) : Transition s (s.record m) t := by
  cases m with
  | newHeap name =>
    cases h
    exact .newHeap name
  | enter o =>
    simp only [step] at h
    split at h
    · next hg =>
      cases h
      exact enter_transition o hg.1 hg.2
    · cases h
  | push id => exact push_transition id h
  | work lane => exact work_transition lane h
  | close => exact close_transition h
  | ask id q => exact ask_transition id q h
  | forget id =>
    cases h
    exact .forgot id
  | giveBack b =>
    simp only [step] at h
    split at h
    · next hb =>
      cases h
      exact .gaveBack b hb
    · cases h

/-- What a fresh start has and what every transition keeps, the log being told, holds in all runs. -/
theorem Run.invariant {s₀ : Service fs codec} {P : List Incident → Service fs codec → Prop}
    (init : P [] s₀)
    (next : ∀ {log more s t}, P log s → Transition s more t → P (log ++ more) t)
    {log : List Incident} {s : Service fs codec} (h : Run s₀ log s) : P log s := by
  induction h with
  | refl => exact init
  | step m _ hs ih => exact next ih (step_transition m hs)

/-- An incident was logged by a transition, with a run before it and a run behind it. -/
theorem Run.split {s₀ s : Service fs codec} {log : List Incident} {i : Incident}
    (h : Run s₀ log s) (hi : i ∈ log) :
    ∃ pre more rest u v, Run s₀ pre u ∧ Transition u more v ∧ Run s₀ (pre ++ more) v ∧
      Run v rest s ∧ log = pre ++ more ++ rest ∧ i ∈ more := by
  induction h with
  | refl => cases hi
  | @step log t u m h hs ih =>
    rcases List.mem_append.1 hi with hi | hi
    · obtain ⟨pre, more, rest, v, w, hv, ht, hw, hrest, rfl, hm⟩ := ih hi
      exact ⟨pre, more, rest ++ t.record m, v, w, hv, ht, hw, .step m hrest hs, by simp, hm⟩
    · exact ⟨log, t.record m, [], t, u, h, step_transition m hs, .step m h hs, .refl, by simp, hi⟩

end Service

end QueuedFiles
