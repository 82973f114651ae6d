import QueuedFiles.Service.Step

/-!
What happens to requests in a run of a service, as a log of incidents in the order of the moves.
-/

namespace QueuedFiles

inductive Incident where
  /-- A caller has got a number for its order. -/
  | entered (id : Nat) (o : Order)
  /-- A caller's push has put the request into its first queue. -/
  | accepted (r : Request)
  | refused (r : Request)
  | taken (lane : Lane) (r : Request)
  /-- A stage is over, with the request as it leaves the stage. -/
  | staged (lane : Lane) (r after : Request) (result : Except Error Unit)
  | handedOff (onward : Lane) (r : Request)
  | published (id : Nat) (o : Outcome)
  | signaled (id : Nat)
  /-- Behind the flag its worker has let go of the request. -/
  | released (id : Nat)
  /-- Nobody will ever come to the request any more. -/
  | dropped (r : Request)
  | marked (lane : Lane)
  | stopped (lane : Lane)

namespace Incident

/-- The number of the request that an incident is about. -/
def id? : Incident → Option Nat
  | .entered id _ | .published id _ | .signaled id | .released id => some id
  | .accepted r | .refused r | .taken _ r | .staged _ r .. | .handedOff _ r | .dropped r => some r.id
  | .marked _ | .stopped _ => none

def entered? : Incident → Option Nat
  | .entered id _ => some id
  | _ => none

def accepted? : Incident → Option Request
  | .accepted r => some r
  | _ => none

def refused? : Incident → Option Request
  | .refused r => some r
  | _ => none

def published? : Incident → Option Nat
  | .published id _ => some id
  | _ => none

def signaled? : Incident → Option Nat
  | .signaled id => some id
  | _ => none

def released? : Incident → Option Nat
  | .released id => some id
  | _ => none

def dropped? : Incident → Option Request
  | .dropped r => some r
  | _ => none

end Incident

def ids (rs : List Request) : List Nat := rs.map (·.id)

@[simp] theorem ids_nil : ids [] = [] := rfl

@[simp] theorem ids_cons (r : Request) (rs : List Request) : ids (r :: rs) = r.id :: ids rs := rfl

@[simp] theorem ids_append (rs qs : List Request) : ids (rs ++ qs) = ids rs ++ ids qs :=
  List.map_append

/-- The request that a worker has in hand, if it has one. -/
def Worker.requests : Worker → List Request
  | .serving r | .coding r _ | .routing r _ => [r]
  | .idle | .signaling _ | .releasing _ | .leaving | .gone => []

/-- The request whose outcome a worker has left without having set the flag yet. -/
def Worker.closing : Worker → List Nat
  | .signaling id => [id]
  | .idle | .serving _ | .coding .. | .routing .. | .releasing _ | .leaving | .gone => []

/-- The request that a worker has not let go of yet although the flag is set. -/
def Worker.parting : Worker → List Nat
  | .releasing id => [id]
  | .idle | .serving _ | .coding .. | .routing .. | .signaling _ | .leaving | .gone => []

@[simp] theorem Worker.requests_eq :
    (∀ r, (serving r).requests = [r]) ∧ (∀ r room, (coding r room).requests = [r]) ∧
    (∀ r next, (routing r next).requests = [r]) ∧ idle.requests = [] ∧
    (∀ id, (signaling id).requests = []) ∧ (∀ id, (releasing id).requests = []) ∧
    leaving.requests = [] ∧ gone.requests = [] := by
  simp [requests]

@[simp] theorem Worker.closing_eq :
    (∀ r, (serving r).closing = []) ∧ (∀ r room, (coding r room).closing = []) ∧
    (∀ r next, (routing r next).closing = []) ∧ idle.closing = [] ∧
    (∀ id, (signaling id).closing = [id]) ∧ (∀ id, (releasing id).closing = []) ∧
    leaving.closing = [] ∧ gone.closing = [] := by
  simp [closing]

@[simp] theorem Worker.parting_eq :
    (∀ r, (serving r).parting = []) ∧ (∀ r room, (coding r room).parting = []) ∧
    (∀ r next, (routing r next).parting = []) ∧ idle.parting = [] ∧
    (∀ id, (signaling id).parting = []) ∧ (∀ id, (releasing id).parting = [id]) ∧
    leaving.parting = [] ∧ gone.parting = [] := by
  simp [parting]

@[simp] theorem Incident.filterMap_comp_dropped (rs : List Request) :
    rs.filterMap (entered? ∘ dropped) = [] ∧ rs.filterMap (accepted? ∘ dropped) = [] ∧
    rs.filterMap (refused? ∘ dropped) = [] ∧ rs.filterMap (published? ∘ dropped) = [] ∧
    rs.filterMap (signaled? ∘ dropped) = [] ∧ rs.filterMap (released? ∘ dropped) = [] ∧
    rs.filterMap (dropped? ∘ dropped) = rs := by
  simp [entered?, accepted?, refused?, published?, signaled?, released?, dropped?, Function.comp_def]

namespace Incident

variable {i : Incident} {r : Request} {id : Nat}

theorem accepted?_eq : i.accepted? = some r ↔ i = .accepted r := by cases i <;> simp [accepted?]

theorem refused?_eq : i.refused? = some r ↔ i = .refused r := by cases i <;> simp [refused?]

theorem published?_eq : i.published? = some id ↔ ∃ o, i = .published id o := by
  cases i <;> simp [published?]

theorem signaled?_eq : i.signaled? = some id ↔ i = .signaled id := by cases i <;> simp [signaled?]

theorem released?_eq : i.released? = some id ↔ i = .released id := by cases i <;> simp [released?]

theorem dropped?_eq : i.dropped? = some r ↔ i = .dropped r := by cases i <;> simp [dropped?]

end Incident

section

variable {log : List Incident} {r : Request} {id : Nat}

theorem mem_published :
    id ∈ log.filterMap Incident.published? ↔ ∃ o, .published id o ∈ log := by
  simp only [List.mem_filterMap, Incident.published?_eq]
  constructor
  · intro ⟨i, hi, o, he⟩
    exact ⟨o, he ▸ hi⟩
  · intro ⟨o, ho⟩
    exact ⟨_, ho, o, rfl⟩

theorem mem_signaled : id ∈ log.filterMap Incident.signaled? ↔ .signaled id ∈ log := by
  simp [List.mem_filterMap, Incident.signaled?_eq]

theorem mem_released : id ∈ log.filterMap Incident.released? ↔ .released id ∈ log := by
  simp [List.mem_filterMap, Incident.released?_eq]

theorem accepted_of_mem (h : r ∈ log.filterMap Incident.accepted?) : .accepted r ∈ log := by
  simpa [List.mem_filterMap, Incident.accepted?_eq] using h

theorem mem_accepted :
    id ∈ ids (log.filterMap Incident.accepted?) ↔ ∃ r, r.id = id ∧ .accepted r ∈ log := by
  simp [ids, List.mem_filterMap, Incident.accepted?_eq, and_comm]

theorem mem_refused :
    id ∈ ids (log.filterMap Incident.refused?) ↔ ∃ r, r.id = id ∧ .refused r ∈ log := by
  simp [ids, List.mem_filterMap, Incident.refused?_eq, and_comm]

theorem mem_dropped :
    id ∈ ids (log.filterMap Incident.dropped?) ↔ ∃ r, r.id = id ∧ .dropped r ∈ log := by
  simp [ids, List.mem_filterMap, Incident.dropped?_eq, and_comm]

end

namespace Service

variable {fs : FileSystem} {codec : Codec}

/-- The requests in a queue whose consumer is still there. -/
def waiting (s : Service fs codec) (lane : Lane) : List Request :=
  if (s.queue lane).isOpen then (s.queue lane).payloads else []

/-- The stage that the next move of a worker ends, if it ends one. -/
def stage? (s : Service fs codec) (lane : Lane) : Option Staged :=
  match lane, s.worker lane with
  | .file, .serving r => some (FileStage.run fs s.files s.heaps r).1
  | .codec, .serving r =>
    let max := s.config.maxDecompressedSize.toNat
    match r.operation, CodecStage.capacity? max with
    | .read, none => some (CodecStage.overflow max s.heaps r)
    | _, _ => none
  | .codec, .coding r none =>
    match codec.compress s.codecState r.payload with
    | .returns answer _ =>
      some (CodecStage.compressed s.heaps r (CodecStage.checkedBlock codec.name r answer))
    | _ => none
  | .codec, .coding r (some room) =>
    let max := s.config.maxDecompressedSize.toNat
    match codec.decompress s.codecState r.payload max with
    | .returns d _ => some (CodecStage.decompressed max s.heaps r room d.written d.reported)
    | _ => none
  | _, _ => none

/-- Whether the call of the codec that is under way takes its worker down. -/
def crashes (s : Service fs codec) (r : Request) : Option Reservation → Bool
  | none => match codec.compress s.codecState r.payload with
    | .crashes => true
    | _ => false
  | some _ => match codec.decompress s.codecState r.payload s.config.maxDecompressedSize.toNat with
    | .crashes => true
    | _ => false

@[simp] theorem waiting_setWorker (s : Service fs codec) (lane k : Lane) (w : Worker) :
    (s.setWorker lane w).waiting k = s.waiting k := by
  simp [waiting]

@[simp] theorem waiting_setQueue (s : Service fs codec) (lane k : Lane) (q : Queue Request) :
    (s.setQueue lane q).waiting k =
      if k = lane then if q.isOpen then q.payloads else [] else s.waiting k := by
  by_cases h : k = lane <;> simp [waiting, h]

theorem waiting_of_open {s : Service fs codec} {lane : Lane} (h : (s.queue lane).isOpen = true) :
    s.waiting lane = (s.queue lane).payloads :=
  if_pos h

def recordPush (s : Service fs codec) (id : Nat) : List Incident :=
  match s.entering.find? fun r ↦ r.id = id with
  | none => []
  | some r =>
    match (s.queue (entryLane r.operation r.flags)).offer (.payload r) with
    | .taken _ => [.accepted r]
    | .closed => [.refused r]
    | .full => []

def recordStage (s : Service fs codec) (lane : Lane) (r : Request) : List Incident :=
  match s.stage? lane with
  | some st => [.staged lane r (st.routed lane) st.result]
  | none => []

def recordWork (s : Service fs codec) (lane : Lane) : List Incident :=
  match s.worker lane with
  | .idle =>
    match (s.queue lane).messages with
    | [] => []
    | .payload r :: _ => [.taken lane r]
    | .shutdown :: _ => [.stopped lane]
  | .serving r => s.recordStage lane r
  | .coding r room =>
    if s.crashes r room then .dropped r :: (s.waiting lane).map .dropped else s.recordStage lane r
  | .routing r .complete => [.published r.id r.completed.outcome]
  | .routing r (.handOff onward) =>
    match (s.queue onward).offer (.payload r) with
    | .taken _ => [.handedOff onward r]
    | .closed => [.dropped r]
    | .full => []
  | .signaling id => [.signaled id]
  | .releasing id => [.released id]
  | .leaving => (s.waiting lane).map .dropped
  | .gone => []

def recordMark (s : Service fs codec) (lane : Lane) : List Incident :=
  match (s.queue lane).offer .shutdown with
  | .taken _ => [.marked lane]
  | _ => []

def recordClose (s : Service fs codec) : List Incident :=
  match s.closing with
  | .markingFiles => s.recordMark .file
  | .markingCodec => s.recordMark .codec
  | .dismantling => (s.waiting .file ++ s.waiting .codec).map .dropped
  | _ => []

/-- What happens to requests in a move that can be made. -/
def record (s : Service fs codec) : Move → List Incident
  | .enter o =>
    match (s.enter o).1 with
    | .ok id => [.entered id o]
    | .error _ => []
  | .push id => s.recordPush id
  | .work lane => s.recordWork lane
  | .close => s.recordClose
  | .newHeap _ | .ask .. | .forget _ | .giveBack _ => []

/-- A run of any moves in any order, with its log. -/
inductive Run (s : Service fs codec) : List Incident → Service fs codec → Prop
  | refl : Run s [] s
  | step {log : List Incident} {t u : Service fs codec} (m : Move) :
      Run s log t → t.step m = some u → Run s (log ++ t.record m) u

theorem Run.trans {s t u : Service fs codec} {log more : List Incident}
    (h : Run s log t) (h' : Run t more u) : Run s (log ++ more) u := by
  induction h' with
  | refl => simpa using h
  | step m _ hs ih => simpa only [List.append_assoc] using Run.step m ih hs

theorem Run.one {s t : Service fs codec} (m : Move) (h : s.step m = some t) :
    Run s (s.record m) t := by
  simpa using Run.step m .refl h

end Service

end QueuedFiles
