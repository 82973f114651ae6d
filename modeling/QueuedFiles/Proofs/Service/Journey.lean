import QueuedFiles.Proofs.Service.Post

/-!
The three journeys that there are: a plain request sees the file worker only, a compressed write
comes to it from the codec worker, and a compressed read goes on from it unless it has failed.
-/

namespace QueuedFiles

/-- What the log says of one request on its way. -/
inductive Leg where
  | accepted
  | taken (lane : Lane)
  | staged (lane : Lane) (ok : Bool)
  | handedOff (onward : Lane)

def Incident.leg? (id : Nat) : Incident → Option Leg
  | .accepted r => if r.id = id then some .accepted else none
  | .taken lane r => if r.id = id then some (.taken lane) else none
  | .staged lane r _ result => if r.id = id then some (.staged lane result.isOk) else none
  | .handedOff onward r => if r.id = id then some (.handedOff onward) else none
  | _ => none

def legs (id : Nat) (log : List Incident) : List Leg := log.filterMap (Incident.leg? id)

def Leg.stage? : Leg → Option (Lane × Bool)
  | .staged lane ok => some (lane, ok)
  | _ => none

/-- The stages that a request has been through, and whether each succeeded. -/
def stages (id : Nat) (log : List Incident) : List (Lane × Bool) :=
  (legs id log).filterMap Leg.stage?

theorem legs_append (id : Nat) (log more : List Incident) :
    legs id (log ++ more) = legs id log ++ legs id more :=
  List.filterMap_append

theorem legs_of_quiet {id : Nat} {log : List Incident} (h : ∀ i ∈ log, i.id? ≠ some id) :
    legs id log = [] := by
  rw [legs, List.filterMap_eq_nil_iff]
  intro i hi
  have hid := h i hi
  cases i <;> simp_all [Incident.leg?, Incident.id?]

theorem mem_legs {id : Nat} {leg : Leg} {log : List Incident} :
    leg ∈ legs id log ↔ ∃ i ∈ log, i.leg? id = some leg :=
  List.mem_filterMap

theorem taken_mem_legs {id : Nat} {lane : Lane} {log : List Incident} :
    .taken lane ∈ legs id log ↔ ∃ r, r.id = id ∧ .taken lane r ∈ log := by
  rw [mem_legs]
  constructor
  · intro ⟨i, hi, hl⟩
    cases i <;> simp [Incident.leg?] at hl
    obtain ⟨hid, rfl⟩ := hl
    exact ⟨_, hid, hi⟩
  · intro ⟨r, hid, hr⟩
    exact ⟨_, hr, by simp [Incident.leg?, hid]⟩

theorem handedOff_mem_legs {id : Nat} {lane : Lane} {log : List Incident} :
    .handedOff lane ∈ legs id log ↔ ∃ r, r.id = id ∧ .handedOff lane r ∈ log := by
  rw [mem_legs]
  constructor
  · intro ⟨i, hi, hl⟩
    cases i <;> simp [Incident.leg?] at hl
    obtain ⟨hid, rfl⟩ := hl
    exact ⟨_, hid, hi⟩
  · intro ⟨r, hid, hr⟩
    exact ⟨_, hr, by simp [Incident.leg?, hid]⟩

/-- The journey of a request that is not compressed. -/
inductive PlainJourney : List Leg → Post → Prop
  | entered : PlainJourney [] .caller
  | queued : PlainJourney [.accepted] (.queue .file)
  | serving : PlainJourney [.accepted, .taken .file] (.hand .file .serving)
  | served (ok : Bool) :
      PlainJourney [.accepted, .taken .file, .staged .file ok] (.hand .file (.routing .complete))

/-- The journey of a compressed write, which goes on to its file even if compression fails. -/
inductive WriteJourney : List Leg → Post → Prop
  | entered : WriteJourney [] .caller
  | queued : WriteJourney [.accepted] (.queue .codec)
  | compressing : WriteJourney [.accepted, .taken .codec] (.hand .codec .serving)
  | coding : WriteJourney [.accepted, .taken .codec] (.hand .codec (.coding none))
  | compressed (ok : Bool) :
      WriteJourney [.accepted, .taken .codec, .staged .codec ok]
        (.hand .codec (.routing (.handOff .file)))
  | requeued (ok : Bool) :
      WriteJourney [.accepted, .taken .codec, .staged .codec ok, .handedOff .file] (.queue .file)
  | serving (ok : Bool) :
      WriteJourney [.accepted, .taken .codec, .staged .codec ok, .handedOff .file, .taken .file]
        (.hand .file .serving)
  | served (ok done : Bool) :
      WriteJourney [.accepted, .taken .codec, .staged .codec ok, .handedOff .file, .taken .file,
        .staged .file done] (.hand .file (.routing .complete))

/-- The journey of a compressed read, which is over at once if its file cannot be read. -/
inductive ReadJourney : List Leg → Post → Prop
  | entered : ReadJourney [] .caller
  | queued : ReadJourney [.accepted] (.queue .file)
  | serving : ReadJourney [.accepted, .taken .file] (.hand .file .serving)
  | failed :
      ReadJourney [.accepted, .taken .file, .staged .file false] (.hand .file (.routing .complete))
  | served :
      ReadJourney [.accepted, .taken .file, .staged .file true]
        (.hand .file (.routing (.handOff .codec)))
  | requeued :
      ReadJourney [.accepted, .taken .file, .staged .file true, .handedOff .codec] (.queue .codec)
  | decompressing :
      ReadJourney [.accepted, .taken .file, .staged .file true, .handedOff .codec, .taken .codec]
        (.hand .codec .serving)
  | coding (room : Reservation) :
      ReadJourney [.accepted, .taken .file, .staged .file true, .handedOff .codec, .taken .codec]
        (.hand .codec (.coding (some room)))
  | decompressed (ok : Bool) :
      ReadJourney [.accepted, .taken .file, .staged .file true, .handedOff .codec, .taken .codec,
        .staged .codec ok] (.hand .codec (.routing .complete))

def Journey (op : Operation) (compressed : Bool) : List Leg → Post → Prop :=
  match op, compressed with
  | _, false => PlainJourney
  | .write, true => WriteJourney
  | .read, true => ReadJourney

theorem Journey.entered (op : Operation) (compressed : Bool) : Journey op compressed [] .caller := by
  cases compressed with
  | false => exact PlainJourney.entered
  | true => cases op with
    | read => exact ReadJourney.entered
    | write => exact WriteJourney.entered

theorem Journey.split {op : Operation} {compressed : Bool} {l : List Leg} {p : Post}
    (h : Journey op compressed l p) :
    compressed = false ∧ PlainJourney l p ∨ compressed = true ∧ op = .write ∧ WriteJourney l p ∨
      compressed = true ∧ op = .read ∧ ReadJourney l p := by
  cases compressed with
  | false => exact .inl ⟨rfl, h⟩
  | true =>
    cases op with
    | write => exact .inr (.inl ⟨rfl, rfl, h⟩)
    | read => exact .inr (.inr ⟨rfl, rfl, h⟩)

section

variable {op : Operation} {compressed : Bool} {l : List Leg} {p : Post} {lane onward : Lane}
  {task : Task} {room : Option Reservation}

theorem Journey.codec_lane (h : Journey op compressed l p) (hp : p.lane? = some .codec) :
    compressed = true := by
  rcases h.split with ⟨-, h⟩ | ⟨hc, -⟩ | ⟨hc, -⟩
  · cases h <;> cases hp
  · exact hc
  · exact hc

/-- Only the codec worker has a call under way, with room reserved for a read and none for a write. -/
theorem Journey.coding (h : Journey op compressed l (.hand lane (.coding room))) :
    lane = .codec ∧ compressed = true ∧
      (op = .write ∧ room = none ∨ op = .read ∧ ∃ reserved, room = some reserved) := by
  rcases h.split with ⟨-, h⟩ | ⟨hc, ho, h⟩ | ⟨hc, ho, h⟩
  · cases h
  · cases h
    exact ⟨rfl, hc, .inl ⟨ho, rfl⟩⟩
  · cases h with
    | coding reserved => exact ⟨rfl, hc, .inr ⟨ho, reserved, rfl⟩⟩

theorem Journey.routing (h : Journey op compressed l (.hand lane (.routing (.handOff onward)))) :
    compressed = true ∧ (op = .read ∧ lane = .file ∧ onward = .codec ∨
      op = .write ∧ lane = .codec ∧ onward = .file) := by
  rcases h.split with ⟨-, h⟩ | ⟨hc, ho, h⟩ | ⟨hc, ho, h⟩
  · cases h
  · cases h
    exact ⟨hc, .inr ⟨ho, rfl, rfl⟩⟩
  · cases h
    exact ⟨hc, .inl ⟨ho, rfl, rfl⟩⟩

theorem Journey.caller (h : Journey op compressed l .caller) : l = [] := by
  rcases h.split with ⟨-, h⟩ | ⟨-, -, h⟩ | ⟨-, -, h⟩
  all_goals cases h; rfl

theorem Journey.queue_untaken (h : Journey op compressed l (.queue lane)) : .taken lane ∉ l := by
  rcases h.split with ⟨-, h⟩ | ⟨-, -, h⟩ | ⟨-, -, h⟩
  all_goals cases h <;> simp

theorem Journey.hand_taken (h : Journey op compressed l (.hand lane task)) : .taken lane ∈ l := by
  rcases h.split with ⟨-, h⟩ | ⟨-, -, h⟩ | ⟨-, -, h⟩
  all_goals cases h <;> simp

theorem Journey.not_handedOff
    (h : Journey op compressed l (.hand lane (.routing (.handOff onward)))) :
    .handedOff onward ∉ l ∧ .taken onward ∉ l := by
  rcases h.split with ⟨-, h⟩ | ⟨-, -, h⟩ | ⟨-, -, h⟩
  all_goals cases h <;> simp

theorem Journey.requeued_handedOff (h : Journey .write true l (.queue .file)) :
    .handedOff .file ∈ l := by
  rcases h.split with ⟨hc, -⟩ | ⟨-, -, h⟩ | ⟨-, ho, -⟩
  · cases hc
  · cases h
    simp
  · cases ho

theorem Journey.complete_staged (h : Journey op compressed l (.hand lane (.routing .complete))) :
    ∃ ok, .staged .file ok ∈ l := by
  rcases h.split with ⟨-, h⟩ | ⟨-, -, h⟩ | ⟨-, -, h⟩
  all_goals cases h <;> simp

theorem Journey.write_complete (h : Journey .write compressed l (.hand lane (.routing .complete))) :
    lane = .file := by
  rcases h.split with ⟨-, h⟩ | ⟨-, -, h⟩ | ⟨-, ho, -⟩
  · cases h
    rfl
  · cases h
    rfl
  · cases ho

end

/-- The stages of a request that is over: a plain request and a read that fails have been in the file
lane only, a compressed write has come from the codec lane, and another compressed read has gone
there. -/
def Itinerary (op : Operation) (compressed : Bool) (l : List (Lane × Bool)) : Prop :=
  match op, compressed with
  | _, false => ∃ ok, l = [(.file, ok)]
  | .write, true => ∃ ok done, l = [(.codec, ok), (.file, done)]
  | .read, true => l = [(.file, false)] ∨ ∃ ok, l = [(.file, true), (.codec, ok)]

theorem Journey.itinerary {op : Operation} {compressed : Bool} {l : List Leg} {lane : Lane}
    (h : Journey op compressed l (.hand lane (.routing .complete))) :
    Itinerary op compressed (l.filterMap Leg.stage?) := by
  rcases h.split with ⟨rfl, h⟩ | ⟨rfl, rfl, h⟩ | ⟨rfl, rfl, h⟩
  · cases h with
    | served ok => exact ⟨ok, rfl⟩
  · cases h with
    | served ok done => exact ⟨ok, done, rfl⟩
  · cases h with
    | failed => exact .inl rfl
    | decompressed ok => exact .inr ⟨ok, rfl⟩

theorem Journey.route {op : Operation} {compressed : Bool} {l : List Leg} {p : Post}
    (h : Journey op compressed l p) :
    ∃ rest, Itinerary op compressed (l.filterMap Leg.stage? ++ rest) := by
  rcases h.split with ⟨rfl, h⟩ | ⟨rfl, rfl, h⟩ | ⟨rfl, rfl, h⟩
  · cases h with
    | entered | queued | serving => exact ⟨[(.file, true)], true, rfl⟩
    | served ok => exact ⟨[], ok, rfl⟩
  · cases h with
    | entered | queued | compressing | coding =>
      exact ⟨[(.codec, true), (.file, true)], true, true, rfl⟩
    | compressed ok | requeued ok | serving ok => exact ⟨[(.file, true)], ok, true, rfl⟩
    | served ok done => exact ⟨[], ok, done, rfl⟩
  · cases h with
    | entered | queued | serving => exact ⟨[(.file, false)], .inl rfl⟩
    | failed => exact ⟨[], .inl rfl⟩
    | served | requeued | decompressing | coding => exact ⟨[(.codec, true)], .inr ⟨true, rfl⟩⟩
    | decompressed ok => exact ⟨[], .inr ⟨ok, rfl⟩⟩

end QueuedFiles
