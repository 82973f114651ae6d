import QueuedFiles.Proofs.Service.Access

/-!
Files that come in pieces. The calls that read a file may each bring less than was asked for, be
broken off, fail, or find the end; what comes of them depends on the bytes they bring and on which
call fails first, not on how the bytes are cut into pieces or on what was broken off between them.
-/

namespace QueuedFiles

namespace ReadEvent

/-- Another call follows: this one was broken off or has brought something. -/
def GoesOn : ReadEvent → Prop
  | .interrupted => True
  | .bytes b => b ≠ []
  | .failed _ => False

def brings : ReadEvent → Bytes
  | .bytes b => b
  | .interrupted | .failed _ => []

end ReadEvent

/-- The bytes that the calls bring before the file ends or one of them fails. -/
def delivered : List ReadEvent → Bytes
  | [] => []
  | .interrupted :: script => delivered script
  | .failed _ :: _ => []
  | .bytes b :: script => if b.isEmpty then [] else b ++ delivered script

/-- The failure of the first call that fails, unless the file ends before it. -/
def failure? : List ReadEvent → Option Fault
  | [] => none
  | .interrupted :: script => failure? script
  | .failed fault :: _ => some fault
  | .bytes b :: script => if b.isEmpty then none else failure? script

/-- A call fails while there is still room and the file has not ended. -/
def BreaksOff (room : Nat) (script : List ReadEvent) (fault : Fault) : Prop :=
  ∃ before after, script = before ++ .failed fault :: after ∧ (∀ e ∈ before, e.GoesOn) ∧
    (delivered before).length < room

section

variable {room : Nat} {e : ReadEvent} {script : List ReadEvent} {fault : Fault} {data : Bytes}

theorem delivered_cons (he : e.GoesOn) (script : List ReadEvent) :
    delivered (e :: script) = e.brings ++ delivered script := by
  cases e with
  | interrupted => rfl
  | bytes b => simp [delivered, ReadEvent.brings, show b ≠ [] from he]
  | failed fault => cases he

theorem not_breaksOff_nil : ¬ BreaksOff room [] fault := by
  rintro ⟨before, after, he, -⟩
  simp at he

theorem not_breaksOff_zero : ¬ BreaksOff 0 script fault := by
  rintro ⟨before, after, hscript, hon, hlt⟩
  exact absurd hlt (Nat.not_lt_zero _)

theorem breaksOff_cons : BreaksOff room (e :: script) fault ↔
    (e = .failed fault ∧ 0 < room) ∨ (e.GoesOn ∧ BreaksOff (room - e.brings.length) script fault) := by
  constructor
  · rintro ⟨before, after, hscript, hon, hlt⟩
    cases before with
    | nil =>
      obtain ⟨rfl, rfl⟩ := List.cons.inj hscript
      exact .inl ⟨rfl, hlt⟩
    | cons e' before =>
      obtain ⟨rfl, rfl⟩ := List.cons.inj hscript
      have he := hon e (List.mem_cons_self ..)
      rw [delivered_cons he, List.length_append] at hlt
      exact .inr ⟨he, before, after, rfl, fun x hx ↦ hon x (List.mem_cons_of_mem _ hx), by omega⟩
  · rintro (⟨rfl, hroom⟩ | ⟨he, before, after, rfl, hon, hlt⟩)
    · exact ⟨[], script, rfl, by simp, hroom⟩
    · refine ⟨e :: before, after, rfl, ?_, ?_⟩
      · intro x hx
        rcases List.mem_cons.1 hx with rfl | hx
        · exact he
        · exact hon x hx
      · rw [delivered_cons he, List.length_append]
        omega

theorem breaksOff_iff :
    BreaksOff room script fault ↔ failure? script = some fault ∧ (delivered script).length < room := by
  induction script generalizing room with
  | nil => simp [not_breaksOff_nil, failure?]
  | cons e script ih =>
    rw [breaksOff_cons]
    cases e with
    | interrupted => simp [failure?, delivered, ReadEvent.GoesOn, ReadEvent.brings, ih]
    | failed f => simp [failure?, delivered, ReadEvent.GoesOn]
    | bytes b =>
      by_cases hb : b = []
      · simp [failure?, ReadEvent.GoesOn, hb]
      · have hlt : (delivered script).length < room - b.length ↔
            b.length + (delivered script).length < room := by omega
        simp [failure?, delivered, ReadEvent.GoesOn, ReadEvent.brings, ih, hb, hlt]

theorem readFull_zero (script : List ReadEvent) : readFull 0 script = .ok [] := by
  cases script <;> simp [readFull]

theorem readFull_bytes {b : Bytes} (hroom : room ≠ 0) (hb : b ≠ []) :
    readFull room (.bytes b :: script) =
      (readFull (room - b.length) script).map (b.take room ++ ·) := by
  have hsome : (b.take room).isEmpty = false := by simp [hroom, hb]
  have hleft : room - (b.take room).length = room - b.length := by
    rw [List.length_take]
    omega
  simp only [readFull, if_neg hroom, hsome, Bool.false_eq_true, if_false, hleft]

theorem readFull_eq_error_iff : readFull room script = .error fault ↔ BreaksOff room script fault := by
  induction script generalizing room with
  | nil => simp [readFull, not_breaksOff_nil]
  | cons e script ih =>
    by_cases hroom : room = 0
    · subst hroom
      simp [readFull_zero, not_breaksOff_zero]
    · rw [breaksOff_cons]
      cases e with
      | interrupted => simp [readFull, hroom, ih, ReadEvent.GoesOn, ReadEvent.brings]
      | failed f => simp [readFull, hroom, ReadEvent.GoesOn, Nat.pos_of_ne_zero hroom]
      | bytes b =>
        by_cases hb : b = []
        · simp [readFull, hroom, hb, ReadEvent.GoesOn]
        · have hmap : ((readFull (room - b.length) script).map (b.take room ++ ·) = .error fault) ↔
              readFull (room - b.length) script = .error fault := by
            cases readFull (room - b.length) script <;> simp [Except.map]
          rw [readFull_bytes hroom hb, hmap, ih]
          simp [ReadEvent.GoesOn, ReadEvent.brings, hb]

theorem eq_of_readFull (h : readFull room script = .ok data) :
    data = (delivered script).take room := by
  induction script generalizing room data with
  | nil =>
    cases h
    simp [delivered]
  | cons e script ih =>
    by_cases hroom : room = 0
    · subst hroom
      cases (readFull_zero _).symm.trans h
      rfl
    · cases e with
      | interrupted =>
        simp only [readFull, hroom, if_false] at h
        exact ih h
      | failed f => simp [readFull, hroom] at h
      | bytes b =>
        by_cases hb : b = []
        · simp only [readFull, hroom, hb, List.take_nil, List.isEmpty_nil, if_true, if_false] at h
          cases h
          simp [delivered, hb]
        · rw [readFull_bytes hroom hb] at h
          cases hmore : readFull (room - b.length) script with
          | error f =>
            rw [hmore] at h
            cases h
          | ok more =>
            rw [hmore] at h
            cases h
            rw [delivered_cons (show (ReadEvent.bytes b).GoesOn from hb), ih hmore,
              ReadEvent.brings, List.take_append]

theorem readFull_of_not_breaksOff (h : ∀ fault, ¬ BreaksOff room script fault) :
    readFull room script = .ok ((delivered script).take room) := by
  cases hread : readFull room script with
  | error fault => exact absurd (readFull_eq_error_iff.1 hread) (h fault)
  | ok data => rw [eq_of_readFull hread]

/-- What is broken off leaves no trace. -/
theorem readFull_uninterrupted (room : Nat) (script : List ReadEvent) :
    readFull room (script.filter (· ≠ .interrupted)) = readFull room script := by
  induction script generalizing room with
  | nil => rfl
  | cons e script ih =>
    cases e with
    | interrupted =>
      rw [List.filter_cons_of_neg (by simp), ih]
      by_cases hroom : room = 0
      · simp [hroom, readFull_zero]
      · simp [readFull, hroom]
    | failed f => simp [readFull]
    | bytes b =>
      rw [List.filter_cons_of_pos (by simp)]
      simp only [readFull, ih]

/-- What comes of the calls that read into some room, in any order of pieces, breaks and failures. -/
structure Fills (room : Nat) (script : List ReadEvent) : Prop where
  fails : ∀ fault, readFull room script = .error fault ↔ BreaksOff room script fault
  fills : (∀ fault, ¬ BreaksOff room script fault) → ∃ k, k = min room (delivered script).length ∧
    readFull room script = .ok ((delivered script).take k)
  uninterrupted : readFull room (script.filter (· ≠ .interrupted)) = readFull room script
  /-- In a buffer, they are put there from its beginning on; the rest of it stays as it was. -/
  placed : ∀ buffer : Bytes, buffer.length = room →
    Checked.readFull buffer 0 script = some ((readFull room script).map fun data ↦
      (data.length, data ++ buffer.drop data.length))

theorem readFull_fills (room : Nat) (script : List ReadEvent) : Fills room script where
  fails _ := readFull_eq_error_iff
  fills h := by
    refine ⟨_, rfl, ?_⟩
    rw [readFull_of_not_breaksOff h, List.take_eq_take_min]
  uninterrupted := readFull_uninterrupted room script
  placed buffer hb := by
    have hread := Checked.readFull_eq [] buffer script
    rw [hb] at hread
    simpa using hread

end

end QueuedFiles
