import QueuedFiles.Proofs.Lists
import QueuedFiles.Proofs.Telemetry.Merging
import QueuedFiles.Proofs.Trace
import QueuedFiles.Telemetry.Recorder

/-!
The recorder in use by any number of threads, addition by addition. Whoever is in the middle of an
update holds the lock; an update that breaks off gives it up too, and nobody who comes later is
turned away or finds less in the counters than has been added.
-/

namespace QueuedFiles.Telemetry

namespace Recorder

/-- The recorder after one more measurement, whether or not it fits. -/
def timed (r : Recorder) (a : Activity) (d : Duration) : Recorder := (r.addTime a d).2

@[simp] theorem counters_timed (r : Recorder) (a : Activity) (d : Duration) :
    (r.timed a d).counters = r.counters :=
  counters_addTime r a d

end Recorder

namespace SharedRecorder

/-- A thread that is there for an update. -/
inductive Visit where
  | waiting (u : Update)
  /-- Holds the lock, has made some of its additions and has others still to make. -/
  | adding (u : Update) (made rest : List Addition)
  | gone (u : Update)

inductive Incident where
  | added (i : Nat) (a : Addition)
  /-- A thread has given up the lock, at the end of its update or where that breaks off. -/
  | left (i : Nat) (u : Update)
  | timed (a : Activity) (d : Duration)
  | shown (s : Snapshot)

end SharedRecorder

structure SharedRecorder where
  recorder : Recorder
  holder : Option Nat
  visits : List SharedRecorder.Visit

namespace SharedRecorder

def empty : SharedRecorder := ⟨.empty, none, []⟩

inductive Move where
  | call (u : Update)
  /-- A thread takes the lock, makes one addition, or is through and gives the lock up. -/
  | go (i : Nat)
  | time (a : Activity) (d : Duration)
  | look (elapsed : Duration)

/-- The state after a move that can be made, with what the move has done. -/
def step (s : SharedRecorder) : Move → Option (List Incident × SharedRecorder)
  | .call u => some ([], { s with visits := s.visits ++ [.waiting u] })
  | .go i =>
    match s.visits[i]? with
    | some (.waiting u) =>
      if s.holder = none then
        some ([], { s with holder := some i, visits := s.visits.set i (.adding u [] u.additions) })
      else none
    | some (.adding u made (a :: rest)) =>
      some ([.added i a], { s with
        recorder := { s.recorder with counters := s.recorder.counters.add a }
        visits := s.visits.set i (.adding u (made ++ [a]) rest) })
    | some (.adding u _ []) =>
      some ([.left i u], { s with
        recorder := { s.recorder with marked := s.recorder.marked || u.breaksOff }
        holder := none
        visits := s.visits.set i (.gone u) })
    | some (.gone _) => none
    | none => none
  | .time a d =>
    if s.holder = none then
      some ([.timed a d], { s with recorder := s.recorder.timed a d })
    else none
  | .look elapsed =>
    if s.holder = none then some ([.shown (s.recorder.snapshot elapsed)], s) else none

abbrev Run : SharedRecorder → List Incident → SharedRecorder → Prop := Trace step

/-- All that a move can do. -/
inductive Change (s : SharedRecorder) : List Incident → SharedRecorder → Prop
  | called (u : Update) : Change s [] ⟨s.recorder, s.holder, s.visits ++ [.waiting u]⟩
  | entered (i : Nat) (u : Update) : s.visits[i]? = some (.waiting u) → s.holder = none →
      Change s [] ⟨s.recorder, some i, s.visits.set i (.adding u [] u.additions)⟩
  | added (i : Nat) (u : Update) (made : List Addition) (a : Addition) (rest : List Addition) :
      s.visits[i]? = some (.adding u made (a :: rest)) →
      Change s [.added i a] ⟨{ s.recorder with counters := s.recorder.counters.add a }, s.holder,
        s.visits.set i (.adding u (made ++ [a]) rest)⟩
  | left (i : Nat) (u : Update) (made : List Addition) :
      s.visits[i]? = some (.adding u made []) →
      Change s [.left i u] ⟨{ s.recorder with marked := s.recorder.marked || u.breaksOff }, none,
        s.visits.set i (.gone u)⟩
  | timed (a : Activity) (d : Duration) : s.holder = none →
      Change s [.timed a d] ⟨s.recorder.timed a d, s.holder, s.visits⟩
  | shown (elapsed : Duration) : s.holder = none →
      Change s [.shown (s.recorder.snapshot elapsed)] s

variable {s t : SharedRecorder} {log more : List Incident} {i : Nat}

theorem step_change (m : Move) (hm : s.step m = some (more, t)) : s.Change more t := by
  cases m with
  | call u =>
    cases hm
    exact .called u
  | go i =>
    rw [step] at hm
    split at hm
    · next u hv =>
      obtain ⟨hfree, hm⟩ := Option.ite_none_right_eq_some.1 hm
      cases hm
      exact .entered i u hv hfree
    · next u made a rest hv =>
      cases hm
      exact .added i u made a rest hv
    · next u made hv =>
      cases hm
      exact .left i u made hv
    all_goals cases hm
  | time a d =>
    obtain ⟨hfree, hm⟩ := Option.ite_none_right_eq_some.1 hm
    cases hm
    exact .timed a d hfree
  | look elapsed =>
    obtain ⟨hfree, hm⟩ := Option.ite_none_right_eq_some.1 hm
    cases hm
    exact .shown elapsed hfree

/-! The lock makes one step of each update. -/

def Incident.act (r : Recorder) : Incident → Recorder
  | .left _ u => r.update u
  | .timed a d => r.timed a d
  | _ => r

/-- The recorder after the updates that are through and the times, in the order of the lock. -/
def replay (log : List Incident) : Recorder := log.foldl Incident.act .empty

def Incident.addition? : Incident → Option Addition
  | .added _ a => some a
  | _ => none

/-- The additions made, by whomever. -/
def additions (log : List Incident) : List Addition := log.filterMap Incident.addition?

def Incident.additionOf? (i : Nat) : Incident → Option Addition
  | .added j a => if j = i then some a else none
  | _ => none

/-- The additions that a thread has made. -/
def additionsOf (i : Nat) (log : List Incident) : List Addition :=
  log.filterMap (Incident.additionOf? i)

/-- The additions of a visit so far. -/
def Visit.made : Visit → List Addition
  | .waiting _ => []
  | .adding _ made _ => made
  | .gone u => u.additions

theorem replay_concat (log : List Incident) (x : Incident) :
    replay (log ++ [x]) = x.act (replay log) := by
  rw [replay, List.foldl_append]
  rfl

def Visit.update : Visit → Update
  | .waiting u | .adding u _ _ | .gone u => u

@[simp] theorem additions_append : additions (log ++ more) = additions log ++ additions more :=
  List.filterMap_append

@[simp] theorem additionsOf_append :
    additionsOf i (log ++ more) = additionsOf i log ++ additionsOf i more :=
  List.filterMap_append

theorem addAll_append (c : Counters) (as bs : List Addition) :
    c.addAll (as ++ bs) = (c.addAll as).addAll bs :=
  List.foldl_append

structure Kept (log : List Incident) (s : SharedRecorder) : Prop where
  held : ∀ i, s.holder = some i ↔
    ∃ (u : Update) (made rest : List Addition), s.visits[i]? = some (.adding u made rest)
  free : s.holder = none → s.recorder = replay log
  adding : ∀ (i : Nat) (u : Update) (made rest : List Addition),
    s.visits[i]? = some (.adding u made rest) → u.additions = made ++ rest ∧
      s.recorder = { replay log with counters := (replay log).counters.addAll made }
  counters : s.recorder.counters = Counters.zero.addAll (additions log)
  own : ∀ (i : Nat) (v : Visit), s.visits[i]? = some v → additionsOf i log = v.made
  unborn : ∀ i, s.visits.length ≤ i → additionsOf i log = []
  shown : ∀ before after x, log = before ++ .shown x :: after →
    x.counters = Counters.zero.addAll (additions before) ∧
      ∃ elapsed, x = (replay before).snapshot elapsed

theorem kept_empty : Kept [] empty where
  held := by simp [empty]
  free _ := rfl
  adding := by simp [empty]
  counters := rfl
  own := by simp [empty]
  unborn _ _ := rfl
  shown := by simp

theorem Kept.shown_append (hk : s.Kept log) (hmore : ∀ x, .shown x ∉ more)
    (before after : List Incident) (x : Snapshot) (h : log ++ more = before ++ .shown x :: after) :
    x.counters = Counters.zero.addAll (additions before) ∧
      ∃ elapsed, x = (replay before).snapshot elapsed := by
  rcases cut_append (fun hx ↦ absurd hx (hmore x)) h with ⟨-, -, hm⟩ | ⟨rest, hlog, -⟩
  · exact absurd (by simp [hm]) (hmore x)
  · exact hk.shown before rest x hlog

/-- Only one thread is in the middle of an update. -/
theorem Kept.alone (hk : s.Kept log) {j : Nat} {u v : Update} {made rest made' rest' : List Addition}
    (hi : s.visits[i]? = some (.adding u made rest))
    (hj : s.visits[j]? = some (.adding v made' rest')) : i = j := by
  have h := (hk.held i).2 ⟨u, made, rest, hi⟩
  rw [(hk.held j).2 ⟨v, made', rest', hj⟩] at h
  exact (Option.some.inj h).symm

theorem Kept.nobody (hk : s.Kept log) (hfree : s.holder = none) {u : Update}
    {made rest : List Addition} (hi : s.visits[i]? = some (.adding u made rest)) : False := by
  have h := (hk.held i).2 ⟨u, made, rest, hi⟩
  rw [hfree] at h
  cases h

theorem Kept.called (hk : s.Kept log) (u : Update) :
    Kept log ⟨s.recorder, s.holder, s.visits ++ [.waiting u]⟩ where
  held i := by
    rw [hk.held i]
    simp only [getElem?_snoc]
    simp
  free := hk.free
  adding i v made rest hi := hk.adding i v made rest ((getElem?_snoc.1 hi).resolve_right (by simp))
  counters := hk.counters
  own i v hi := by
    rcases getElem?_snoc.1 hi with hi | ⟨rfl, rfl⟩
    · exact hk.own i v hi
    · exact hk.unborn _ (Nat.le_refl _)
  unborn i hi := hk.unborn i (by simp at hi; omega)
  shown := hk.shown

theorem Kept.entered (hk : s.Kept log) {u : Update} (hv : s.visits[i]? = some (.waiting u))
    (hfree : s.holder = none) :
    Kept log ⟨s.recorder, some i, s.visits.set i (.adding u [] u.additions)⟩ where
  held j := by
    simp only [getElem?_set_of_some hv]
    split
    · next hj => simp [hj]
    · next hj =>
      have hnone : ¬ ∃ u made rest, s.visits[j]? = some (.adding u made rest) :=
        fun ⟨_, _, _, ha⟩ ↦ hk.nobody hfree ha
      simp [hnone, Ne.symm hj]
  free := nofun
  adding j v made rest hj := by
    rw [getElem?_set_of_some hv] at hj
    split at hj
    · cases hj
      exact ⟨rfl, hk.free hfree⟩
    · exact (hk.nobody hfree hj).elim
  counters := hk.counters
  own j v hj := by
    rw [getElem?_set_of_some hv] at hj
    split at hj
    · next h =>
      cases hj
      rw [h]
      exact hk.own i (.waiting u) hv
    · exact hk.own j v hj
  unborn j hj := hk.unborn j (by simpa using hj)
  shown := hk.shown

theorem Kept.added (hk : s.Kept log) {u : Update} {made rest : List Addition} {a : Addition}
    (hv : s.visits[i]? = some (.adding u made (a :: rest))) :
    Kept (log ++ [.added i a]) ⟨{ s.recorder with counters := s.recorder.counters.add a },
      s.holder, s.visits.set i (.adding u (made ++ [a]) rest)⟩ where
  held j := by
    simp only [getElem?_set_of_some hv]
    rw [hk.held j]
    split
    · next hj => simp [hj, hv]
    · rfl
  free hfree := (hk.nobody hfree hv).elim
  adding j v made' rest' hj := by
    obtain ⟨hu, hr⟩ := hk.adding i u made _ hv
    rw [getElem?_set_of_some hv] at hj
    split at hj
    · cases hj
      refine ⟨by simpa using hu, ?_⟩
      rw [hr, addAll_append, replay_concat]
      rfl
    · next hne => exact absurd (hk.alone hj hv) hne
  counters := by
    rw [additions_append, addAll_append, ← hk.counters]
    rfl
  own j v hj := by
    rw [getElem?_set_of_some hv] at hj
    rw [additionsOf_append]
    split at hj
    · next h =>
      cases hj
      rw [h, hk.own i _ hv]
      simp [additionsOf, Incident.additionOf?, Visit.made]
    · next h =>
      rw [hk.own j v hj]
      simp [additionsOf, Incident.additionOf?, Ne.symm h]
  unborn j hj := by
    have hlen : s.visits.length ≤ j := by simpa using hj
    have hi := (List.getElem?_eq_some_iff.1 hv).1
    have hne : i ≠ j := by omega
    rw [additionsOf_append, hk.unborn j hlen]
    simp [additionsOf, Incident.additionOf?, hne]
  shown := hk.shown_append (by simp)

theorem Kept.left (hk : s.Kept log) {u : Update} {made : List Addition}
    (hv : s.visits[i]? = some (.adding u made [])) :
    Kept (log ++ [.left i u]) ⟨{ s.recorder with marked := s.recorder.marked || u.breaksOff },
      none, s.visits.set i (.gone u)⟩ where
  held j := by
    simp only [getElem?_set_of_some hv]
    split
    · simp
    · next hne => simpa using fun v made rest hj ↦ hne (hk.alone hj hv)
  free _ := by
    obtain ⟨hu, hr⟩ := hk.adding i u made [] hv
    rw [List.append_nil] at hu
    rw [hr, ← hu, replay_concat]
    rfl
  adding j v made' rest' hj := by
    rw [getElem?_set_of_some hv] at hj
    split at hj
    · cases hj
    · next hne => exact absurd (hk.alone hj hv) hne
  counters := by
    rw [additions_append, addAll_append, ← hk.counters]
    rfl
  own j v hj := by
    rw [getElem?_set_of_some hv] at hj
    rw [additionsOf_append]
    show additionsOf j log ++ [] = v.made
    rw [List.append_nil]
    split at hj
    · next h =>
      cases hj
      obtain ⟨hu, -⟩ := hk.adding i u made [] hv
      rw [h, hk.own i _ hv, Visit.made, Visit.made, hu, List.append_nil]
    · exact hk.own j v hj
  unborn j hj := by
    rw [additionsOf_append, hk.unborn j (by simpa using hj)]
    rfl
  shown := hk.shown_append (by simp)

theorem Kept.timed (hk : s.Kept log) (a : Activity) (d : Duration) (hfree : s.holder = none) :
    Kept (log ++ [.timed a d]) ⟨s.recorder.timed a d, s.holder, s.visits⟩ where
  held := hk.held
  free _ := by
    rw [replay_concat, ← hk.free hfree]
    rfl
  adding j u made rest hj := (hk.nobody hfree hj).elim
  counters := by
    have hnone : additions [.timed a d] = [] := rfl
    rw [additions_append, hnone, List.append_nil, Recorder.counters_timed, hk.counters]
  own j v hj := by
    rw [additionsOf_append, hk.own j v hj]
    exact List.append_nil _
  unborn j hj := by
    rw [additionsOf_append, hk.unborn j hj]
    rfl
  shown := hk.shown_append (by simp)

theorem Kept.look (hk : s.Kept log) (elapsed : Duration) (hfree : s.holder = none) :
    Kept (log ++ [.shown (s.recorder.snapshot elapsed)]) s where
  held := hk.held
  free _ := by
    rw [replay_concat]
    exact hk.free hfree
  adding j u made rest hj := (hk.nobody hfree hj).elim
  counters := by
    rw [additions_append, addAll_append, ← hk.counters]
    rfl
  own j v hj := by
    rw [additionsOf_append, hk.own j v hj]
    exact List.append_nil _
  unborn j hj := by
    rw [additionsOf_append, hk.unborn j hj]
    rfl
  shown before after x h := by
    rcases cut_append (fun hx ↦ by rw [List.mem_singleton.1 hx]) h with
      ⟨rfl, -, hx⟩ | ⟨rest, hlog, -⟩
    · obtain rfl : s.recorder.snapshot elapsed = x := by simpa using hx
      exact ⟨hk.counters, elapsed, by rw [← hk.free hfree]⟩
    · exact hk.shown before rest x hlog

theorem Change.kept (h : s.Change more t) (hk : s.Kept log) : t.Kept (log ++ more) := by
  cases h with
  | called u => simpa using hk.called u
  | entered i u hv hfree => simpa using hk.entered hv hfree
  | added i u made a rest hv => exact hk.added hv
  | left i u made hv => exact hk.left hv
  | timed a d hfree => exact hk.timed a d hfree
  | shown elapsed hfree => exact hk.look elapsed hfree

theorem Run.kept (h : Run s more t) (hk : s.Kept log) : t.Kept (log ++ more) := by
  induction h with
  | refl => simpa using hk
  | step m _ hm ih =>
    rw [← List.append_assoc]
    exact (step_change m hm).kept ih

theorem Change.untimed (h : s.Change more t) (hmore : ∀ a d, .timed a d ∉ more) :
    t.recorder.stageTimes = s.recorder.stageTimes := by
  cases h with
  | timed a d _ => exact absurd (List.mem_singleton_self _) (hmore a d)
  | _ => rfl

theorem Run.untimed (h : Run s more t) (hmore : ∀ a d, .timed a d ∉ more) :
    t.recorder.stageTimes = s.recorder.stageTimes := by
  induction h with
  | refl => rfl
  | step m _ hm ih =>
    rw [(step_change m hm).untimed fun a d hx ↦ hmore a d (List.mem_append_right _ hx)]
    exact ih fun a d hx ↦ hmore a d (List.mem_append_left _ hx)

/-- A lock given up by an update that broke off is a lock given up. -/
theorem Kept.goes_on (hk : s.Kept log) {v : Visit} (hi : s.visits[i]? = some v) :
    (∃ u, v = .gone u) ∨ ∃ j, (s.step (.go j)).isSome = true := by
  cases hfree : s.holder with
  | some j =>
    obtain ⟨u, made, rest, hj⟩ := (hk.held j).1 hfree
    refine .inr ⟨j, ?_⟩
    cases rest with
    | nil => simp [step, hj]
    | cons a rest => simp [step, hj]
  | none =>
    cases v with
    | waiting u => exact .inr ⟨i, by simp [step, hi, hfree]⟩
    | adding u made rest => exact (hk.nobody hfree hi).elim
    | gone u => exact .inl ⟨u, rfl⟩

structure Accumulates (log : List Incident) (s : SharedRecorder) : Prop where
  /-- The ten fields, from all additions made so far, by whomever, in any order. -/
  counters : ∀ as, (additions log).Perm as → s.recorder.counters = Counters.zero.addAll as
  columns : ∀ col : Column,
    (col.value s.recorder.counters).toNat = col.sum (additions log) % UInt64.size
  /-- Whatever was added before a snapshot is in it, and nothing else. -/
  shown : ∀ before after x, log = before ++ .shown x :: after →
    (∀ as, (additions before).Perm as → x.counters = Counters.zero.addAll as) ∧
      ∃ elapsed, x = (replay before).snapshot elapsed
  /-- A thread makes its additions in their order, and has made all of them when it is gone. -/
  own : ∀ (i : Nat) (v : Visit), s.visits[i]? = some v →
    additionsOf i log = v.made ∧ v.made <+: v.update.additions
  gone : ∀ (i : Nat) (u : Update), s.visits[i]? = some (.gone u) → additionsOf i log = u.additions
  untimed : ∀ more t, Run s more t → (∀ a d, .timed a d ∉ more) →
    t.recorder.stageTimes = s.recorder.stageTimes
  /-- Whenever nobody is in the middle of an update, the updates have been made one at a time. -/
  free : s.holder = none → s.recorder = replay log
  goes_on : ∀ (i : Nat) (v : Visit), s.visits[i]? = some v →
    (∃ u, v = .gone u) ∨ ∃ j, (s.step (.go j)).isSome = true

theorem Run.accumulates (h : Run empty log s) : s.Accumulates log := by
  have hk : s.Kept log := h.kept kept_empty
  constructor
  case counters => exact fun as hp ↦ hk.counters.trans (Counters.addAll_perm _ hp)
  case columns =>
    intro col
    rw [hk.counters, Column.toNat_value_addAll]
  case shown =>
    intro before after x hx
    obtain ⟨hc, hr⟩ := hk.shown before after x hx
    exact ⟨fun as hp ↦ hc.trans (Counters.addAll_perm _ hp), hr⟩
  case own =>
    intro i v hi
    refine ⟨hk.own i v hi, ?_⟩
    cases v with
    | waiting u => exact List.nil_prefix
    | adding u made rest => exact ⟨rest, (hk.adding i u made rest hi).1.symm⟩
    | gone u => exact List.prefix_rfl
  case gone => exact fun i u hi ↦ hk.own i (.gone u) hi
  case untimed => exact fun more t ht hmore ↦ ht.untimed hmore
  case free => exact hk.free
  case goes_on => exact fun i v hi ↦ hk.goes_on hi

/-- Three threads at a recorder. The first one breaks off after two additions, the second is through,
the third is still there when the last snapshot is taken. -/
def brokenOff : List Incident × SharedRecorder :=
  (Trace.follow step empty [.call ⟨[.read 3, .failure], true⟩, .call ⟨[.compress 8 2], false⟩, .go 0,
    .go 0, .go 0, .go 0, .look .zero, .call ⟨[.write 5], false⟩, .go 1, .go 1, .go 1,
    .look .zero]).get rfl

end SharedRecorder

/-- Counters filled apart and merged, or shared, come to what one counter comes to alone. -/
theorem counters_accumulate :
    (∀ parts : List (List Addition), ∃ as : List Addition,
      as.Perm parts.flatten ∧ Split as (parts.map Counters.zero.addAll)) ∧
    (∀ (as bs : List Addition) (c : Counters), Split as [c] → as.Perm bs →
      c = Counters.zero.addAll bs ∧
        ∀ col : Column, (col.value c).toNat = col.sum bs % UInt64.size) ∧
    ∀ (log : List SharedRecorder.Incident) (s : SharedRecorder),
      SharedRecorder.Run .empty log s → s.Accumulates log := by
  refine ⟨Split.of_parts, fun as bs c h hp ↦ ?_, fun log s h ↦ h.accumulates⟩
  have hc : c = Counters.zero.addAll bs := h.total hp
  exact ⟨hc, fun col ↦ by rw [hc, Column.toNat_value_addAll]⟩

theorem counters_accumulate_brokenOff :
    Split [.failure, .read 3, .write 5] [(Counters.zero.add (.read 3)).add (.write 5) +
      Counters.zero.add .failure] ∧
      [Addition.failure, .read 3, .write 5].Perm [.read 3, .failure, .write 5] ∧
      SharedRecorder.Run .empty SharedRecorder.brokenOff.1 SharedRecorder.brokenOff.2 ∧
      SharedRecorder.additions SharedRecorder.brokenOff.1 = [.read 3, .failure, .compress 8 2] ∧
      (Counters.zero.add (.read 3)).add (.write 5) + Counters.zero.add .failure =
        Counters.zero.addAll [.read 3, .failure, .write 5] ∧
      SharedRecorder.brokenOff.2.Accumulates SharedRecorder.brokenOff.1 :=
  have hsplit : Split [.failure, .read 3, .write 5] [(Counters.zero.add (.read 3)).add (.write 5) +
      Counters.zero.add .failure] :=
    .merge (((Split.none.zero.add .failure).zero.add (.read 3)).add (.write 5))
  have hperm : [Addition.failure, .read 3, .write 5].Perm [.read 3, .failure, .write 5] := .swap ..
  have hrun : SharedRecorder.Run .empty SharedRecorder.brokenOff.1 SharedRecorder.brokenOff.2 :=
    .of_isSome _
  ⟨hsplit, hperm, hrun, rfl, (counters_accumulate.2.1 _ _ _ hsplit hperm).1,
    counters_accumulate.2.2 _ _ hrun⟩

end QueuedFiles.Telemetry
