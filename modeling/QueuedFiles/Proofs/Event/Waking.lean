import Mathlib.Data.List.Nodup
import QueuedFiles.Proofs.Event
import QueuedFiles.Proofs.Trace

/-!
The completion event in use by any number of threads. Looking at the flag and acting on what it
showed are two moves here, so that anything might come between them; the lock lets nothing come
between them that matters. The signal that takes the lock first sets the flag, and nobody sleeps on.
-/

namespace QueuedFiles

namespace EventPhase

variable {old new : Bool} {p q : EventPhase}

theorem Goes.unset_of_parked (h : p.Goes old new .parked) : new = false := by
  cases h with
  | parked hf => exact hf

theorem Goes.set_or_same (h : p.Goes old new q) :
    p = .testing .signal ∧ q = .notifying ∨ new = old := by
  cases h with
  | set => exact .inl ⟨rfl, rfl⟩
  | _ => exact .inr rfl

theorem Goes.of_testing_signal (h : (testing .signal).Goes old new q) : new = true := by
  cases h with
  | set => rfl
  | wasSet hf => exact hf

theorem Goes.not_returned {a : Bool} (h : p.Goes old new q) : p ≠ .returned a := by
  cases h with
  | _ => nofun

/-- A phase that thread `i` can be in, in a call to signal, if `order` are the threads that have taken
the lock for one. -/
def Ranks (flag : Bool) (order : List Nat) (i : Nat) : EventPhase → Prop
  | .entering _ => i ∉ order
  | .testing _ => i ∈ order ∧ (order.head? = some i ↔ flag = false)
  | .notifying => order.head? = some i
  | .leaving a | .returned a => i ∈ order ∧ (order.head? = some i ↔ a = true)
  | .parked | .woken => False

variable {order more : List Nat} {i j : Nat}

theorem head?_append_of_ne (hmore : ∀ k ∈ more, k = i) (hj : j ≠ i) :
    (order ++ more).head? = some j ↔ order.head? = some j := by
  cases order with
  | cons => rfl
  | nil =>
    cases more with
    | nil => rfl
    | cons k more =>
      have hk := hmore k (by simp)
      simp [hk, Ne.symm hj]

theorem Ranks.other (h : p.Ranks old order j) (hmore : ∀ k ∈ more, k = i) (hj : j ≠ i)
    (hflag : p.holds = true → new = old) : p.Ranks new (order ++ more) j := by
  have hmem : j ∈ order ++ more ↔ j ∈ order := by
    have hnot : j ∉ more := fun hm ↦ hj (hmore j hm)
    simp [hnot]
  cases p with
  | entering => exact mt hmem.1 h
  | testing => exact ⟨hmem.2 h.1, by rw [head?_append_of_ne hmore hj, h.2, hflag rfl]⟩
  | notifying => exact (head?_append_of_ne hmore hj).2 h
  | leaving | returned => exact ⟨hmem.2 h.1, by rw [head?_append_of_ne hmore hj, h.2]⟩
  | parked | woken => exact h

theorem Ranks.rouse (h : p.Ranks old order j) : (Event.rouse p).Ranks old order j := by
  cases p with
  | parked => exact h.elim
  | _ => exact h

end EventPhase

namespace Event

/-- What a thread does that is in a call and has seen the flag as `seen`. -/
def act (e : Event) (i : Nat) : EventCall → Bool → Event
  | .signal, true => { e with threads := e.threads.set i (.leaving false) }
  | .signal, false => { e with signaled := true, threads := e.threads.set i .notifying }
  | .poll, seen => { e with threads := e.threads.set i (.leaving seen) }
  | .wait, true => { e with threads := e.threads.set i (.leaving true) }
  | .wait, false => { e with holder := none, threads := e.threads.set i .parked }

variable {e f : Event} {i : Nat} {c : EventCall} {p q : EventPhase}

/-- As long as the flag is as it was seen, both moves are one. -/
theorem step_of_testing (h : e.threads[i]? = some (.testing c)) :
    e.step i = some (e.act i c e.signaled) := by
  rw [step, h]
  cases c <;> cases hf : e.signaled <;> simp [act, hf]

def Locked (e : Event) : Prop :=
  ∀ i, e.holder = some i ↔ ∃ p, e.threads[i]? = some p ∧ p.holds = true

/-- Nobody is asleep with the flag set, unless somebody is about to wake all who are. -/
def Watched (e : Event) : Prop :=
  e.signaled = true → .parked ∈ e.threads → .notifying ∈ e.threads

theorem holds_rouse (p : EventPhase) : (rouse p).holds = p.holds := by
  cases p with
  | _ => rfl

theorem rouse_eq_returned {a : Bool} : rouse p = .returned a ↔ p = .returned a := by
  cases p <;> simp [rouse]

theorem rouse_ne_parked (p : EventPhase) : rouse p ≠ .parked := by
  cases p <;> simp [rouse]

theorem Locked.unique (hl : e.Locked) {j : Nat} (hi : e.threads[i]? = some p) (hp : p.holds = true)
    (hj : e.threads[j]? = some q) (hq : q.holds = true) : i = j := by
  have h := (hl i).2 ⟨p, hi, hp⟩
  rw [(hl j).2 ⟨q, hj, hq⟩] at h
  exact (Option.some.inj h).symm

theorem Locked.start (hl : e.Locked) (c : EventCall) : (e.start c).Locked := by
  intro i
  rw [show (e.start c).holder = e.holder from rfl, hl i]
  constructor
  · rintro ⟨p, hp, hholds⟩
    exact ⟨p, getElem?_snoc.2 (.inl hp), hholds⟩
  · rintro ⟨p, hp, hholds⟩
    rcases getElem?_snoc.1 hp with hp | ⟨-, rfl⟩
    · exact ⟨p, hp, hholds⟩
    · cases hholds

theorem Watched.start (hw : e.Watched) (c : EventCall) : (e.start c).Watched := by
  intro hf hparked
  exact List.mem_append_left _ (hw hf (by simpa [Event.start] using hparked))

namespace Shift

theorem self (h : e.Shift i p q f) : f.threads[i]? = some q := by
  have hi := (List.getElem?_eq_some_iff.1 h.phase).1
  rw [h.threads]
  split <;> simp [hi]

theorem other (h : e.Shift i p q f) {j : Nat} (hj : j ≠ i) :
    f.threads[j]? = if p = .notifying then (e.threads[j]?).map rouse else e.threads[j]? := by
  rw [h.threads]
  split
  · rw [List.getElem?_set_ne hj.symm, List.getElem?_map]
  · rw [List.getElem?_set_ne hj.symm]

theorem holds_other (h : e.Shift i p q f) {j : Nat} (hj : j ≠ i) :
    (∃ r, f.threads[j]? = some r ∧ r.holds = true) ↔
      ∃ r, e.threads[j]? = some r ∧ r.holds = true := by
  rw [h.other hj]
  split
  · simp [holds_rouse]
  · rfl

theorem returned_other (h : e.Shift i p q f) {j : Nat} {a : Bool} (hj : j ≠ i) :
    f.threads[j]? = some (.returned a) ↔ e.threads[j]? = some (.returned a) := by
  rw [h.other hj]
  split
  · rw [Option.map_eq_some_iff]
    constructor
    · rintro ⟨r, hr, hrouse⟩
      rwa [rouse_eq_returned.1 hrouse] at hr
    · exact fun hr ↦ ⟨_, hr, rfl⟩
  · rfl

theorem locked (h : e.Shift i p q f) (hl : e.Locked) : f.Locked := by
  intro j
  have hi : e.holder = some i ↔ p.holds = true := by simp [hl i, h.phase]
  rw [h.holder]
  by_cases hj : j = i
  · subst hj
    rw [h.self]
    cases hq : q.holds <;> cases hp : p.holds <;> simp_all
  · rw [h.holds_other hj, ← hl j]
    cases hq : q.holds with
    | true =>
      cases hp : p.holds with
      | true => rfl
      | false => simp [h.free hp hq, Ne.symm hj]
    | false =>
      cases hp : p.holds with
      | true => simp [hi.2 hp, Ne.symm hj]
      | false => rfl

theorem watched (h : e.Shift i p q f) (hw : e.Watched) : f.Watched := by
  intro hf hparked
  obtain ⟨j, hj⟩ := List.mem_iff_getElem?.1 hparked
  have hij : j ≠ i := by
    rintro rfl
    cases h.self.symm.trans hj
    exact absurd hf (by simp [h.goes.unset_of_parked])
  rw [h.other hij] at hj
  split at hj
  · obtain ⟨r, -, hr⟩ := Option.map_eq_some_iff.1 hj
    exact absurd hr (rouse_ne_parked r)
  · next hp =>
    rcases h.goes.set_or_same with ⟨-, rfl⟩ | hsame
    · exact List.mem_of_getElem? h.self
    · obtain ⟨k, hk⟩ := List.mem_iff_getElem?.1 (hw (hsame ▸ hf) (List.mem_of_getElem? hj))
      have hki : k ≠ i := by
        rintro rfl
        cases h.phase.symm.trans hk
        exact hp rfl
      refine List.mem_of_getElem? (i := k) ?_
      rw [h.other hki, if_neg hp, hk]

end Shift

end Event

structure Gathering where
  event : Event
  /-- What each thread of the event is there for. -/
  calls : List EventCall
  /-- What the flag has shown to each thread that looks at it, until the thread acts on it. -/
  sight : Nat → Option Bool

namespace Gathering

def empty : Gathering := ⟨.unset, [], fun _ ↦ none⟩

inductive Move where
  | call (c : EventCall)
  /-- A thread that holds the lock looks at the flag. -/
  | look (i : Nat)
  /-- A thread makes its next move at the event, by what it has seen if it has looked. -/
  | go (i : Nat)
  /-- A thread wakes up without having been woken. -/
  | stir (i : Nat)

inductive Incident where
  | locked (i : Nat) (c : EventCall)
  | returned (i : Nat) (c : EventCall) (answer : Bool)

/-- What others see of a thread that goes from one phase to another. -/
def seen (i : Nat) (c : EventCall) : EventPhase → EventPhase → List Incident
  | _, .returned a => [.returned i c a]
  | .entering _, _ | .woken, _ => [.locked i c]
  | _, _ => []

def told (s : Gathering) (i : Nat) (e : Event) : List Incident :=
  match s.calls[i]?, s.event.threads[i]?, e.threads[i]? with
  | some c, some p, some q => seen i c p q
  | _, _, _ => []

/-- The state after a move that can be made, with what others see of it. -/
def step (s : Gathering) : Move → Option (List Incident × Gathering)
  | .call c => some ([], { s with event := s.event.start c, calls := s.calls ++ [c] })
  | .look i =>
    match s.event.threads[i]?, s.sight i with
    | some (.testing _), none =>
      some ([], { s with sight := Function.update s.sight i (some s.event.signaled) })
    | _, _ => none
  | .go i =>
    match s.event.threads[i]? with
    | some (.testing c) => (s.sight i).map fun flag ↦
      (s.told i (s.event.act i c flag),
        { s with event := s.event.act i c flag, sight := Function.update s.sight i none })
    | _ => (s.event.step i).map fun e ↦ (s.told i e, { s with event := e })
  | .stir i => (s.event.stir i).map fun e ↦ ([], { s with event := e })

abbrev Run : Gathering → List Incident → Gathering → Prop := Trace step

/-- What a move may do, given that what threads have seen is still so. -/
inductive Change (s : Gathering) : List Incident → Gathering → Prop
  | called (c : EventCall) : Change s [] ⟨s.event.start c, s.calls ++ [c], s.sight⟩
  | looked (i : Nat) (c : EventCall) : s.event.threads[i]? = some (.testing c) →
      Change s [] ⟨s.event, s.calls, Function.update s.sight i (some s.event.signaled)⟩
  | moved (i : Nat) (c : EventCall) (p q : EventPhase) (e : Event) (sight : Nat → Option Bool) :
      s.calls[i]? = some c → s.event.Shift i p q e →
      (∀ j, sight j = none ∨ j ≠ i ∧ sight j = s.sight j) →
      s.event.step i = some e ∨ s.event.stir i = some e →
      Change s (seen i c p q) ⟨e, s.calls, sight⟩

variable {s t u : Gathering} {log more : List Incident} {i j : Nat} {c : EventCall} {a : Bool}

def Incident.signaler? : Incident → Option Nat
  | .locked i .signal => some i
  | _ => none

/-- The threads that have taken the lock for a signal, in their order. -/
def signalers (log : List Incident) : List Nat := log.filterMap Incident.signaler?

def Incident.back? : Incident → Option Nat
  | .returned i _ _ => some i
  | _ => none

/-- What threads have seen is still so, and they have not acted on it. -/
def Sees (s : Gathering) : Prop :=
  ∀ i b, s.sight i = some b → b = s.event.signaled ∧ ∃ c, s.event.threads[i]? = some (.testing c)

theorem signaler_seen {p q : EventPhase} {e : Incident} (he : e ∈ seen i c p q) {k : Nat}
    (hk : e.signaler? = some k) : k = i := by
  unfold seen at he
  split at he
  · obtain rfl := List.mem_singleton.1 he
    cases hk
  · obtain rfl := List.mem_singleton.1 he
    cases c <;> cases hk
    rfl
  · obtain rfl := List.mem_singleton.1 he
    cases c <;> cases hk
    rfl
  · cases he

theorem mem_signalers_seen {p q : EventPhase} : ∀ k ∈ signalers (seen i c p q), k = i := by
  intro k hk
  obtain ⟨e, he, hk⟩ := List.mem_filterMap.1 hk
  exact signaler_seen he hk

theorem mem_seen {p q : EventPhase} {d : EventCall} :
    .returned j d a ∈ seen i c p q ↔ j = i ∧ d = c ∧ q = .returned a := by
  cases q with
  | returned b => simp [seen, eq_comm]
  | _ => cases p <;> simp [seen]

theorem told_eq {p q : EventPhase} {e : Event} (hc : s.calls[i]? = some c)
    (hs : s.event.Shift i p q e) : s.told i e = seen i c p q := by
  rw [told, hc, hs.phase, hs.self]

theorem call_of_thread (hserves : s.event.Serves s.calls) {p : EventPhase}
    (hp : s.event.threads[i]? = some p) : ∃ c, s.calls[i]? = some c := by
  obtain ⟨hi, -⟩ := List.getElem?_eq_some_iff.1 hp
  rw [← hserves.length] at hi
  exact ⟨s.calls[i], List.getElem?_eq_getElem hi⟩

theorem step_change (hserves : s.event.Serves s.calls) (hsees : s.Sees) (m : Move)
    (hm : s.step m = some (log, t)) : s.Change log t := by
  cases m with
  | call c =>
    cases hm
    exact .called c
  | look i =>
    rw [step] at hm
    split at hm
    · next c hp hsight =>
      cases hm
      exact .looked i c hp
    · cases hm
  | go i =>
    rw [step] at hm
    split at hm
    · next c hp =>
      obtain ⟨flag, hflag, hm⟩ := Option.map_eq_some_iff.1 hm
      obtain ⟨rfl, -⟩ := hsees i flag hflag
      have hstep := Event.step_of_testing hp
      obtain ⟨p, q, hs⟩ := Event.step_shift hstep
      obtain ⟨d, hd⟩ := call_of_thread hserves hp
      cases hm
      rw [told_eq hd hs]
      refine .moved i d p q _ _ hd hs ?_ (.inl hstep)
      intro j
      by_cases hj : j = i
      · exact .inl (by rw [hj, Function.update_self])
      · exact .inr ⟨hj, Function.update_of_ne hj ..⟩
    · next hnot =>
      obtain ⟨e, he, hm⟩ := Option.map_eq_some_iff.1 hm
      obtain ⟨p, q, hs⟩ := Event.step_shift he
      obtain ⟨d, hd⟩ := call_of_thread hserves hs.phase
      cases hm
      rw [told_eq hd hs]
      refine .moved i d p q _ _ hd hs ?_ (.inl he)
      intro j
      by_cases hj : j = i
      · refine .inl (Option.eq_none_iff_forall_ne_some.2 fun b hb ↦ ?_)
        obtain ⟨-, c, hc⟩ := hsees j b hb
        exact hnot c (hj ▸ hc)
      · exact .inr ⟨hj, rfl⟩
  | stir i =>
    obtain ⟨e, he, hm⟩ := Option.map_eq_some_iff.1 hm
    have hs := Event.stir_shift he
    obtain ⟨d, hd⟩ := call_of_thread hserves hs.phase
    cases hm
    refine .moved i d .parked .woken _ _ hd hs ?_ (.inr he)
    intro j
    by_cases hj : j = i
    · refine .inl (Option.eq_none_iff_forall_ne_some.2 fun b hb ↦ ?_)
      obtain ⟨-, c, hc⟩ := hsees j b hb
      cases hs.phase.symm.trans (hj ▸ hc)
    · exact .inr ⟨hj, rfl⟩

/-- How the threads stand that are there to signal, in the order in which they have taken the lock. -/
structure Ranked (order : List Nat) (e : Event) (calls : List EventCall) : Prop where
  nodup : order.Nodup
  signals : ∀ i ∈ order, calls[i]? = some EventCall.signal
  rank : ∀ (i : Nat) (p : EventPhase), calls[i]? = some .signal → e.threads[i]? = some p →
    p.Ranks e.signaled order i
  first : ∀ i, order.head? = some i →
    e.signaled = true ∨ e.threads[i]? = some (.testing .signal)
  unset : order = [] → e.signaled = false

variable {order : List Nat} {e f : Event} {calls : List EventCall} {p q : EventPhase}

theorem Ranked.start (h : Ranked order e calls) (hserves : e.Serves calls) (c : EventCall) :
    Ranked order (e.start c) (calls ++ [c]) where
  nodup := h.nodup
  signals i hi := getElem?_snoc.2 (.inl (h.signals i hi))
  rank := by
    intro i p hc hp
    rcases getElem?_snoc.1 hp with hp | ⟨hi, rfl⟩
    · rcases getElem?_snoc.1 hc with hc | ⟨hi, -⟩
      · exact h.rank i p hc hp
      · have hlt := (List.getElem?_eq_some_iff.1 hp).1
        have hlen := hserves.length
        omega
    · intro hm
      have hlt := (List.getElem?_eq_some_iff.1 (h.signals i hm)).1
      have hlen := hserves.length
      omega
  first i hi := (h.first i hi).imp_right fun ht ↦ getElem?_snoc.2 (.inl ht)
  unset := h.unset

/-- The signal that finds the lock free finds the flag unset if and only if it is the first. -/
theorem Ranked.free (h : Ranked order e calls) (hl : e.Locked) (hfree : e.holder = none) :
    order = [] ↔ e.signaled = false := by
  refine ⟨h.unset, fun hf ↦ ?_⟩
  cases order with
  | nil => rfl
  | cons w order =>
    rcases h.first w rfl with hset | ht
    · exact absurd hset (by simp [hf])
    · have hw := (hl w).2 ⟨_, ht, rfl⟩
      rw [hfree] at hw
      cases hw

/-- The mover itself: it comes last in the order if it has just taken the lock. -/
theorem ranks_mover {old new : Bool} (hgo : p.Goes old new q) (hfit : p.Fits old .signal)
    (hfree : p.holds = false → q.holds = true → (order = [] ↔ old = false))
    (hrank : p.Ranks old order i) :
    q.Ranks new (order ++ signalers (seen i .signal p q)) i := by
  cases hgo with
  | entered c =>
    show i ∈ order ++ [i] ∧ ((order ++ [i]).head? = some i ↔ old = false)
    refine ⟨by simp, ?_⟩
    rw [← hfree rfl rfl]
    cases order with
    | nil => simp
    | cons w order =>
      have hne : w ≠ i := fun hw ↦ hrank (by simp [hw])
      simp [hne]
  | set hf =>
    show (order ++ []).head? = some i
    rw [List.append_nil]
    exact hrank.2.2 hf
  | wasSet hf =>
    show i ∈ order ++ [] ∧ ((order ++ []).head? = some i ↔ false = true)
    rw [List.append_nil]
    exact ⟨hrank.1, by simp [hrank.2, hf]⟩
  | notified =>
    show i ∈ order ++ [] ∧ ((order ++ []).head? = some i ↔ true = true)
    rw [List.append_nil]
    have hhead : order.head? = some i := hrank
    exact ⟨List.mem_of_head? hhead, by simp [hhead]⟩
  | left a =>
    show i ∈ order ++ [] ∧ ((order ++ []).head? = some i ↔ a = true)
    rw [List.append_nil]
    exact hrank
  | polled | waited | parked => cases hfit
  | again | stirred => exact hrank.elim

theorem signalers_seen (i : Nat) {old new : Bool} (hgo : p.Goes old new q) (hfit : p.Fits old c) :
    signalers (seen i c p q) = [] ∨ signalers (seen i c p q) = [i] ∧ c = .signal ∧
      p = .entering .signal ∧ q = .testing .signal := by
  cases hgo with
  | entered d =>
    obtain rfl : d = c := hfit
    cases d with
    | signal => exact .inr ⟨rfl, rfl, rfl, rfl⟩
    | poll | wait => exact .inl rfl
  | again =>
    obtain rfl : c = .wait := hfit
    exact .inl rfl
  | _ => exact .inl rfl

/-- Whoever is first stays first until the flag is set. -/
theorem Ranked.first_kept (h : Ranked order e calls) (hs : e.Shift i p q f)
    (hj : order.head? = some j) : f.signaled = true ∨ f.threads[j]? = some (.testing .signal) := by
  rcases h.first j hj with hset | ht
  · exact .inl (hs.goes.flag hset)
  · by_cases hij : j = i
    · subst hij
      cases hs.phase.symm.trans ht
      exact .inl hs.goes.of_testing_signal
    · refine .inr ?_
      rw [hs.other hij, ht]
      split <;> rfl

theorem Ranked.moved (h : Ranked order e calls) (hl : e.Locked) (hserves : e.Serves calls)
    (hc : calls[i]? = some c) (hs : e.Shift i p q f) :
    Ranked (order ++ signalers (seen i c p q)) f calls where
  nodup := by
    rcases signalers_seen i hs.goes (hserves.fits hc hs.phase) with hm | ⟨hm, rfl, rfl, -⟩
    · rw [hm, List.append_nil]
      exact h.nodup
    · have hi : i ∉ order := h.rank i _ hc hs.phase
      rw [hm, ← List.concat_eq_append]
      exact h.nodup.concat hi
  signals := by
    intro j hj
    rcases List.mem_append.1 hj with hj | hj
    · exact h.signals j hj
    · rcases signalers_seen i hs.goes (hserves.fits hc hs.phase) with hm | ⟨hm, rfl, -⟩
      · simp [hm] at hj
      · obtain rfl : j = i := by simpa [hm] using hj
        exact hc
  rank := by
    intro j r hj hr
    by_cases hij : j = i
    · subst hij
      cases hc.symm.trans hj
      cases hs.self.symm.trans hr
      exact ranks_mover hs.goes (hserves.fits hc hs.phase)
        (fun hp hq ↦ h.free hl (hs.free hp hq)) (h.rank j p hc hs.phase)
    · have hsame : ∀ r, e.threads[j]? = some r → r.holds = true → f.signaled = e.signaled := by
        intro r hr hholds
        rcases hs.goes.set_or_same with ⟨rfl, -⟩ | hsame
        · exact absurd (hl.unique hr hholds hs.phase rfl) hij
        · exact hsame
      rw [hs.other hij] at hr
      split at hr
      · obtain ⟨r₀, hr₀, rfl⟩ := Option.map_eq_some_iff.1 hr
        exact ((h.rank j r₀ hj hr₀).other mem_signalers_seen hij (hsame r₀ hr₀)).rouse
      · exact (h.rank j r hj hr).other mem_signalers_seen hij (hsame r hr)
  first := by
    intro j hj
    rcases signalers_seen i hs.goes (hserves.fits hc hs.phase) with hm | ⟨hm, -, -, rfl⟩
    · rw [hm, List.append_nil] at hj
      exact h.first_kept hs hj
    · rw [hm] at hj
      cases order with
      | nil =>
        obtain rfl : i = j := by simpa using hj
        exact .inr hs.self
      | cons w order => exact h.first_kept hs (by simpa using hj)
  unset := by
    intro hnil
    obtain ⟨rfl, -⟩ := List.append_eq_nil_iff.1 hnil
    rcases hs.goes.set_or_same with ⟨rfl, -⟩ | hsame
    · obtain rfl : .signal = c := hserves.fits hc hs.phase
      exact absurd (h.rank i _ hc hs.phase).1 (by simp)
    · rw [hsame]
      exact h.unset rfl

structure Kept (log : List Incident) (s : Gathering) : Prop where
  serves : s.event.Serves s.calls
  locked : s.event.Locked
  watched : s.event.Watched
  sees : s.Sees
  ranked : Ranked (signalers log) s.event s.calls
  returned : ∀ (i : Nat) (c : EventCall) (a : Bool), .returned i c a ∈ log ↔
    s.calls[i]? = some c ∧ s.event.threads[i]? = some (.returned a)
  once : (log.filterMap Incident.back?).Nodup

theorem kept_empty : Kept [] empty where
  serves := ⟨rfl, fun hc ↦ by simp [empty] at hc⟩
  locked := by simp [Event.Locked, empty, Event.unset]
  watched := nofun
  sees := nofun
  ranked := ⟨List.nodup_nil, nofun, nofun, nofun, fun _ ↦ rfl⟩
  returned := by simp [empty]
  once := List.nodup_nil

theorem Kept.called (hk : s.Kept log) (c : EventCall) :
    Kept log ⟨s.event.start c, s.calls ++ [c], s.sight⟩ := by
  refine ⟨hk.serves.start c, hk.locked.start c, hk.watched.start c, ?_,
    hk.ranked.start hk.serves c, ?_, hk.once⟩
  · intro i b hb
    obtain ⟨hflag, d, hd⟩ := hk.sees i b hb
    exact ⟨hflag, d, getElem?_snoc.2 (.inl hd)⟩
  · intro i d a
    rw [hk.returned i d a]
    constructor
    · rintro ⟨hd, ha⟩
      exact ⟨getElem?_snoc.2 (.inl hd), getElem?_snoc.2 (.inl ha)⟩
    · rintro ⟨hd, ha⟩
      have ha := (getElem?_snoc.1 ha).resolve_right (by simp)
      have hlt := (List.getElem?_eq_some_iff.1 ha).1
      have hlen := hk.serves.length
      exact ⟨(getElem?_snoc.1 hd).resolve_right (by omega), ha⟩

theorem Kept.looked (hk : s.Kept log) (hp : s.event.threads[i]? = some (.testing c)) :
    Kept log ⟨s.event, s.calls, Function.update s.sight i (some s.event.signaled)⟩ := by
  refine ⟨hk.serves, hk.locked, hk.watched, ?_, hk.ranked, hk.returned, hk.once⟩
  intro j b hb
  dsimp only at hb ⊢
  by_cases hj : j = i
  · subst hj
    rw [Function.update_self] at hb
    exact ⟨(Option.some.inj hb).symm, c, hp⟩
  · rw [Function.update_of_ne hj] at hb
    exact hk.sees j b hb

variable {p q : EventPhase} {e : Event} {sight : Nat → Option Bool}

theorem Kept.sees_moved (hk : s.Kept log) (hs : s.event.Shift i p q e)
    (hsight : ∀ j, sight j = none ∨ j ≠ i ∧ sight j = s.sight j) :
    Sees ⟨e, s.calls, sight⟩ := by
  intro j b hb
  dsimp only at hb ⊢
  obtain ⟨hj, hsame⟩ := (hsight j).resolve_left (by simp [hb])
  obtain ⟨rfl, d, hd⟩ := hk.sees j b (hsame ▸ hb)
  refine ⟨?_, d, ?_⟩
  · rcases hs.goes.set_or_same with ⟨rfl, -⟩ | hflag
    · exact absurd (hk.locked.unique hd rfl hs.phase rfl) hj
    · exact hflag.symm
  · rw [hs.other hj, hd]
    split <;> rfl

theorem Kept.returned_moved (hk : s.Kept log) (hc : s.calls[i]? = some c)
    (hs : s.event.Shift i p q e) (j : Nat) (d : EventCall) (a : Bool) :
    .returned j d a ∈ log ++ seen i c p q ↔
      s.calls[j]? = some d ∧ e.threads[j]? = some (.returned a) := by
  rw [List.mem_append, hk.returned j d a, mem_seen]
  by_cases hj : j = i
  · subst hj
    have hp : s.event.threads[j]? ≠ some (.returned a) := by
      rw [hs.phase]
      exact mt Option.some.inj hs.goes.not_returned
    simp [hp, hc, hs.self, eq_comm]
  · simp [hj, hs.returned_other hj]

/-- A thread that returns has not returned before. -/
theorem Kept.once_moved (hk : s.Kept log) (hs : s.event.Shift i p q e) :
    ((log ++ seen i c p q).filterMap Incident.back?).Nodup := by
  rw [List.filterMap_append]
  by_cases hq : ∃ a, q = .returned a
  · obtain ⟨a, rfl⟩ := hq
    refine (List.concat_eq_append ▸ hk.once.concat fun hi ↦ ?_ : (_ ++ [i]).Nodup)
    obtain ⟨e', he', hi⟩ := List.mem_filterMap.1 hi
    cases e' with
    | locked => cases hi
    | returned j d b =>
      cases hi
      have hback := ((hk.returned _ _ _).1 he').2
      exact hs.goes.not_returned (Option.some.inj (hs.phase.symm.trans hback))
  · have hnone : (seen i c p q).filterMap Incident.back? = [] := by
      rw [List.filterMap_eq_nil_iff]
      intro e' he'
      cases e' with
      | locked => rfl
      | returned j d b => exact absurd ⟨b, (mem_seen.1 he').2.2⟩ hq
    rw [hnone, List.append_nil]
    exact hk.once

theorem Change.kept (h : s.Change more t) (hk : s.Kept log) : t.Kept (log ++ more) := by
  cases h with
  | called c =>
    rw [List.append_nil]
    exact hk.called c
  | looked i c hp =>
    rw [List.append_nil]
    exact hk.looked hp
  | moved i c p q e sight hc hs hsight =>
    refine ⟨hk.serves.moves hs.moves, hs.locked hk.locked, hs.watched hk.watched,
      hk.sees_moved hs hsight, ?_, hk.returned_moved hc hs, hk.once_moved hs⟩
    rw [signalers, List.filterMap_append]
    exact hk.ranked.moved hk.locked hk.serves hc hs

theorem Run.kept (h : Run s more t) (hk : s.Kept log) : t.Kept (log ++ more) := by
  induction h with
  | refl => simpa using hk
  | step m _ hs ih =>
    rw [← List.append_assoc]
    exact (step_change ih.serves ih.sees m hs).kept ih

theorem Run.signaled (h : Run s more t) (hk : s.Kept log) (hf : s.event.signaled = true) :
    t.event.signaled = true := by
  induction h with
  | refl => exact hf
  | step m hr hm ih =>
    have hkept := Run.kept hr hk
    cases step_change hkept.serves hkept.sees m hm with
    | called | looked => exact ih
    | moved i c p q e sight hc hs => exact hs.goes.flag ih

/-- No thread can go on by itself. -/
def AtRest (s : Gathering) : Prop := ∀ i, s.step (.look i) = none ∧ s.step (.go i) = none

/-- Whoever holds the lock can go on. -/
theorem AtRest.free (h : s.AtRest) (hl : s.event.Locked) : s.event.holder = none := by
  refine Option.eq_none_iff_forall_ne_some.2 fun i hi ↦ ?_
  obtain ⟨p, hp, hholds⟩ := (hl i).1 hi
  obtain ⟨hlook, hgo⟩ := h i
  cases p with
  | testing c => cases hsight : s.sight i <;> simp [step, hp, hsight] at hlook hgo
  | notifying | leaving => simp [step, hp, Event.step] at hgo
  | _ => cases hholds

theorem AtRest.returned (h : s.AtRest) (hl : s.event.Locked) (hw : s.event.Watched)
    (hf : s.event.signaled = true) : ∀ p ∈ s.event.threads, ∃ a, p = .returned a := by
  have hfree := h.free hl
  have hnobody : ∀ (i : Nat) (p : EventPhase), s.event.threads[i]? = some p → p.holds = false := by
    intro i p hp
    refine Bool.eq_false_iff.2 fun hholds ↦ ?_
    have hi := (hl i).2 ⟨p, hp, hholds⟩
    rw [hfree] at hi
    cases hi
  intro p hp
  obtain ⟨i, hi⟩ := List.mem_iff_getElem?.1 hp
  have hgo := (h i).2
  cases p with
  | returned a => exact ⟨a, rfl⟩
  | entering | woken => simp [step, hi, Event.step, hfree] at hgo
  | parked =>
    obtain ⟨k, hk⟩ := List.mem_iff_getElem?.1 (hw hf hp)
    cases hnobody k _ hk
  | _ => cases hnobody i _ hi

/-- What holds of the event whichever threads are at it. -/
structure OneShot (log : List Incident) (s : Gathering) : Prop where
  /-- Of the calls to signal, the one that was the first to take the lock is told that it has set the
  flag, and no other. -/
  first : ∀ i a, .returned i .signal a ∈ log → (a = true ↔ (signalers log).head? = some i)
  single : ∀ i j, .returned i .signal true ∈ log → .returned j .signal true ∈ log → i = j
  /-- No call takes the lock twice to signal, and none comes back twice. -/
  once : (signalers log).Nodup ∧ (log.filterMap Incident.back?).Nodup
  stays : s.event.signaled = true → ∀ more t, Run s more t → t.event.signaled = true
  /-- Whoever comes back from waiting does so with the flag set. -/
  waited : ∀ m more t i a, s.step m = some (more, t) → .returned i .wait a ∈ more →
    s.event.signaled = true ∧ t.event.signaled = true
  /-- Nobody sleeps with the flag set, unless a signal holds the lock and is about to wake all. -/
  awake : s.event.signaled = true → .parked ∈ s.event.threads →
    ∃ i, s.event.holder = some i ∧ s.calls[i]? = some .signal ∧
      s.event.threads[i]? = some .notifying
  /-- When nobody can go on by itself and the flag is set, all calls have come back. -/
  rested : s.event.signaled = true → s.AtRest → ∀ p ∈ s.event.threads, ∃ a, p = .returned a
  /-- Looking first and acting later comes to the same as doing both in one move. -/
  steps : ∀ m more t, s.step m = some (more, t) →
    t.event = s.event ∨ (∃ c, t.event = s.event.start c) ∨
      ∃ i, s.event.step i = some t.event ∨ s.event.stir i = some t.event

/-- However many threads signal, ask and wait at once, in any order of their moves. -/
theorem Run.one_shot (h : Run empty log s) : OneShot log s := by
  have hk : s.Kept log := Run.kept h kept_empty
  have hfirst : ∀ i a, .returned i .signal a ∈ log →
      (a = true ↔ (signalers log).head? = some i) := by
    intro i a ha
    obtain ⟨hc, hp⟩ := (hk.returned i .signal a).1 ha
    exact (hk.ranked.rank i _ hc hp).2.symm
  constructor
  case first => exact hfirst
  case single =>
    intro i j hi hj
    have heq := (hfirst i true hi).1 rfl
    rw [(hfirst j true hj).1 rfl] at heq
    exact (Option.some.inj heq).symm
  case once => exact ⟨hk.ranked.nodup, hk.once⟩
  case stays => exact fun hf more t ht ↦ Run.signaled ht hk hf
  case waited =>
    intro m more t i a hm ha
    have hc := step_change hk.serves hk.sees m hm
    have hf : t.event.signaled = true := by
      have hkt := hc.kept hk
      obtain ⟨hcall, hp⟩ := (hkt.returned i .wait a).1 (List.mem_append_right _ ha)
      have hfit : (EventCall.wait = .wait → a = true) ∧ (a = true → t.event.signaled = true) :=
        hkt.serves.fits hcall hp
      exact hfit.2 (hfit.1 rfl)
    refine ⟨?_, hf⟩
    cases hc with
    | called | looked => cases ha
    | moved j c p q e sight hcall hs =>
      obtain ⟨-, -, rfl⟩ := mem_seen.1 ha
      rcases hs.goes.set_or_same with ⟨-, hq⟩ | hsame
      · cases hq
      · exact hsame ▸ hf
  case awake =>
    intro hf hp
    obtain ⟨i, hi⟩ := List.mem_iff_getElem?.1 (hk.watched hf hp)
    obtain ⟨c, hc⟩ := call_of_thread hk.serves hi
    obtain ⟨rfl, -⟩ : c = .signal ∧ s.event.signaled = true := hk.serves.fits hc hi
    exact ⟨i, (hk.locked i).2 ⟨_, hi, rfl⟩, hc, hi⟩
  case rested => exact fun hf hrest ↦ hrest.returned hk.locked hk.watched hf
  case steps =>
    intro m more t hm
    cases step_change hk.serves hk.sees m hm with
    | called c => exact .inr (.inl ⟨c, rfl⟩)
    | looked => exact .inl rfl
    | moved i c p q e sight hc hs hsight hstep => exact .inr (.inr ⟨i, hstep⟩)

/-- Two threads wait, one of them wakes up for nothing and sleeps again. While a third sets the flag a
fourth is about to, and a fifth comes to wait when the flag is set and the others are not yet woken. -/
def awakened : List Incident × Gathering :=
  (Trace.follow step empty [.call .wait, .go 0, .look 0, .call .wait, .call .signal, .go 0, .go 1,
    .look 1, .go 1, .stir 0, .go 0, .look 0, .go 0, .go 2, .look 2, .call .signal, .go 2,
    .call .wait, .go 2, .go 2, .go 3, .look 3, .go 3, .go 3, .go 4, .look 4, .go 4, .go 4, .go 1,
    .look 1, .go 1, .go 1, .go 0, .look 0, .go 0, .go 0]).get rfl

theorem one_shot_awakened :
    Run empty awakened.1 awakened.2 ∧ signalers awakened.1 = [2, 3] ∧
      awakened.2.event.threads = [.returned true, .returned true, .returned true, .returned false,
        .returned true] ∧ OneShot awakened.1 awakened.2 :=
  have hrun : Run empty awakened.1 awakened.2 := .of_isSome _
  ⟨hrun, rfl, rfl, Run.one_shot hrun⟩

end Gathering

end QueuedFiles
