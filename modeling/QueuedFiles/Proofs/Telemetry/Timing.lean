import Mathlib.Algebra.BigOperators.Group.List.Basic
import QueuedFiles.Proofs.Duration
import QueuedFiles.Proofs.Telemetry.Sharing

/-!
Times as exact sums. The time of an activity is the sum of the measurements that have gone through for
it, and a measurement goes through if and only if this sum can be held; so the order of measurements
that all go through does not matter, nor does the order in which the times are summed up.
-/

namespace QueuedFiles.Telemetry

open Duration (longest)

/-- A measurement with the answer that it was given. -/
structure Timing where
  activity : Activity
  duration : Duration
  answer : Except TimeOverflow Unit

namespace Timing

def measurement (c : Timing) : Activity × Duration := (c.activity, c.duration)

/-- The measurements that have gone through. -/
def taken (log : List Timing) : List (Activity × Duration) :=
  (log.filter (·.answer.isOk)).map measurement

@[simp] theorem taken_ok (a : Activity) (d : Duration) (log : List Timing) :
    taken (⟨a, d, .ok ()⟩ :: log) = (a, d) :: taken log :=
  rfl

@[simp] theorem taken_error (a : Activity) (d : Duration) (e : TimeOverflow) (log : List Timing) :
    taken (⟨a, d, .error e⟩ :: log) = taken log :=
  rfl

/-- No measurement has broken off. -/
def Smooth (log : List Timing) : Prop := ∀ c ∈ log, c.answer = .ok ()

end Timing

/-- The nanoseconds that some measurements come to for an activity. -/
def spent (ms : List (Activity × Duration)) (a : Activity) : Nat :=
  ((ms.filter (·.1 = a)).map (·.2.toNanos)).sum

/-- The nanoseconds that some measurements come to, whatever was measured. -/
def spentInAll (ms : List (Activity × Duration)) : Nat := (ms.map (·.2.toNanos)).sum

theorem spent_cons (a b : Activity) (d : Duration) (ms : List (Activity × Duration)) :
    spent ((b, d) :: ms) a = (if b = a then d.toNanos else 0) + spent ms a := by
  by_cases h : b = a
  · simp [spent, h]
  · simp [spent, h]

theorem spent_perm {ms ms' : List (Activity × Duration)} (h : ms.Perm ms') (a : Activity) :
    spent ms a = spent ms' a :=
  ((h.filter _).map _).sum_eq

theorem sum_spent (ms : List (Activity × Duration)) :
    (Activity.all.map (spent ms)).sum = spentInAll ms := by
  induction ms with
  | nil => rfl
  | cons m ms ih =>
    obtain ⟨b, d⟩ := m
    simp only [Activity.all, List.map_cons, List.map_nil, List.sum_cons, List.sum_nil, spent_cons,
      spentInAll] at ih ⊢
    cases b <;> simp <;> omega

namespace StageTimes

open Timing (taken taken_ok taken_error Smooth)

variable {t u : StageTimes} {a : Activity} {d : Duration} {order : List Activity}
  {ms ms' : List (Activity × Duration)}

@[simp] theorem get_insert (t : StageTimes) (a b : Activity) (d : Duration) :
    (t.insert a d).get b = if b = a then d else t.get b := by
  rw [get, find?_insert]
  split <;> rfl

theorem toNanos_get_empty (a : Activity) : (empty.get a).toNanos = 0 := by
  cases a <;> rfl

theorem ext_get (hfind : ∀ a, (t.find? a).isSome = true ↔ (u.find? a).isSome = true)
    (hget : ∀ a, t.get a = u.get a) : t = u := by
  refine ext_find fun a ↦ ?_
  have hf := hfind a
  have hg := hget a
  rw [get, get] at hg
  cases ht : t.find? a with
  | none =>
    rw [ht] at hf
    exact (Option.not_isSome_iff_eq_none.1 fun hu ↦ Bool.false_ne_true (hf.2 hu)).symm
  | some x =>
    rw [ht] at hf hg
    obtain ⟨y, hu⟩ := Option.isSome_iff_exists.1 (hf.1 rfl)
    rw [hu] at hg ⊢
    exact congrArg some hg

theorem entered_cases (t : StageTimes) (a : Activity) :
    t.entered a = t ∨ t.get a = .zero ∧ t.entered a = t.insert a .zero := by
  rw [entered, get]
  cases t.find? a with
  | some x => exact .inl rfl
  | none => exact .inr ⟨rfl, rfl⟩

@[simp] theorem get_entered (t : StageTimes) (a : Activity) : (t.entered a).get a = t.get a := by
  rcases t.entered_cases a with h | ⟨hzero, h⟩
  · rw [h]
  · rw [h, hzero, get_insert, if_pos rfl]

@[simp] theorem insert_entered (t : StageTimes) (a : Activity) (d : Duration) :
    (t.entered a).insert a d = t.insert a d := by
  rcases t.entered_cases a with h | ⟨-, h⟩
  · rw [h]
  · refine ext_find fun b ↦ ?_
    rw [h, find?_insert, find?_insert, find?_insert]
    split <;> rfl

/-- All that a measurement can do. Where the sum breaks off the entry was there before, since a new one
has room for any duration. -/
theorem accumulate_cases (t : StageTimes) (a : Activity) (d : Duration) :
    (∃ sum, sum.toNanos = (t.get a).toNanos + d.toNanos ∧
      t.accumulate a d = (.ok (), t.insert a sum)) ∨
    longest.toNanos < (t.get a).toNanos + d.toNanos ∧ t.accumulate a d = (.error .adding, t) := by
  simp only [accumulate, get_entered, insert_entered]
  cases h : (t.get a).add? d with
  | some sum =>
    rw [Duration.add?_eq] at h
    exact .inl ⟨sum, Duration.ofNanos?_eq_some.1 h, rfl⟩
  | none =>
    rw [Duration.add?_eq] at h
    have hlong := Duration.ofNanos?_eq_none.1 h
    refine .inr ⟨hlong, ?_⟩
    rcases t.entered_cases a with he | ⟨hzero, -⟩
    · rw [he]
    -- An entry that was made for this measurement holds zero, and the sum is the measurement itself.
    · have hd := d.toNanos_le_longest
      rw [hzero] at hlong
      change longest.toNanos < 0 + d.toNanos at hlong
      omega

theorem toNanos_get_insert {sum : Duration} {b : Activity}
    (h : sum.toNanos = (t.get b).toNanos + d.toNanos) (a : Activity) :
    ((t.insert b sum).get a).toNanos = (t.get a).toNanos + if b = a then d.toNanos else 0 := by
  rw [get_insert]
  by_cases hab : a = b
  · rw [if_pos hab, if_pos hab.symm, h, hab]
  · rw [if_neg hab, if_neg (Ne.symm hab), Nat.add_zero]

theorem answer_accumulate (t : StageTimes) (a : Activity) (d : Duration) :
    (t.accumulate a d).1 = .error .adding ↔ longest.toNanos < (t.get a).toNanos + d.toNanos := by
  rcases t.accumulate_cases a d with ⟨sum, hsum, h⟩ | ⟨hlong, h⟩
  · have hle := sum.toNanos_le_longest
    simp only [h, reduceCtorEq, false_iff]
    omega
  · simp only [h, hlong]

theorem add_eq_ok {u : StageTimes} : t.add a d = .ok u ↔ t.accumulate a d = (.ok (), u) := by
  rw [add]
  rcases t.accumulate_cases a d with ⟨sum, -, h⟩ | ⟨-, h⟩
  · simp [h]
  · simp [h]

theorem add_eq_error : t.add a d = .error .adding ↔ (t.accumulate a d).1 = .error .adding := by
  rw [add]
  rcases t.accumulate_cases a d with ⟨sum, -, h⟩ | ⟨-, h⟩
  · simp [h]
  · simp [h]

theorem accumulate_of_error (h : (t.accumulate a d).1 = .error .adding) :
    t.accumulate a d = (.error .adding, t) := by
  rcases t.accumulate_cases a d with ⟨sum, -, hadd⟩ | ⟨-, hadd⟩
  · rw [hadd] at h
    cases h
  · exact hadd

/-- Measurements made one after another, whatever each of them is told. -/
def addEach (t : StageTimes) : List (Activity × Duration) → List Timing × StageTimes
  | [] => ([], t)
  | (a, d) :: ms =>
    let (answer, u) := t.accumulate a d
    let (log, v) := u.addEach ms
    (⟨a, d, answer⟩ :: log, v)

theorem addEach_cons (t : StageTimes) (a : Activity) (d : Duration)
    (ms : List (Activity × Duration)) :
    t.addEach ((a, d) :: ms) = (⟨a, d, (t.accumulate a d).1⟩ ::
      ((t.accumulate a d).2.addEach ms).1, ((t.accumulate a d).2.addEach ms).2) :=
  rfl

theorem measurements_addEach (t : StageTimes) (ms : List (Activity × Duration)) :
    (t.addEach ms).1.map Timing.measurement = ms := by
  induction ms generalizing t with
  | nil => rfl
  | cons m ms ih =>
    rw [addEach_cons, List.map_cons, ih]
    rfl

theorem toNanos_get_addEach (t : StageTimes) (ms : List (Activity × Duration)) (a : Activity) :
    ((t.addEach ms).2.get a).toNanos =
      (t.get a).toNanos + spent (taken (t.addEach ms).1) a := by
  induction ms generalizing t with
  | nil => exact (Nat.add_zero _).symm
  | cons m ms ih =>
    obtain ⟨b, d⟩ := m
    rw [addEach_cons]
    rcases t.accumulate_cases b d with ⟨sum, hsum, h⟩ | ⟨-, h⟩
    · rw [h, taken_ok, spent_cons, ih, toNanos_get_insert hsum, Nat.add_assoc]
    · rw [h, taken_error, ih]

theorem isSome_find?_addEach (t : StageTimes) (ms : List (Activity × Duration)) (a : Activity) :
    ((t.addEach ms).2.find? a).isSome = true ↔
      (t.find? a).isSome = true ∨ ∃ d, (a, d) ∈ taken (t.addEach ms).1 := by
  induction ms generalizing t with
  | nil => simp [addEach, taken]
  | cons m ms ih =>
    obtain ⟨b, d⟩ := m
    rw [addEach_cons]
    rcases t.accumulate_cases b d with ⟨sum, -, h⟩ | ⟨-, h⟩
    · rw [h, taken_ok, ih, find?_insert]
      by_cases hab : a = b
      · simp [hab]
      · simp [hab]
    · rw [h, taken_error, ih]

/-- Measurements go through, all of them, while there is room for each activity's sum. -/
theorem smooth_addEach (h : ∀ a, (t.get a).toNanos + spent ms a ≤ longest.toNanos) :
    Smooth (t.addEach ms).1 := by
  induction ms generalizing t with
  | nil => exact List.forall_mem_nil _
  | cons m ms ih =>
    obtain ⟨b, d⟩ := m
    rw [addEach_cons]
    rcases t.accumulate_cases b d with ⟨sum, hsum, hadd⟩ | ⟨hlong, -⟩
    · rw [hadd]
      refine List.forall_mem_cons.2 ⟨rfl, ih fun a ↦ ?_⟩
      have ha := h a
      rwa [spent_cons, ← Nat.add_assoc, ← toNanos_get_insert hsum] at ha
    · have hb := h b
      rw [spent_cons, if_pos rfl] at hb
      omega

/-- A measurement in a sequence is told of an overflow just where the sum of those taken before it has no
room for it. -/
theorem answer_addEach {before after : List Timing} {c : Timing}
    (h : (t.addEach ms).1 = before ++ c :: after) :
    c.answer = .error .adding ↔ longest.toNanos <
      (t.get c.activity).toNanos + spent (taken before) c.activity + c.duration.toNanos := by
  induction ms generalizing t before with
  | nil => simp [addEach] at h
  | cons m ms ih =>
    obtain ⟨b, d⟩ := m
    rw [addEach_cons] at h
    dsimp only at h
    cases before with
    | nil =>
      obtain ⟨rfl, -⟩ := List.cons.inj h
      exact (t.answer_accumulate b d).trans (by simp [taken, spent])
    | cons x before =>
      obtain ⟨rfl, hrest⟩ := List.cons.inj h
      rw [ih hrest]
      rcases t.accumulate_cases b d with ⟨sum, hsum, hadd⟩ | ⟨-, hadd⟩
      · rw [hadd, taken_ok, spent_cons, toNanos_get_insert hsum,
          Nat.add_assoc (t.get c.activity).toNanos]
      · rw [hadd, taken_error]

theorem foldr_present (t : StageTimes) (order : List Activity) :
    ((t.present order).map (·.2)).foldr (fun d n ↦ d.toNanos + n) 0 =
      (order.map fun a ↦ (t.get a).toNanos).sum := by
  induction order with
  | nil => rfl
  | cons a order ih =>
    rw [List.map_cons, List.sum_cons, ← ih, get]
    cases h : t.find? a with
    | some x => simp [present, h]
    | none =>
      have hskip : t.present (a :: order) = t.present order := by simp [present, h]
      have hzero : Duration.zero.toNanos = 0 := rfl
      rw [hskip, Option.getD_none, hzero, Nat.zero_add]

theorem totalIn_cases (h : ∀ a, (t.get a).toNanos = spent ms a) (horder : order.Perm Activity.all) :
    (∃ sum, sum.toNanos = spentInAll ms ∧ t.totalIn order = .ok sum) ∨
      longest.toNanos < spentInAll ms ∧ t.totalIn order = .error .totalling := by
  have hsum : (order.map fun a ↦ (t.get a).toNanos).sum = spentInAll ms := by
    rw [← sum_spent, (horder.map _).sum_eq]
    exact congrArg List.sum (List.map_congr_left fun a _ ↦ h a)
  rw [totalIn, Duration.sum?_eq, foldr_present, hsum]
  cases hn : Duration.ofNanos? (spentInAll ms) with
  | some sum => exact .inl ⟨sum, Duration.ofNanos?_eq_some.1 hn, rfl⟩
  | none => exact .inr ⟨Duration.ofNanos?_eq_none.1 hn, rfl⟩

theorem hasAll_iff (t : StageTimes) (as : List Activity) :
    t.hasAll as = true ↔ ∀ a ∈ as, 0 < (t.get a).toNanos := by
  simp [hasAll, Duration.isPositive]

/-- The times `t` are those of the measurements `ms`, to the nanosecond. -/
structure Exact (ms : List (Activity × Duration)) (t : StageTimes) : Prop where
  get : ∀ a, (t.get a).toNanos = spent ms a
  present : ∀ a, (t.find? a).isSome = true ↔ ∃ d, (a, d) ∈ ms
  breaks_off : ∀ a d, t.add a d = .error .adding ↔ longest.toNanos < spent ms a + d.toNanos
  /-- A measurement that breaks off leaves every time, and which activities have one, as it was. -/
  unchanged : ∀ a d, t.add a d = .error .adding → t.accumulate a d = (.error .adding, t)
  goes_through : ∀ a d u, t.add a d = .ok u ↔ t.accumulate a d = (.ok (), u)
  total : ∀ order : List Activity, order.Perm Activity.all →
    ∀ sum, t.totalIn order = .ok sum ↔ sum.toNanos = spentInAll ms
  total_breaks_off : ∀ order : List Activity, order.Perm Activity.all →
    (t.totalIn order = .error .totalling ↔ longest.toNanos < spentInAll ms)
  hasAll : ∀ as, t.hasAll as = true ↔ ∀ a ∈ as, 0 < spent ms a

theorem exact_of (hget : ∀ a, (t.get a).toNanos = spent ms a)
    (hpresent : ∀ a, (t.find? a).isSome = true ↔ ∃ d, (a, d) ∈ ms) : Exact ms t where
  get := hget
  present := hpresent
  breaks_off a d := by rw [add_eq_error, answer_accumulate, hget]
  unchanged a d h := accumulate_of_error (add_eq_error.1 h)
  goes_through a d u := add_eq_ok
  total order horder sum := by
    rcases totalIn_cases hget horder with ⟨sum', hsum, h⟩ | ⟨hlong, h⟩
    · rw [h, Except.ok.injEq, ← hsum]
      exact ⟨fun heq ↦ heq ▸ rfl, fun heq ↦ (Duration.toNanos_inj heq).symm⟩
    · have hle := sum.toNanos_le_longest
      simp only [h, reduceCtorEq, false_iff]
      omega
  total_breaks_off order horder := by
    rcases totalIn_cases hget horder with ⟨sum, hsum, h⟩ | ⟨hlong, h⟩
    · have hle := sum.toNanos_le_longest
      simp only [h, reduceCtorEq, false_iff]
      omega
    · simp only [h, hlong]
  hasAll as := by
    rw [hasAll_iff]
    simp only [hget]

theorem exact_addEach (ms : List (Activity × Duration)) :
    Exact (taken (empty.addEach ms).1) (empty.addEach ms).2 := by
  refine exact_of (fun a ↦ ?_) fun a ↦ ?_
  · rw [toNanos_get_addEach, toNanos_get_empty, Nat.zero_add]
  · have hempty : (empty.find? a).isSome = false := by cases a <;> rfl
    rw [isSome_find?_addEach, hempty]
    simp

theorem taken_of_smooth (h : Smooth (t.addEach ms).1) : taken (t.addEach ms).1 = ms := by
  have hall : ∀ c ∈ (t.addEach ms).1, c.answer.isOk = true := fun c hc ↦ by rw [h c hc]; rfl
  rw [taken, List.filter_eq_self.2 hall, measurements_addEach]

theorem smooth_iff : Smooth (empty.addEach ms).1 ↔ ∀ a, spent ms a ≤ longest.toNanos := by
  refine ⟨fun h a ↦ ?_, fun h ↦ smooth_addEach fun a ↦ ?_⟩
  · have hget := (exact_addEach ms).get a
    rw [taken_of_smooth h] at hget
    exact hget ▸ Duration.toNanos_le_longest _
  · rw [toNanos_get_empty, Nat.zero_add]
    exact h a

theorem smooth_perm (h : ms.Perm ms') (hs : Smooth (empty.addEach ms).1) :
    Smooth (empty.addEach ms').1 := by
  rw [smooth_iff] at hs ⊢
  exact fun a ↦ spent_perm h a ▸ hs a

theorem addEach_perm (h : ms.Perm ms') (hs : Smooth (empty.addEach ms).1) :
    (empty.addEach ms').2 = (empty.addEach ms).2 := by
  have he := exact_addEach ms
  have he' := exact_addEach ms'
  rw [taken_of_smooth hs] at he
  rw [taken_of_smooth (smooth_perm h hs)] at he'
  refine ext_get (fun a ↦ ?_) fun a ↦ Duration.toNanos_inj ?_
  · rw [he.present, he'.present]
    exact exists_congr fun d ↦ h.symm.mem_iff
  · rw [he.get, he'.get, spent_perm h]

end StageTimes

namespace SharedRecorder

variable {s : SharedRecorder} {log : List Incident}

def Incident.measurement? : Incident → Option (Activity × Duration)
  | .timed a d => some (a, d)
  | _ => none

/-- The measurements made, by whomever, gone through or not. -/
def measurements (log : List Incident) : List (Activity × Duration) :=
  log.filterMap Incident.measurement?

theorem stageTimes_foldl_act (log : List Incident) (r : Recorder) :
    (log.foldl Incident.act r).stageTimes = (r.stageTimes.addEach (measurements log)).2 := by
  induction log generalizing r with
  | nil => rfl
  | cons x log ih =>
    rw [List.foldl_cons, ih]
    cases x with
    | timed a d =>
      have htimed : (Incident.act r (.timed a d)).stageTimes = (r.stageTimes.accumulate a d).2 :=
        r.stageTimes_addTime a d
      rw [htimed]
      rfl
    | _ => rfl

/-- Additions to the counters leave the times alone, those under way too. -/
theorem Kept.stageTimes (hk : s.Kept log) :
    s.recorder.stageTimes = (StageTimes.empty.addEach (measurements log)).2 := by
  have hreplay := stageTimes_foldl_act log .empty
  cases hfree : s.holder with
  | none =>
    rw [hk.free hfree]
    exact hreplay
  | some i =>
    obtain ⟨u, made, rest, hi⟩ := (hk.held i).1 hfree
    obtain ⟨-, hr⟩ := hk.adding i u made rest hi
    rw [hr]
    exact hreplay

/-- A recorder whose time for reading is full, with a measurement that has no room and one of another
activity behind it. -/
def overfull : List Incident × SharedRecorder :=
  (Trace.follow step empty [.time .read longest, .time .read ⟨0, 1, by decide⟩, .look .zero,
    .time .write ⟨0, 1, by decide⟩]).get rfl

end SharedRecorder

open StageTimes (empty)
open Timing (taken Smooth)

/-- Whatever measurements are made one after another, the times are exact sums of those that have gone
through, which are all of them if there is room for all, in any order; and a recorder that is shared
has the times of the measurements made so far. -/
theorem stage_times_exact :
    (∀ ms : List (Activity × Duration),
      StageTimes.Exact (taken (empty.addEach ms).1) (empty.addEach ms).2 ∧
      (∀ before after c, (empty.addEach ms).1 = before ++ c :: after →
        (c.answer = .error .adding ↔
          longest.toNanos < spent (taken before) c.activity + c.duration.toNanos)) ∧
      (Smooth (empty.addEach ms).1 ↔ ∀ a, spent ms a ≤ longest.toNanos) ∧
      (Smooth (empty.addEach ms).1 → taken (empty.addEach ms).1 = ms)) ∧
    (∀ ms ms' : List (Activity × Duration), ms.Perm ms' → Smooth (empty.addEach ms).1 →
      Smooth (empty.addEach ms').1 ∧ (empty.addEach ms').2 = (empty.addEach ms).2) ∧
    ∀ (log : List SharedRecorder.Incident) (s : SharedRecorder),
      SharedRecorder.Run .empty log s →
      s.recorder.stageTimes = (empty.addEach (SharedRecorder.measurements log)).2 ∧
      (∀ a d, (s.recorder.addTime a d).1 = (s.recorder.stageTimes.accumulate a d).1) ∧
      ∀ before after x, log = before ++ .shown x :: after →
        x.stageTimes = (empty.addEach (SharedRecorder.measurements before)).2 := by
  refine ⟨fun ms ↦ ⟨StageTimes.exact_addEach ms, fun before after c hlog ↦ ?_,
    StageTimes.smooth_iff, StageTimes.taken_of_smooth⟩, fun ms ms' hp hs ↦
    ⟨StageTimes.smooth_perm hp hs, StageTimes.addEach_perm hp hs⟩, fun log s hrun ↦ ?_⟩
  · rw [StageTimes.answer_addEach hlog, StageTimes.toNanos_get_empty, Nat.zero_add]
  · have hk := hrun.kept SharedRecorder.kept_empty
    refine ⟨hk.stageTimes, fun a d ↦ s.recorder.answer_addTime a d, fun before after x hx ↦ ?_⟩
    obtain ⟨-, elapsed, rfl⟩ := hk.shown before after x hx
    exact SharedRecorder.stageTimes_foldl_act before .empty

theorem stage_times_exact_overfull :
    SharedRecorder.Run .empty SharedRecorder.overfull.1 SharedRecorder.overfull.2 ∧
      SharedRecorder.measurements SharedRecorder.overfull.1 = [(.read, longest),
        (.read, ⟨0, 1, by decide⟩), (.write, ⟨0, 1, by decide⟩)] ∧
      SharedRecorder.overfull.2.recorder.stageTimes.get .read = longest ∧
      [Activity.write, .compress, .read, .decompress].Perm Activity.all ∧
      SharedRecorder.overfull.2.recorder.stageTimes.totalIn [.write, .compress, .read, .decompress] =
        .error .totalling ∧
      SharedRecorder.overfull.2.recorder.stageTimes.hasAll [.read, .write] = true ∧
      Smooth (empty.addEach [(.read, longest), (.write, .zero)]).1 ∧
      (empty.addEach [(.write, .zero), (.read, longest)]).2 =
        (empty.addEach [(.read, longest), (.write, .zero)]).2 := by
  have hrun : SharedRecorder.Run .empty SharedRecorder.overfull.1 SharedRecorder.overfull.2 :=
    .of_isSome _
  have hms : SharedRecorder.measurements SharedRecorder.overfull.1 = [(.read, longest),
      (.read, ⟨0, 1, by decide⟩), (.write, ⟨0, 1, by decide⟩)] := rfl
  have hperm : [Activity.write, .compress, .read, .decompress].Perm Activity.all := by decide
  have hswap : [(Activity.read, longest), (.write, .zero)].Perm
      [(.write, .zero), (.read, longest)] := .swap ..
  obtain ⟨hexact, hany, hshared⟩ := stage_times_exact
  obtain ⟨htimes, -, -⟩ := hshared _ _ hrun
  obtain ⟨he, -, -, -⟩ := hexact (SharedRecorder.measurements SharedRecorder.overfull.1)
  obtain ⟨-, -, hsmooth, -⟩ := hexact [(.read, longest), (.write, .zero)]
  have hs : Smooth (empty.addEach [(.read, longest), (.write, .zero)]).1 :=
    hsmooth.2 fun a ↦ by cases a <;> decide
  rw [← htimes] at he
  refine ⟨hrun, hms, ?_, hperm, ?_, ?_, hs, (hany _ _ hswap hs).2⟩
  · exact Duration.toNanos_inj ((he.get .read).trans (by decide))
  · exact (he.total_breaks_off _ hperm).2 (by decide)
  · exact (he.hasAll _).2 (by decide)

end QueuedFiles.Telemetry
