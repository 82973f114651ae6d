import Mathlib.Algebra.BigOperators.Group.List.Basic
import Mathlib.Algebra.GroupWithZero.Nat
import QueuedFiles.Telemetry.Counters

/-!
Counters as sums. Each of the ten fields is the sum of what the additions stand for in it, modulo the
size of a word; so neither the order of the additions nor the counters they went through matter.
-/

namespace QueuedFiles.Telemetry

inductive Column where
  | readsCompleted
  | writesCompleted
  | compressions
  | decompressions
  | failures
  | abandoned
  | bytesRead
  | bytesWritten
  | bytesPlain
  | bytesCompressed
deriving DecidableEq

namespace Column

def value (c : Counters) : Column → UInt64
  | readsCompleted => c.readsCompleted
  | writesCompleted => c.writesCompleted
  | compressions => c.compressions
  | decompressions => c.decompressions
  | failures => c.failures
  | abandoned => c.abandoned
  | bytesRead => c.bytesRead
  | bytesWritten => c.bytesWritten
  | bytesPlain => c.bytesPlain
  | bytesCompressed => c.bytesCompressed

/-- What an addition stands for in a column. -/
def weight : Addition → Column → Nat
  | .read _, readsCompleted | .write _, writesCompleted | .compress _ _, compressions
  | .decompress _ _, decompressions | .failure, failures | .abandoned, abandoned => 1
  | .read n, bytesRead | .write n, bytesWritten | .compress n _, bytesPlain
  | .decompress _ n, bytesPlain | .compress _ n, bytesCompressed
  | .decompress n _, bytesCompressed => n.toNat
  | _, _ => 0

def sum (as : List Addition) (col : Column) : Nat := (as.map (weight · col)).sum

/-- What several counters hold in a column between them. -/
def held (cs : List Counters) (col : Column) : Nat := (cs.map fun c ↦ (col.value c).toNat).sum

variable {as bs : List Addition} {cs ds : List Counters} {c d : Counters}

theorem ext (h : ∀ col, value c col = value d col) : c = d := by
  cases c
  cases d
  simp only [Counters.mk.injEq]
  exact ⟨h readsCompleted, h writesCompleted, h compressions, h decompressions, h failures,
    h abandoned, h bytesRead, h bytesWritten, h bytesPlain, h bytesCompressed⟩

theorem value_zero (col : Column) : value .zero col = 0 := by
  cases col with
  | _ => rfl

theorem value_add (c : Counters) (a : Addition) (col : Column) :
    value (c.add a) col = value c col + UInt64.ofNat (weight a col) := by
  have hzero : ∀ n : UInt64, n = n + UInt64.ofNat 0 := fun n ↦ (UInt64.add_zero n).symm
  have hword : ∀ n m : UInt64, n + m = n + UInt64.ofNat m.toNat :=
    fun n m ↦ by rw [UInt64.ofNat_toNat]
  cases a <;> cases col
  all_goals
    dsimp only [value, weight, Counters.add]
    first
    | exact hzero _
    | exact hword _ _

theorem value_merge (c d : Counters) (col : Column) :
    value (c + d) col = value c col + value d col := by
  cases col with
  | _ => rfl

theorem sum_cons (a : Addition) (as : List Addition) (col : Column) :
    sum (a :: as) col = weight a col + sum as col := by
  simp [sum]

theorem sum_append (as bs : List Addition) (col : Column) :
    sum (as ++ bs) col = sum as col + sum bs col := by
  simp [sum]

theorem sum_perm (h : as.Perm bs) (col : Column) : sum as col = sum bs col :=
  (h.map _).sum_eq

theorem value_addAll (c : Counters) (as : List Addition) (col : Column) :
    value (c.addAll as) col = value c col + UInt64.ofNat (sum as col) := by
  induction as generalizing c with
  | nil => simp [Counters.addAll, sum]
  | cons a as ih =>
    have h := ih (c.add a)
    rw [value_add] at h
    rw [sum_cons, UInt64.ofNat_add, ← UInt64.add_assoc]
    exact h

theorem toNat_value_addAll (as : List Addition) (col : Column) :
    (value (Counters.zero.addAll as) col).toNat = sum as col % UInt64.size := by
  rw [value_addAll, value_zero, UInt64.zero_add, UInt64.toNat_ofNat']

end Column

theorem Counters.addAll_perm (c : Counters) {as bs : List Addition} (h : as.Perm bs) :
    c.addAll as = c.addAll bs := by
  refine Column.ext fun col ↦ ?_
  rw [Column.value_addAll, Column.value_addAll, Column.sum_perm h]

/-- The counters `cs` have been made from nothing by the additions `as`, each to one of them, and by
taking one of them into another. -/
inductive Split : List Addition → List Counters → Prop
  | none : Split [] []
  | zero {as : List Addition} {cs : List Counters} : Split as cs → Split as (.zero :: cs)
  | add {as : List Addition} {cs : List Counters} {c : Counters} (a : Addition) :
      Split as (c :: cs) → Split (as ++ [a]) (c.add a :: cs)
  | merge {as : List Addition} {cs : List Counters} {c d : Counters} :
      Split as (c :: d :: cs) → Split as ((c + d) :: cs)
  | perm {as : List Addition} {cs ds : List Counters} :
      Split as cs → cs.Perm ds → Split as ds

namespace Split

variable {as bs : List Addition} {cs ds : List Counters} {c d : Counters}

theorem held_eq (h : Split as cs) (col : Column) :
    col.held cs % UInt64.size = col.sum as % UInt64.size := by
  induction h with
  | none => rfl
  | zero _ ih => simpa [Column.held, Column.value_zero] using ih
  | @add as cs c a _ ih =>
    have hadd : (col.value (c.add a)).toNat =
        ((col.value c).toNat + Column.weight a col) % UInt64.size := by
      rw [Column.value_add, UInt64.toNat_add, UInt64.toNat_ofNat']
      simp [UInt64.size]
    simp only [Column.held, List.map_cons, List.sum_cons] at ih ⊢
    rw [hadd, Column.sum_append, Nat.mod_add_mod, Nat.add_right_comm, Nat.add_mod, ih,
      ← Nat.add_mod]
    simp [Column.sum]
  | @merge as cs c d _ ih =>
    simp only [Column.held, List.map_cons, List.sum_cons] at ih ⊢
    rw [Column.value_merge, UInt64.toNat_add, ← ih, ← Nat.add_assoc]
    exact Nat.mod_add_mod ..
  | perm _ hp ih =>
    rw [← ih, Column.held, Column.held, (hp.map _).sum_eq]

theorem addAll (h : Split as (c :: cs)) (bs : List Addition) :
    Split (as ++ bs) (c.addAll bs :: cs) := by
  induction bs generalizing as c with
  | nil => simpa [Counters.addAll] using h
  | cons b bs ih =>
    have hb := ih (h.add b)
    rwa [List.append_assoc] at hb

/-- One counter for each part, with the additions of that part. -/
theorem of_parts (parts : List (List Addition)) :
    ∃ as, as.Perm parts.flatten ∧ Split as (parts.map Counters.zero.addAll) := by
  induction parts with
  | nil => exact ⟨[], .rfl, .none⟩
  | cons part parts ih =>
    obtain ⟨as, hp, h⟩ := ih
    refine ⟨as ++ part, ?_, h.zero.addAll part⟩
    exact List.perm_append_comm.trans (hp.append_left part)

/-- However the additions are spread over counters and the counters merged. -/
theorem total (h : Split as [c]) (hp : as.Perm bs) : c = Counters.zero.addAll bs := by
  refine Column.ext fun col ↦ UInt64.toNat_inj.1 ?_
  have hc := h.held_eq col
  simp only [Column.held, List.map_cons, List.map_nil, List.sum_singleton] at hc
  rw [Nat.mod_eq_of_lt (UInt64.toNat_lt_size _)] at hc
  rw [hc, Column.sum_perm hp, Column.toNat_value_addAll]

end Split

end QueuedFiles.Telemetry
