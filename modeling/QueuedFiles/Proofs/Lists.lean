import Mathlib.Data.List.Forall2
import Mathlib.Data.List.Pairwise

/-!
Lists cut at one of their elements, as logs are at an event.
-/

namespace QueuedFiles

theorem eq_of_nodup_filterMap {α β : Type} {f : α → Option β} {l : List α}
    (h : (l.filterMap f).Nodup) {x y : α} {b : β} (hx : x ∈ l) (hy : y ∈ l) (hfx : f x = some b)
    (hfy : f y = some b) : x = y := by
  have hp : l.Pairwise fun x y ↦ ∀ b, f x = some b → f y = some b → x = y :=
    (List.pairwise_filterMap.1 h).imp fun hne b hx hy ↦ absurd rfl (hne b hx b hy)
  have hflip : l.Pairwise (flip fun x y ↦ ∀ b, f x = some b → f y = some b → x = y) :=
    hp.imp fun hxy b hx hy ↦ (hxy b hy hx).symm
  exact hp.forall_of_forall_of_flip (fun _ _ _ _ _ ↦ rfl) hflip hx hy b hfx hfy

theorem cut_append {α : Type} {l m before after : List α} {a : α} (hone : a ∈ m → m = [a])
    (h : l ++ m = before ++ a :: after) :
    l = before ∧ after = [] ∧ m = [a] ∨ ∃ rest, l = before ++ a :: rest ∧ after = rest ++ m := by
  rcases List.append_eq_append_iff.1 h with ⟨c, hc, hm⟩ | ⟨c, hc, hm⟩
  · have hsingle := hone (by simp [hm])
    rw [hsingle] at hm
    obtain ⟨rfl, rfl⟩ : c = [] ∧ after = [] := by cases c <;> simp_all
    exact .inl ⟨by simpa using hc.symm, rfl, hsingle⟩
  · cases c with
    | nil =>
      rw [List.nil_append] at hm
      have hsingle := hone (hm ▸ List.mem_cons_self ..)
      rw [hsingle] at hm
      exact .inl ⟨by simpa using hc, by simpa using hm, hsingle⟩
    | cons b c =>
      obtain ⟨rfl, rfl⟩ := List.cons.inj hm
      exact .inr ⟨c, hc, rfl⟩

/-- Of two elements in order, the first is before the cut at the second. -/
theorem cut_of_sublist {α : Type} {l : List α} {a b : α} (h : [a, b].Sublist l) :
    ∃ before after, l = before ++ b :: after ∧ a ∈ before := by
  obtain ⟨front, back, rfl, ha, hb⟩ := List.cons_sublist_iff.1 h
  obtain ⟨between, after, rfl⟩ := List.append_of_mem (List.singleton_sublist.1 hb)
  exact ⟨front ++ between, after, by simp, List.mem_append_left _ ha⟩

theorem sublist_of_getElem? {α : Type} {l : List α} {a b : α} {i j : Nat} (h : i < j)
    (ha : l[i]? = some a) (hb : l[j]? = some b) : [a, b].Sublist l := by
  have hfront : a ∈ l.take j := by
    refine List.mem_of_getElem? (i := i) ?_
    rw [List.getElem?_take_of_lt h, ha]
  have hback : b ∈ l.drop j := by
    refine List.mem_of_getElem? (i := 0) ?_
    rw [List.getElem?_drop, Nat.add_zero, hb]
  have hsplit := (List.singleton_sublist.2 hfront).append (List.singleton_sublist.2 hback)
  rwa [List.take_append_drop] at hsplit

theorem getElem?_snoc {α : Type} {l : List α} {x y : α} {i : Nat} :
    (l ++ [x])[i]? = some y ↔ l[i]? = some y ∨ i = l.length ∧ x = y := by
  rcases Nat.lt_trichotomy i l.length with hi | rfl | hi
  · simp [List.getElem?_append_left hi, Nat.ne_of_lt hi]
  · simp
  · have hle := Nat.le_of_lt hi
    simp [List.getElem?_append_right hle, List.getElem?_eq_none hle, Nat.ne_of_gt hi,
      Nat.sub_ne_zero_of_lt hi]

theorem getElem?_set_of_some {α : Type} {l : List α} {i : Nat} {a : α} (h : l[i]? = some a) (b : α)
    (j : Nat) : (l.set i b)[j]? = if j = i then some b else l[j]? := by
  have hi := (List.getElem?_eq_some_iff.1 h).1
  split
  · next hj => simp [hj, hi]
  · next hj => exact List.getElem?_set_ne (Ne.symm hj)

theorem exists_of_forall₂ {α β : Type} {R : α → β → Prop} {l : List α} {m : List β}
    (h : List.Forall₂ R l m) {b : β} (hb : b ∈ m) : ∃ a ∈ l, R a b := by
  induction h with
  | nil => cases hb
  | cons hab _ ih =>
    rcases List.mem_cons.1 hb with rfl | hb
    · exact ⟨_, List.mem_cons_self .., hab⟩
    · obtain ⟨a, ha, hab⟩ := ih hb
      exact ⟨a, List.mem_cons_of_mem _ ha, hab⟩

/-- The list around an element that is taken out. -/
theorem eraseIdx_cut {α : Type} {l : List α} {i : Nat} {a : α} (h : l[i]? = some a) :
    ∃ before after, l = before ++ a :: after ∧ l.eraseIdx i = before ++ after := by
  obtain ⟨hi, rfl⟩ := List.getElem?_eq_some_iff.1 h
  refine ⟨l.take i, l.drop (i + 1), ?_, List.eraseIdx_eq_take_drop_succ ..⟩
  rw [List.getElem_cons_drop, List.take_append_drop]

end QueuedFiles
