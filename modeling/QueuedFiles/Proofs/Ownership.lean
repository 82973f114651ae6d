import QueuedFiles.Proofs.Heap
import Mathlib.Algebra.GroupWithZero.Nat
import Mathlib.Data.List.Nodup

/-!
What the heaps count, as a list of holdings: one entry for each buffer, and one for each room that is
reserved. Every operation on heaps puts a holding into the list, takes one out of it, or changes the
length of one, so that the owners of the holdings can be looked for elsewhere.
-/

namespace QueuedFiles

section

variable {α κ : Type} [DecidableEq κ] (key : α → κ) {l : List α} {a : α}

theorem perm_cons_filter_key (hn : (l.map key).Nodup) (ha : a ∈ l) :
    l.Perm (a :: l.filter fun b ↦ key b ≠ key a) := by
  obtain ⟨before, after, rfl⟩ := List.append_of_mem ha
  rw [List.map_append, List.map_cons, List.nodup_middle, List.nodup_cons] at hn
  have hother : ∀ m : List α, (∀ b ∈ m, b ∈ before ++ after) →
      m.filter (fun b ↦ key b ≠ key a) = m := by
    intro m hm
    rw [List.filter_eq_self]
    intro b hb
    have hne : key b ≠ key a := by
      intro he
      refine hn.1 (he ▸ ?_)
      rw [← List.map_append]
      exact List.mem_map_of_mem (hm b hb)
    simpa using hne
  rw [List.filter_append, List.filter_cons_of_neg (by simp),
    hother before fun b hb ↦ List.mem_append_left _ hb,
    hother after fun b hb ↦ List.mem_append_right _ hb]
  exact List.perm_middle

theorem map_of_key_ne {f : α → α} {k : κ} (h : ∀ b ∈ l, key b ≠ k) :
    (l.map fun b ↦ if key b = k then f b else b) = l := by
  rw [List.map_congr_left fun b hb ↦ if_neg (h b hb), List.map_id']

theorem map_perm_cons_filter_key (f : α → α) (hn : (l.map key).Nodup) (ha : a ∈ l) :
    (l.map fun b ↦ if key b = key a then f b else b).Perm
      (f a :: l.filter fun b ↦ key b ≠ key a) := by
  refine ((perm_cons_filter_key key hn ha).map _).trans ?_
  rw [List.map_cons, if_pos rfl, map_of_key_ne]
  intro b hb
  simpa using (List.mem_filter.1 hb).2

end

def Buffer.holding (b : Buffer) : Reservation := ⟨b.heap, b.id, b.length⟩

def Request.holdings (r : Request) : List Reservation := (r.buffer.map Buffer.holding).toList

namespace Heaps

/-- The numbers and lengths of the holdings from one heap. -/
def entries (l : List Reservation) (h : HeapId) : List (Nat × Nat) :=
  (l.filter fun x ↦ x.heap = h).map fun x ↦ (x.id, x.length)

/-- The holdings are all that the heaps count, and each is counted once. -/
structure Owns (hs : Heaps) (l : List Reservation) : Prop where
  nodup : ∀ h, (hs.get h).numbers.Nodup
  issued : ∀ h, ∀ id ∈ (hs.get h).numbers, id < (hs.get h).nextId
  live : ∀ h, (hs.get h).live.Perm (entries l h)

theorem entries_cons (x : Reservation) (l : List Reservation) (h : HeapId) :
    entries (x :: l) h = if x.heap = h then (x.id, x.length) :: entries l h else entries l h := by
  by_cases hx : x.heap = h <;> simp [entries, hx]

variable {hs : Heaps} {l m : List Reservation} {x : Reservation}

theorem Owns.perm (ho : hs.Owns l) (hp : l.Perm m) : hs.Owns m where
  nodup := ho.nodup
  issued := ho.issued
  live h := (ho.live h).trans ((hp.filter _).map _)

theorem Owns.numbers_perm (ho : hs.Owns l) (h : HeapId) :
    (hs.get h).numbers.Perm ((entries l h).map (·.1)) :=
  (ho.live h).map _

theorem Owns.has (ho : hs.Owns l) (hx : x ∈ l) : hs.has x.heap = true := by
  by_contra hn
  have hlive := ho.live x.heap
  have hge : hs.heaps.length ≤ x.heap := by simpa [Heaps.has] using hn
  have hget : hs.get x.heap = .create "" := by simp [get, List.getElem?_eq_none hge]
  have hmem : (x.id, x.length) ∈ entries l x.heap :=
    List.mem_map_of_mem (List.mem_filter.2 ⟨hx, by simp⟩)
  rw [hget] at hlive
  exact absurd (hlive.mem_iff.2 hmem) List.not_mem_nil

theorem Owns.fresh_entries (ho : hs.Owns (x :: l)) :
    ∀ e ∈ entries l x.heap, e.1 ≠ x.id := by
  intro e he hid
  have hn := (ho.numbers_perm x.heap).nodup_iff.1 (ho.nodup x.heap)
  rw [entries_cons, if_pos rfl, List.map_cons, List.nodup_cons] at hn
  exact hn.1 (List.mem_map.2 ⟨e, he, hid⟩)

theorem owns_nil (h : ∀ k, (hs.get k).live = []) : hs.Owns [] where
  nodup k := by simp [Heap.numbers, h k]
  issued k id hid := by simp [Heap.numbers, h k] at hid
  live k := by simp [entries, h k]

/-- A new heap has nothing out, as a heap that is not there. -/
theorem books_create (hs : Heaps) (name : String) (h : HeapId) :
    ((hs.create name).2.get h).live = (hs.get h).live ∧
      ((hs.create name).2.get h).nextId = (hs.get h).nextId := by
  simp only [get, Heaps.create, List.getD_eq_getElem?_getD, List.getElem?_append]
  rcases Nat.lt_trichotomy h hs.heaps.length with hlt | rfl | hgt
  · simp [hlt]
  · simp [Heap.create]
  · have hnone : [Heap.create name][h - hs.heaps.length]? = none :=
      List.getElem?_eq_none (by simp; omega)
    simp [Nat.not_lt.2 (Nat.le_of_lt hgt), hnone]

theorem Owns.create (ho : hs.Owns l) (name : String) : (hs.create name).2.Owns l := by
  refine ⟨?_, ?_, ?_⟩ <;> intro h <;> simp only [Heap.numbers, hs.books_create name h]
  · exact ho.nodup h
  · exact ho.issued h
  · exact ho.live h

theorem Owns.draw (ho : hs.Owns l) (h : HeapId) : (hs.update h .draw).Owns l := by
  have hlive : ∀ k, ((hs.update h .draw).get k).live = (hs.get k).live := by
    intro k
    rw [get_update]
    split
    · next hk => rw [hk.1, Heap.draw]
    · rfl
  refine ⟨?_, ?_, ?_⟩ <;> intro k
  · rw [Heap.numbers, hlive]
    exact ho.nodup k
  · intro id hid
    rw [Heap.numbers, hlive] at hid
    exact Nat.lt_of_lt_of_le (ho.issued k id hid)
      ((hs.onward_update h fun x ↦ x.onward_draw).heap k).next
  · rw [hlive]
    exact ho.live k

theorem Owns.book (ho : hs.Owns l) (hh : hs.has x.heap = true)
    (hid : x.id < (hs.get x.heap).nextId) (hn : x.id ∉ (hs.get x.heap).numbers) :
    (hs.update x.heap (·.book x.id x.length)).Owns (x :: l) := by
  refine ⟨?_, ?_, ?_⟩ <;> intro k <;> rw [get_update]
  · split
    · exact List.nodup_cons.2 ⟨hn, ho.nodup x.heap⟩
    · exact ho.nodup k
  · split
    · intro id hm
      rcases List.mem_cons.1 hm with rfl | hm
      · exact hid
      · exact ho.issued x.heap id hm
    · exact ho.issued k
  · rw [entries_cons]
    by_cases hk : k = x.heap
    · subst hk
      rw [if_pos ⟨rfl, hh⟩, if_pos rfl]
      exact (ho.live x.heap).cons _
    · rw [if_neg fun hc ↦ hk hc.1, if_neg (Ne.symm hk)]
      exact ho.live k

theorem Owns.register (ho : hs.Owns l) {h : HeapId} (hh : hs.has h = true) (n : Nat) :
    (hs.update h (·.register n)).Owns (⟨h, (hs.get h).nextId, n⟩ :: l) := by
  have hdraw : (hs.update h .draw).get h = (hs.get h).draw := by rw [get_update, if_pos ⟨rfl, hh⟩]
  rw [hs.update_register]
  refine (ho.draw h).book (x := ⟨h, (hs.get h).nextId, n⟩) ?_ ?_ ?_
  · exact (hs.onward_update h fun x ↦ x.onward_draw).has hh
  · rw [hdraw]
    exact Nat.lt_succ_self _
  · rw [hdraw]
    intro hm
    exact absurd (ho.issued h _ hm) (Nat.lt_irrefl _)

theorem Owns.resize (ho : hs.Owns (x :: l)) (n : Nat) :
    (hs.update x.heap (·.resize x.id n)).Owns (⟨x.heap, x.id, n⟩ :: l) := by
  have hh := ho.has (List.mem_cons_self ..)
  refine ⟨?_, ?_, ?_⟩ <;> intro k <;> rw [get_update]
  · split
    · rw [Heap.numbers_resize]
      exact ho.nodup x.heap
    · exact ho.nodup k
  · split
    · rw [Heap.numbers_resize]
      exact ho.issued x.heap
    · exact ho.issued k
  · by_cases hk : k = x.heap
    · subst hk
      have hlive := ho.live x.heap
      rw [entries_cons, if_pos rfl] at hlive
      rw [if_pos ⟨rfl, hh⟩, entries_cons, if_pos rfl]
      refine (hlive.map _).trans ?_
      rw [List.map_cons, if_pos rfl, map_of_key_ne _ ho.fresh_entries]
    · have hlive := ho.live k
      rw [entries_cons, if_neg (Ne.symm hk)] at hlive
      rwa [if_neg fun hc ↦ hk hc.1, entries_cons, if_neg (Ne.symm hk)]

theorem Owns.drop (ho : hs.Owns (x :: l)) : (hs.update x.heap (·.release x.id)).Owns l := by
  have hh := ho.has (List.mem_cons_self ..)
  have hsub : ∀ k, ((hs.update x.heap (·.release x.id)).get k).numbers.Sublist (hs.get k).numbers := by
    intro k
    rw [get_update]
    split
    · next hk => exact hk.1 ▸ List.filter_sublist.map _
    · exact List.Sublist.refl _
  refine ⟨fun k ↦ (ho.nodup k).sublist (hsub k), ?_, ?_⟩
  · intro k id hid
    have hlt := ho.issued k id ((hsub k).mem hid)
    rw [get_update]
    split
    · next hk => exact hk.1 ▸ hlt
    · exact hlt
  · intro k
    have hlive := ho.live k
    rw [entries_cons] at hlive
    rw [get_update]
    by_cases hk : k = x.heap
    · subst hk
      rw [if_pos rfl] at hlive
      rw [if_pos ⟨rfl, hh⟩]
      refine (hlive.filter _).trans ?_
      rw [List.filter_cons_of_neg (by simp), List.filter_eq_self.2]
      intro e he
      simpa using ho.fresh_entries e he
    · rw [if_neg (Ne.symm hk)] at hlive
      rwa [if_neg fun hc ↦ hk hc.1]

/-- The books of a heap are the number of the holdings from it and the sum of their lengths. -/
theorem Owns.stats (ho : hs.Owns l) (h : HeapId) :
    hs.stats h = ⟨(l.filter fun x ↦ x.heap = h).length,
      ((l.filter fun x ↦ x.heap = h).map (·.length)).sum⟩ := by
  have hlive := ho.live h
  have hbytes : (hs.get h).live.foldr (fun e n ↦ e.2 + n) 0 = ((hs.get h).live.map (·.2)).sum := by
    rw [List.sum_eq_foldr, List.foldr_map]
  rw [Heaps.stats, Heap.stats, hbytes, hlive.length_eq, (hlive.map _).sum_nat,
    entries, List.length_map, List.map_map]
  rfl

theorem count_keys (l : List Reservation) (h : HeapId) (id : Nat) :
    (l.map fun x ↦ (x.heap, x.id)).count (h, id) = ((entries l h).map (·.1)).count id := by
  induction l with
  | nil => rfl
  | cons x l ih =>
    rw [entries_cons, List.map_cons, List.count_cons, ih]
    by_cases hx : x.heap = h
    · simp [hx, List.count_cons]
    · simp [hx]

theorem Owns.nodup_keys (ho : hs.Owns l) : (l.map fun x ↦ (x.heap, x.id)).Nodup := by
  rw [List.nodup_iff_count_le_one]
  rintro ⟨h, id⟩
  rw [count_keys]
  exact List.nodup_iff_count_le_one.1 ((ho.numbers_perm h).nodup_iff.1 (ho.nodup h)) id

theorem Owns.adopt (ho : hs.Owns l) {h : HeapId} (hh : hs.has h = true) (bytes : Bytes) :
    (hs.adopt h bytes).2.Owns ((hs.adopt h bytes).1.holding :: l) :=
  ho.register hh bytes.length

theorem Owns.reserve (ho : hs.Owns l) {h : HeapId} (hh : hs.has h = true) (n : Nat) :
    (hs.reserve h n).2.Owns ((hs.reserve h n).1 :: l) :=
  ho.register hh n

theorem Owns.fill (ho : hs.Owns (x :: l)) (bytes : Bytes) :
    (hs.fill x bytes).2.Owns ((hs.fill x bytes).1.holding :: l) :=
  ho.resize bytes.length

theorem Owns.cancel (ho : hs.Owns (x :: l)) : (hs.cancel x).Owns l :=
  ho.drop

theorem Owns.release {b : Buffer} (ho : hs.Owns (b.holding :: l)) : (hs.release b).Owns l :=
  ho.drop

theorem Owns.releaseOption {b : Option Buffer}
    (ho : hs.Owns ((b.map Buffer.holding).toList ++ l)) : (hs.releaseOption b).Owns l := by
  cases b with
  | none => exact ho
  | some b => exact ho.release

theorem Owns.discardAll {rs : List Request}
    (ho : hs.Owns (rs.flatMap Request.holdings ++ l)) :
    (hs.discardAll rs).Owns l := by
  induction rs generalizing hs with
  | nil => exact ho
  | cons r rs ih =>
    refine ih (Owns.releaseOption (b := r.buffer) ?_)
    rwa [List.flatMap_cons, List.append_assoc] at ho

end Heaps

end QueuedFiles
