import QueuedFiles.Request

/-!
Heaps only go on: numbers are handed out once, so a buffer that has been given up stays given up.
-/

namespace QueuedFiles

namespace Heap

def numbers (h : Heap) : List Nat := h.live.map (·.1)

/-- The first half of `register`: a number is taken. -/
def draw (h : Heap) : Heap := { h with nextId := h.nextId + 1 }

/-- The second half of `register`: what has the number is counted. -/
def book (h : Heap) (id length : Nat) : Heap := { h with live := (id, length) :: h.live }

/-- No number that was handed out before comes back. -/
structure Onward (h k : Heap) : Prop where
  next : h.nextId ≤ k.nextId
  numbers : ∀ id, id < h.nextId → id ∉ h.numbers → id ∉ k.numbers

variable (h : Heap) {k l : Heap}

theorem Onward.refl : h.Onward h := ⟨Nat.le_refl _, fun _ _ hn ↦ hn⟩

theorem Onward.trans {h : Heap} (hk : h.Onward k) (hl : k.Onward l) : h.Onward l where
  next := Nat.le_trans hk.next hl.next
  numbers id hid hn := hl.numbers id (Nat.lt_of_lt_of_le hid hk.next) (hk.numbers id hid hn)

theorem onward_draw : h.Onward h.draw := ⟨Nat.le_succ _, fun _ _ hn ↦ hn⟩

theorem onward_register (n : Nat) : h.Onward (h.register n) where
  next := Nat.le_succ _
  numbers id hid hn := by
    simp only [Heap.numbers, register, List.map_cons, List.mem_cons, not_or]
    exact ⟨Nat.ne_of_lt hid, hn⟩

theorem numbers_resize (id n : Nat) : (h.resize id n).numbers = h.numbers := by
  simp only [numbers, resize, List.map_map]
  refine List.map_congr_left fun e _ ↦ ?_
  simp only [Function.comp_apply]
  split
  · next he => exact he.symm
  · rfl

theorem onward_resize (id n : Nat) : h.Onward (h.resize id n) where
  next := Nat.le_refl _
  numbers k _ hn := by rwa [numbers_resize]

theorem not_mem_release (id : Nat) : id ∉ (h.release id).numbers := by
  simp [numbers, release]

theorem onward_release (id : Nat) : h.Onward (h.release id) where
  next := Nat.le_refl _
  numbers k _ hn hk := by
    obtain ⟨e, he, rfl⟩ := List.mem_map.1 hk
    exact hn (List.mem_map_of_mem (List.mem_filter.1 he).1)

end Heap

namespace Heaps

structure Onward (hs ks : Heaps) : Prop where
  length : hs.heaps.length ≤ ks.heaps.length
  heap : ∀ h, (hs.get h).Onward (ks.get h)

/-- The buffer has got its number from a heap that is there. -/
structure Issued (hs : Heaps) (b : Buffer) : Prop where
  has : hs.has b.heap = true
  next : b.id < (hs.get b.heap).nextId

def IsLive (hs : Heaps) (b : Buffer) : Prop := b.id ∈ (hs.get b.heap).numbers

/-- The buffer has been given up. -/
structure Dead (hs : Heaps) (b : Buffer) : Prop where
  issued : hs.Issued b
  not_live : ¬ hs.IsLive b

variable (hs : Heaps) {ks ls : Heaps} {b : Buffer}

theorem Onward.refl : hs.Onward hs := ⟨Nat.le_refl _, fun _ ↦ .refl _⟩

theorem Onward.trans {hs : Heaps} (hk : hs.Onward ks) (hl : ks.Onward ls) : hs.Onward ls where
  length := Nat.le_trans hk.length hl.length
  heap h := (hk.heap h).trans (hl.heap h)

theorem Onward.has {hs : Heaps} (h : hs.Onward ks) {k : HeapId} (hk : hs.has k = true) :
    ks.has k = true :=
  decide_eq_true (Nat.lt_of_lt_of_le (of_decide_eq_true hk) h.length)

theorem Issued.onward {hs : Heaps} (h : hs.Issued b) (hk : hs.Onward ks) : ks.Issued b where
  has := hk.has h.has
  next := Nat.lt_of_lt_of_le h.next (hk.heap _).next

theorem Dead.onward {hs : Heaps} (h : hs.Dead b) (hk : hs.Onward ks) : ks.Dead b where
  issued := h.issued.onward hk
  not_live := (hk.heap _).numbers _ h.issued.next h.not_live

theorem get_update (h k : HeapId) (f : Heap → Heap) :
    (hs.update h f).get k = if k = h ∧ hs.has h then f (hs.get h) else hs.get k := by
  simp only [get, update, has, List.getD_eq_getElem?_getD, List.getElem?_modify]
  by_cases hk : k = h
  · subst hk
    by_cases hl : k < hs.heaps.length <;> simp [hl]
  · simp [hk, Ne.symm hk]

theorem nextId_update {f : Heap → Heap} (hf : ∀ x : Heap, (f x).nextId = x.nextId) (h k : HeapId) :
    ((hs.update h f).get k).nextId = (hs.get k).nextId := by
  rw [get_update]
  split
  · next hk => rw [hf, hk.1]
  · rfl

/-- Two halves of a registration that nothing comes between. -/
theorem update_register (h : HeapId) (n : Nat) :
    hs.update h (·.register n) = (hs.update h .draw).update h (·.book (hs.get h).nextId n) := by
  simp only [update, Heaps.mk.injEq]
  apply List.ext_getElem?
  intro k
  by_cases hk : h = k
  · subst hk
    cases hh : hs.heaps[h]? with
    | none => simp [hh]
    | some x => simp [hh, get, Heap.draw, Heap.book, Heap.register]
  · simp [hk]

theorem onward_update (h : HeapId) {f : Heap → Heap} (hf : ∀ x : Heap, x.Onward (f x)) :
    hs.Onward (hs.update h f) where
  length := by simp [update]
  heap k := by
    rw [get_update]
    split
    · next hk => exact hk.1 ▸ hf _
    · exact .refl _

theorem onward_create (name : String) : hs.Onward (hs.create name).2 where
  length := by simp [create]
  heap k := by
    by_cases hk : k < hs.heaps.length
    · have : (hs.create name).2.get k = hs.get k := by simp [get, create, List.getElem?_append, hk]
      rw [this]
      exact .refl _
    · have hn : hs.get k = .create "" := by simp [get, hk]
      rw [hn]
      exact ⟨Nat.zero_le _, fun id hid ↦ absurd hid (Nat.not_lt_zero _)⟩

theorem onward_adopt (h : HeapId) (bytes : Bytes) : hs.Onward (hs.adopt h bytes).2 :=
  hs.onward_update h fun x ↦ x.onward_register _

theorem onward_reserve (h : HeapId) (n : Nat) : hs.Onward (hs.reserve h n).2 :=
  hs.onward_update h fun x ↦ x.onward_register _

theorem onward_fill (r : Reservation) (bytes : Bytes) : hs.Onward (hs.fill r bytes).2 :=
  hs.onward_update _ fun x ↦ x.onward_resize _ _

theorem onward_cancel (r : Reservation) : hs.Onward (hs.cancel r) :=
  hs.onward_update _ fun x ↦ x.onward_release _

theorem onward_release (b : Buffer) : hs.Onward (hs.release b) :=
  hs.onward_update _ fun x ↦ x.onward_release _

theorem onward_releaseOption (b : Option Buffer) : hs.Onward (hs.releaseOption b) := by
  cases b with
  | none => exact .refl hs
  | some b => exact hs.onward_release b

theorem onward_discardAll (rs : List Request) : hs.Onward (hs.discardAll rs) := by
  induction rs generalizing hs with
  | nil => exact .refl hs
  | cons r rs ih => exact (hs.onward_releaseOption r.buffer).trans (ih _)

theorem issued_adopt {h : HeapId} (hh : hs.has h = true) (bytes : Bytes) :
    (hs.adopt h bytes).2.Issued (hs.adopt h bytes).1 where
  has := (hs.onward_adopt h bytes).has hh
  next := by simp [adopt, get_update, hh, Heap.register]

theorem dead_release {hs : Heaps} (h : hs.Issued b) : (hs.release b).Dead b where
  issued := h.onward (hs.onward_release b)
  not_live := by
    simp only [IsLive, release, get_update, h.has, and_self, if_true]
    exact Heap.not_mem_release _ _

theorem dead_discardAll {hs : Heaps} {rs : List Request} {r : Request} (h : hs.Issued b)
    (hr : r ∈ rs) (hb : r.buffer = some b) : (hs.discardAll rs).Dead b := by
  induction rs generalizing hs with
  | nil => cases hr
  | cons q rs ih =>
    rcases List.mem_cons.1 hr with rfl | hr
    · have hd : (hs.releaseOption r.buffer).Dead b := by
        rw [hb]
        exact dead_release h
      exact hd.onward (onward_discardAll _ rs)
    · exact ih (h.onward (hs.onward_releaseOption q.buffer)) hr

end Heaps

end QueuedFiles
