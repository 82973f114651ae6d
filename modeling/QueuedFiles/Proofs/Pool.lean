import QueuedFiles.Proofs.Lists
import QueuedFiles.Proofs.Ownership
import QueuedFiles.Proofs.Trace
import Mathlib.Data.List.Perm.Basic

/-!
Heaps in use by any number of threads, in any order of their moves. An allocation is two moves: a
buffer gets a number, and goes into the books of its heap. Other threads may move between the two,
and may take numbers of the same heap there.
-/

namespace QueuedFiles

namespace Heaps

def number (hs : Heaps) (h : HeapId) (bytes : Bytes) : Buffer × Heaps :=
  (⟨h, (hs.get h).nextId, bytes⟩, hs.update h .draw)

def enlist (hs : Heaps) (b : Buffer) : Heaps := hs.update b.heap (·.book b.id b.length)

theorem enlist_number (hs : Heaps) (h : HeapId) (bytes : Bytes) :
    (hs.number h bytes).2.enlist (hs.number h bytes).1 = (hs.adopt h bytes).2 :=
  (hs.update_register h bytes.length).symm

theorem update_same {hs : Heaps} {h : HeapId} {f : Heap → Heap} (hf : f (hs.get h) = hs.get h) :
    hs.update h f = hs := by
  rw [update]
  congr 1
  apply List.ext_getElem?
  intro k
  rw [List.getElem?_modify]
  split
  · next hk =>
    subst hk
    cases hh : hs.heaps[h]? with
    | none => rfl
    | some x =>
      obtain rfl : hs.get h = x := by simp [get, hh]
      simp [hf]
  · simp

end Heaps

structure Pool where
  heaps : Heaps
  /-- The heap that each handle leads to, also of those that have been dropped. -/
  leads : List HeapId
  /-- The handles that are left. -/
  handles : List Nat
  /-- The buffers that have a number and are not in the books yet. -/
  coming : List Buffer
  buffers : List Buffer

namespace Pool

def empty : Pool := ⟨.empty, [], [], [], []⟩

inductive Move where
  | new (name : String)
  | clone (a : Nat)
  | drop (a : Nat)
  | number (a : Nat) (bytes : Bytes)
  | enlist (i : Nat)
  | write (i j : Nat) (x : UInt8)
  | truncate (i n : Nat)
  | intoBytes (i : Nat)
  | release (i : Nat)

inductive Event where
  | made (a : Nat)
  | cloned (a b : Nat)
  | numbered (h : HeapId)
  | gave (bytes : Bytes)
deriving DecidableEq

/-- The heap that a handle leads to, until the handle is dropped. -/
def lead (s : Pool) (a : Nat) : Option HeapId := if a ∈ s.handles then s.leads[a]? else none

/-- The state after a move that can be made, with what others see of it. -/
def step (s : Pool) : Move → Option (List Event × Pool)
  | .new name =>
    some ([.made s.leads.length], { s with
      heaps := (s.heaps.create name).2
      leads := s.leads ++ [(s.heaps.create name).1]
      handles := s.handles ++ [s.leads.length] })
  | .clone a =>
    (s.lead a).map fun h ↦ ([.cloned a s.leads.length], { s with
      leads := s.leads ++ [h]
      handles := s.handles ++ [s.leads.length] })
  | .drop a => if a ∈ s.handles then some ([], { s with handles := s.handles.erase a }) else none
  | .number a bytes =>
    (s.lead a).map fun h ↦ ([.numbered h], { s with
      heaps := (s.heaps.number h bytes).2
      coming := s.coming ++ [(s.heaps.number h bytes).1] })
  | .enlist i =>
    s.coming[i]?.map fun b ↦ ([], { s with
      heaps := s.heaps.enlist b
      coming := s.coming.eraseIdx i
      buffers := s.buffers ++ [b] })
  | .write i j x =>
    s.buffers[i]?.bind fun b ↦
      if j < b.length then some ([], { s with buffers := s.buffers.set i (b.set j x) }) else none
  | .truncate i n =>
    s.buffers[i]?.map fun b ↦ ([], { s with
      heaps := (s.heaps.truncate b n).2
      buffers := s.buffers.set i (s.heaps.truncate b n).1 })
  | .intoBytes i =>
    s.buffers[i]?.map fun b ↦ ([.gave (s.heaps.intoBytes b).1], { s with
      heaps := (s.heaps.intoBytes b).2
      buffers := s.buffers.eraseIdx i })
  | .release i =>
    s.buffers[i]?.map fun b ↦ ([], { s with
      heaps := s.heaps.release b
      buffers := s.buffers.eraseIdx i })

abbrev Run : Pool → List Event → Pool → Prop := Trace step

/-- The buffer that a move is about, as it is before the move. -/
def target (s : Pool) : Move → Option Buffer
  | .enlist i => s.coming[i]?
  | .write i _ _ | .truncate i _ | .intoBytes i | .release i => s.buffers[i]?
  | _ => none

/-- What one move can do, and to which buffer. -/
inductive Change (s : Pool) : Option Buffer → List Event → Pool → Prop
  | made (name : String) : Change s none [.made s.leads.length]
      ⟨(s.heaps.create name).2, s.leads ++ [(s.heaps.create name).1], s.handles ++ [s.leads.length],
        s.coming, s.buffers⟩
  | cloned (a : Nat) (h : HeapId) : s.leads[a]? = some h → Change s none [.cloned a s.leads.length]
      ⟨s.heaps, s.leads ++ [h], s.handles ++ [s.leads.length], s.coming, s.buffers⟩
  | dropped (a : Nat) : Change s none [] ⟨s.heaps, s.leads, s.handles.erase a, s.coming, s.buffers⟩
  | numbered (h : HeapId) (bytes : Bytes) : h ∈ s.leads → Change s none [.numbered h]
      ⟨s.heaps.update h .draw, s.leads, s.handles,
        s.coming ++ [⟨h, (s.heaps.get h).nextId, bytes⟩], s.buffers⟩
  | enlisted (i : Nat) (hi : i < s.coming.length) : Change s (some s.coming[i]) []
      ⟨s.heaps.enlist s.coming[i], s.leads, s.handles, s.coming.eraseIdx i,
        s.buffers ++ [s.coming[i]]⟩
  | written (i : Nat) (hi : i < s.buffers.length) (j : Nat) (x : UInt8) :
      Change s (some s.buffers[i]) []
        ⟨s.heaps, s.leads, s.handles, s.coming, s.buffers.set i (s.buffers[i].set j x)⟩
  | truncated (i : Nat) (hi : i < s.buffers.length) (n : Nat) : Change s (some s.buffers[i]) []
      ⟨(s.heaps.truncate s.buffers[i] n).2, s.leads, s.handles, s.coming,
        s.buffers.set i (s.heaps.truncate s.buffers[i] n).1⟩
  | released (i : Nat) (hi : i < s.buffers.length) (log : List Event) :
      log = [] ∨ log = [.gave s.buffers[i].bytes] → Change s (some s.buffers[i]) log
        ⟨s.heaps.release s.buffers[i], s.leads, s.handles, s.coming, s.buffers.eraseIdx i⟩

variable {s t u : Pool} {o : Option Buffer} {log more : List Event}

theorem leads_of_lead {a : Nat} {h : HeapId} (ha : s.lead a = some h) : s.leads[a]? = some h := by
  rw [lead] at ha
  split at ha
  · exact ha
  · cases ha

theorem step_change (m : Move) (hs : s.step m = some (log, t)) : s.Change (s.target m) log t := by
  cases m with
  | new name =>
    cases hs
    exact .made name
  | clone a =>
    obtain ⟨h, ha, he⟩ := Option.map_eq_some_iff.1 hs
    cases he
    exact .cloned a h (leads_of_lead ha)
  | drop a =>
    obtain ⟨-, he⟩ := Option.ite_none_right_eq_some.1 hs
    cases he
    exact .dropped a
  | number a bytes =>
    obtain ⟨h, ha, he⟩ := Option.map_eq_some_iff.1 hs
    cases he
    exact .numbered h bytes (List.mem_of_getElem? (leads_of_lead ha))
  | enlist i =>
    obtain ⟨b, hb, he⟩ := Option.map_eq_some_iff.1 hs
    obtain ⟨hi, rfl⟩ := List.getElem?_eq_some_iff.1 hb
    cases he
    rw [target, hb]
    exact .enlisted i hi
  | write i j x =>
    obtain ⟨b, hb, he⟩ := Option.bind_eq_some_iff.1 hs
    obtain ⟨hi, rfl⟩ := List.getElem?_eq_some_iff.1 hb
    obtain ⟨-, he⟩ := Option.ite_none_right_eq_some.1 he
    cases he
    rw [target, hb]
    exact .written i hi j x
  | truncate i n =>
    obtain ⟨b, hb, he⟩ := Option.map_eq_some_iff.1 hs
    obtain ⟨hi, rfl⟩ := List.getElem?_eq_some_iff.1 hb
    cases he
    rw [target, hb]
    exact .truncated i hi n
  | intoBytes i =>
    obtain ⟨b, hb, he⟩ := Option.map_eq_some_iff.1 hs
    obtain ⟨hi, rfl⟩ := List.getElem?_eq_some_iff.1 hb
    cases he
    rw [target, hb]
    exact .released i hi _ (.inr rfl)
  | release i =>
    obtain ⟨b, hb, he⟩ := Option.map_eq_some_iff.1 hs
    obtain ⟨hi, rfl⟩ := List.getElem?_eq_some_iff.1 hb
    cases he
    rw [target, hb]
    exact .released i hi _ (.inl rfl)

/-! Every buffer that is out has a number of its own, and its heap counts it as it is. -/

/-- The numbers that are out, whether they are in the books or not yet. -/
def keys (s : Pool) : List (HeapId × Nat) := (s.coming ++ s.buffers).map Buffer.key

structure Kept (s : Pool) : Prop where
  owns : s.heaps.Owns (s.buffers.map Buffer.holding)
  issued : ∀ b ∈ s.coming, s.heaps.Issued b
  nodup : s.keys.Nodup
  leads : ∀ h ∈ s.leads, s.heaps.has h = true

theorem owns_at {l : List Buffer} {i : Nat} (hi : i < l.length) {hs : Heaps} :
    hs.Owns (l.map Buffer.holding) ↔
      hs.Owns (l[i].holding :: (l.eraseIdx i).map Buffer.holding) := by
  have hp := (List.getElem_cons_eraseIdx_perm hi).map Buffer.holding
  exact ⟨fun ho ↦ ho.perm hp.symm, fun ho ↦ ho.perm hp⟩

theorem owns_set {l : List Buffer} {i : Nat} (hi : i < l.length) {hs : Heaps} {b : Buffer} :
    hs.Owns ((l.set i b).map Buffer.holding) ↔
      hs.Owns (b.holding :: (l.eraseIdx i).map Buffer.holding) := by
  have hp := (List.set_perm_cons_eraseIdx hi b).map Buffer.holding
  exact ⟨fun ho ↦ ho.perm hp, fun ho ↦ ho.perm hp.symm⟩

theorem owns_numbers {l : List Buffer} {hs : Heaps} (ho : hs.Owns (l.map Buffer.holding))
    {b : Buffer} : b.id ∈ (hs.get b.heap).numbers ↔ b.key ∈ l.map Buffer.key := by
  rw [(ho.numbers_perm b.heap).mem_iff]
  simp [Heaps.entries, Buffer.holding, Buffer.key, and_assoc]

theorem map_set_same {α β : Type} {f : α → β} {l : List α} {i : Nat} (hi : i < l.length) {a : α}
    (h : f a = f l[i]) : (l.set i a).map f = l.map f := by
  have hi' : i < (l.map f).length := by rwa [List.length_map]
  rw [List.map_set, h, ← List.getElem_map f (h := hi'), List.set_getElem_self]

theorem Kept.number_lt (hk : s.Kept) {k : HeapId × Nat} (h : k ∈ s.keys) :
    k.2 < (s.heaps.get k.1).nextId := by
  obtain ⟨b, hb, rfl⟩ := List.mem_map.1 h
  rcases List.mem_append.1 hb with hb | hb
  · exact (hk.issued b hb).next
  · exact hk.owns.issued b.heap b.id ((owns_numbers hk.owns).2 (List.mem_map_of_mem hb))

theorem Change.has (h : Change s o log t) {k : HeapId} (hk : s.heaps.has k = true) :
    t.heaps.has k = true := by
  cases h with
  | made name => exact (s.heaps.onward_create name).has hk
  | numbered h => simpa [Heaps.has, Heaps.update] using hk
  | enlisted | truncated | released =>
    simpa [Heaps.has, Heaps.enlist, Heaps.truncate, Heaps.release, Heaps.update] using hk
  | _ => exact hk

theorem Change.drawn (h : Change s o log t) (hk : s.Kept) (k : HeapId) :
    (t.heaps.get k).nextId = (s.heaps.get k).nextId + log.count (.numbered k) := by
  cases h with
  | made name => simpa using (s.heaps.books_create name k).2
  | numbered h bytes hh =>
    rw [Heaps.get_update]
    by_cases hkh : k = h
    · subst hkh
      simp [hk.leads k hh, Heap.draw]
    · simp [hkh, Ne.symm hkh]
  | cloned | dropped | written => simp
  | enlisted i hi => exact s.heaps.nextId_update (f := (·.book _ _)) (fun _ ↦ rfl) _ k
  | truncated i hi n => exact s.heaps.nextId_update (f := (·.resize _ _)) (fun _ ↦ rfl) _ k
  | released i hi log hlog =>
    have hnone : log.count (.numbered k) = 0 := by rcases hlog with rfl | rfl <;> simp
    rw [hnone]
    exact s.heaps.nextId_update (f := (·.release _)) (fun _ ↦ rfl) _ k

theorem Change.issued (h : Change s o log t) (hk : s.Kept) {b : Buffer} (hb : s.heaps.Issued b) :
    t.heaps.Issued b where
  has := h.has hb.has
  next := by
    rw [h.drawn hk]
    exact Nat.lt_add_right _ hb.next

/-- A move hands out one number, or none, or takes one out of use. -/
theorem Change.keys (h : Change s o log t) :
    (∃ k, t.keys.Perm ((k, (s.heaps.get k).nextId) :: s.keys)) ∨ t.keys.Subperm s.keys := by
  have hset : ∀ {i : Nat} (hi : i < s.buffers.length) (b : Buffer), b.key = s.buffers[i].key →
      ((s.coming ++ s.buffers.set i b).map Buffer.key).Subperm s.keys := by
    intro i hi b hb
    rw [List.map_append, map_set_same hi hb, ← List.map_append]
    exact List.Subperm.refl _
  cases h with
  | made | cloned | dropped => exact .inr (List.Subperm.refl _)
  | numbered h bytes =>
    refine .inl ⟨h, ?_⟩
    rw [Pool.keys, List.append_assoc, List.singleton_append]
    exact List.perm_middle.map _
  | enlisted i hi =>
    refine .inr (List.Perm.map _ ?_).subperm
    calc (s.coming.eraseIdx i ++ (s.buffers ++ [s.coming[i]])).Perm
          (s.coming.eraseIdx i ++ ([s.coming[i]] ++ s.buffers)) :=
          List.perm_append_comm.append_left _
      _ |>.Perm (s.coming[i] :: (s.coming.eraseIdx i ++ s.buffers)) := List.perm_middle
      _ |>.Perm (s.coming ++ s.buffers) := (List.getElem_cons_eraseIdx_perm hi).append_right _
  | written i hi j x => exact .inr (hset hi (s.buffers[i].set j x) rfl)
  | truncated i hi n => exact .inr (hset hi (s.heaps.truncate s.buffers[i] n).1 rfl)
  | released i hi => exact .inr (((List.eraseIdx_sublist ..).append_left _).map _).subperm

theorem Change.nodup (h : Change s o log t) (hk : s.Kept) : t.keys.Nodup := by
  rcases h.keys with ⟨k, hp⟩ | hp
  · refine hp.nodup_iff.2 (List.nodup_cons.2 ⟨?_, hk.nodup⟩)
    intro hm
    exact absurd (hk.number_lt hm) (Nat.lt_irrefl _)
  · obtain ⟨l, hl, hsub⟩ := hp
    exact hl.nodup_iff.1 (hk.nodup.sublist hsub)

/-- The buffer has a number that nothing has any more. -/
structure Gone (s : Pool) (b : Buffer) : Prop where
  issued : s.heaps.Issued b
  out : b.key ∉ s.keys

theorem Change.gone (h : Change s o log t) (hk : s.Kept) {b : Buffer} (hb : s.Gone b) : t.Gone b where
  issued := h.issued hk hb.issued
  out hm := by
    rcases h.keys with ⟨k, hp⟩ | hp
    · rcases List.mem_cons.1 (hp.mem_iff.1 hm) with hk | hk
      · obtain ⟨rfl, hid⟩ := Prod.mk.inj hk
        exact absurd hb.issued.next (hid ▸ Nat.lt_irrefl _)
      · exact hb.out hk
    · exact hb.out (hp.subset hm)

theorem Change.kept (h : Change s o log t) (hk : s.Kept) : t.Kept := by
  have hissued : ∀ b ∈ s.coming, t.heaps.Issued b := fun b hb ↦ h.issued hk (hk.issued b hb)
  have hleads : ∀ k ∈ s.leads, t.heaps.has k = true := fun k hm ↦ h.has (hk.leads k hm)
  have hnodup := h.nodup hk
  cases h with
  | made name =>
    refine ⟨hk.owns.create name, hissued, hnodup, ?_⟩
    intro k hm
    rcases List.mem_append.1 hm with hm | hm
    · exact hleads k hm
    · rw [List.mem_singleton.1 hm]
      simp [Heaps.create, Heaps.has]
  | cloned a h ha =>
    refine ⟨hk.owns, hissued, hnodup, ?_⟩
    intro k hm
    rcases List.mem_append.1 hm with hm | hm
    · exact hleads k hm
    · rw [List.mem_singleton.1 hm]
      exact hleads h (List.mem_of_getElem? ha)
  | dropped => exact ⟨hk.owns, hissued, hnodup, hleads⟩
  | numbered h bytes hh =>
    refine ⟨hk.owns.draw h, ?_, hnodup, hleads⟩
    intro b hb
    rcases List.mem_append.1 hb with hb | hb
    · exact hissued b hb
    · rw [List.mem_singleton.1 hb]
      refine ⟨hleads h hh, ?_⟩
      simp [Heaps.get_update, hk.leads h hh, Heap.draw]
  | enlisted i hi =>
    have hb := hk.issued _ (List.getElem_mem hi)
    have hout : s.coming[i].key ∉ s.buffers.map Buffer.key := by
      have hn := hk.nodup
      rw [Pool.keys, List.map_append] at hn
      intro hm
      exact (List.disjoint_of_nodup_append hn) (List.mem_map_of_mem (List.getElem_mem hi)) hm
    refine ⟨?_, ?_, hnodup, hleads⟩
    · rw [List.map_append]
      refine Heaps.Owns.perm ?_ List.perm_append_comm
      exact hk.owns.book (x := s.coming[i].holding) hb.has hb.next
        fun hm ↦ hout ((owns_numbers hk.owns).1 hm)
    · intro b hm
      exact hissued b (List.mem_of_mem_eraseIdx hm)
  | written i hi j x =>
    refine ⟨?_, hissued, hnodup, hleads⟩
    have hsame : (s.buffers[i].set j x).holding = s.buffers[i].holding := by
      simp [Buffer.set, Buffer.holding, Buffer.length]
    rw [map_set_same hi hsame]
    exact hk.owns
  | truncated i hi n =>
    exact ⟨(owns_set hi).2 (((owns_at hi).1 hk.owns).resize _), hissued, hnodup, hleads⟩
  | released i hi => exact ⟨((owns_at hi).1 hk.owns).release, hissued, hnodup, hleads⟩

theorem Run.kept (h : Run s log t) (hk : s.Kept) : t.Kept := by
  induction h with
  | refl => exact hk
  | step m _ hs ih => exact (step_change m hs).kept ih

theorem Run.gone (h : Run s log t) (hk : s.Kept) {b : Buffer} (hb : s.Gone b) : t.Gone b := by
  induction h with
  | refl => exact hb
  | step m hr hs ih => exact (step_change m hs).gone (Run.kept hr hk) ih

theorem kept_empty : empty.Kept where
  owns := Heaps.owns_nil fun _ ↦ rfl
  issued _ hb := absurd hb List.not_mem_nil
  nodup := List.nodup_nil
  leads _ hm := absurd hm List.not_mem_nil

/-! Handles lead to one heap if one handle stands at the beginning of both. -/

/-- The handle is the other one, or has been cloned from it, at first or second hand. -/
inductive Clone (log : List Event) (r : Nat) : Nat → Prop
  | self : Clone log r r
  | again {a b : Nat} : Clone log r a → .cloned a b ∈ log → Clone log r b

structure Lineage (log : List Event) (s : Pool) : Prop where
  handles : ∀ a ∈ s.handles, a < s.leads.length
  cloned : ∀ {a b}, .cloned a b ∈ log → ∃ h, s.leads[a]? = some h ∧ s.leads[b]? = some h
  /-- Every handle goes back to one that was made with its heap. -/
  rooted : ∀ a < s.leads.length, ∃ r, .made r ∈ log ∧ Clone log r a
  roots : ∀ {r q h}, .made r ∈ log → .made q ∈ log → s.leads[r]? = some h → s.leads[q]? = some h →
    r = q
  made : ∀ {r}, .made r ∈ log → r < s.leads.length

theorem Clone.append {r a : Nat} (h : Clone log r a) : Clone (log ++ more) r a := by
  induction h with
  | self => exact .self
  | again _ hb ih => exact ih.again (List.mem_append_left _ hb)

theorem Lineage.leads_eq (hl : s.Lineage log) {r a : Nat} (h : Clone log r a) :
    s.leads[r]? = s.leads[a]? := by
  induction h with
  | self => rfl
  | again _ hb ih =>
    obtain ⟨h, ha, hb⟩ := hl.cloned hb
    rw [ih, ha, hb]

theorem Lineage.clone_iff (hl : s.Lineage log) {a b : Nat} (ha : a < s.leads.length)
    (hb : b < s.leads.length) :
    s.leads[a]? = s.leads[b]? ↔ ∃ r, Clone log r a ∧ Clone log r b := by
  constructor
  · intro heq
    obtain ⟨r, hr, hra⟩ := hl.rooted a ha
    obtain ⟨q, hq, hqb⟩ := hl.rooted b hb
    have hroot : s.leads[r]? = some s.leads[a] := by rw [hl.leads_eq hra, List.getElem?_eq_getElem]
    have hsame : s.leads[q]? = some s.leads[a] := by
      rw [hl.leads_eq hqb, ← heq, List.getElem?_eq_getElem]
    rw [hl.roots hq hr hsame hroot] at hqb
    exact ⟨r, hra, hqb⟩
  · rintro ⟨r, hra, hrb⟩
    rw [← hl.leads_eq hra, hl.leads_eq hrb]

theorem Lineage.frame (hl : s.Lineage log) (hleads : t.leads = s.leads)
    (hhandles : t.handles ⊆ s.handles) (hmade : ∀ r, .made r ∉ more)
    (hcloned : ∀ a b, .cloned a b ∉ more) : t.Lineage (log ++ more) := by
  have hback : ∀ {r}, .made r ∈ log ++ more → .made r ∈ log := by
    intro r hr
    exact (List.mem_append.1 hr).resolve_right (hmade r)
  refine ⟨?_, ?_, ?_, ?_, ?_⟩
  · intro a ha
    rw [hleads]
    exact hl.handles a (hhandles ha)
  · intro a b hab
    rw [hleads]
    exact hl.cloned ((List.mem_append.1 hab).resolve_right (hcloned a b))
  · intro a ha
    rw [hleads] at ha
    obtain ⟨r, hr, hra⟩ := hl.rooted a ha
    exact ⟨r, List.mem_append_left _ hr, hra.append⟩
  · intro r q h hr hq
    rw [hleads]
    exact hl.roots (hback hr) (hback hq)
  · intro r hr
    rw [hleads]
    exact hl.made (hback hr)

theorem Change.lineage (h : Change s o more t) (hk : s.Kept) (hl : s.Lineage log) :
    t.Lineage (log ++ more) := by
  have hlt : ∀ {a}, a < s.leads.length + 1 → a < s.leads.length ∨ a = s.leads.length :=
    fun ha ↦ Nat.lt_or_eq_of_le (Nat.le_of_lt_succ ha)
  have hhandles : ∀ a ∈ s.handles ++ [s.leads.length], a < s.leads.length + 1 := by
    intro a ha
    rcases List.mem_append.1 ha with ha | ha
    · exact Nat.lt_succ_of_lt (hl.handles a ha)
    · rw [List.mem_singleton.1 ha]
      exact Nat.lt_succ_self _
  cases h with
  | made name =>
    have hnew : ∀ {k : Nat}, s.leads[k]? ≠ some (s.heaps.create name).1 := by
      intro k hm
      have hh := hk.leads _ (List.mem_of_getElem? hm)
      simp [Heaps.create, Heaps.has] at hh
    refine ⟨by simpa using hhandles, ?_, ?_, ?_, ?_⟩
    · intro a b hab
      obtain ⟨h, ha, hb⟩ := hl.cloned (by simpa using hab)
      exact ⟨h, getElem?_snoc.2 (.inl ha), getElem?_snoc.2 (.inl hb)⟩
    · intro a ha
      rcases hlt (by simpa using ha) with ha | rfl
      · obtain ⟨r, hr, hra⟩ := hl.rooted a ha
        exact ⟨r, List.mem_append_left _ hr, hra.append⟩
      · exact ⟨s.leads.length, by simp, .self⟩
    · intro r q h hr hq hrh hqh
      simp only [List.mem_append, List.mem_singleton, Event.made.injEq] at hr hq
      rcases getElem?_snoc.1 hrh with hrh | ⟨rfl, rfl⟩ <;>
        rcases getElem?_snoc.1 hqh with hqh | ⟨rfl, he⟩
      · have hr' := hr.resolve_right (Nat.ne_of_lt (List.getElem?_eq_some_iff.1 hrh).1)
        have hq' := hq.resolve_right (Nat.ne_of_lt (List.getElem?_eq_some_iff.1 hqh).1)
        exact hl.roots hr' hq' hrh hqh
      · exact absurd (he ▸ hrh) hnew
      · exact absurd hqh hnew
      · rfl
    · intro r hr
      rcases List.mem_append.1 hr with hr | hr
      · simpa using Nat.lt_succ_of_lt (hl.made hr)
      · obtain rfl : r = s.leads.length := by simpa using hr
        simp
  | cloned a h ha =>
    have hback : ∀ {r}, .made r ∈ log ++ [Event.cloned a s.leads.length] → .made r ∈ log := by simp
    refine ⟨by simpa using hhandles, ?_, ?_, ?_, ?_⟩
    · intro b c hbc
      rcases List.mem_append.1 hbc with hbc | hbc
      · obtain ⟨h, hb, hc⟩ := hl.cloned hbc
        exact ⟨h, getElem?_snoc.2 (.inl hb), getElem?_snoc.2 (.inl hc)⟩
      · obtain ⟨rfl, rfl⟩ : b = a ∧ c = s.leads.length := by simpa using hbc
        exact ⟨h, getElem?_snoc.2 (.inl ha), getElem?_snoc.2 (.inr ⟨rfl, rfl⟩)⟩
    · intro b hb
      rcases hlt (by simpa using hb) with hb | rfl
      · obtain ⟨r, hr, hrb⟩ := hl.rooted b hb
        exact ⟨r, List.mem_append_left _ hr, hrb.append⟩
      · obtain ⟨r, hr, hra⟩ := hl.rooted a (List.getElem?_eq_some_iff.1 ha).1
        exact ⟨r, List.mem_append_left _ hr, hra.append.again (by simp)⟩
    · intro r q k hr hq hrk hqk
      rcases getElem?_snoc.1 hrk with hrk | ⟨rfl, -⟩
      · rcases getElem?_snoc.1 hqk with hqk | ⟨rfl, -⟩
        · exact hl.roots (hback hr) (hback hq) hrk hqk
        · exact absurd (hl.made (hback hq)) (Nat.lt_irrefl _)
      · exact absurd (hl.made (hback hr)) (Nat.lt_irrefl _)
    · intro r hr
      simpa using Nat.lt_succ_of_lt (hl.made (hback hr))
  | dropped a => exact hl.frame rfl (List.erase_subset ..) (by simp) (by simp)
  | released i hi more hm =>
    refine hl.frame rfl (List.Subset.refl _) ?_ ?_ <;> rcases hm with rfl | rfl <;> simp
  | _ => exact hl.frame rfl (List.Subset.refl _) (by simp) (by simp)

theorem Run.lineage (h : Run empty log s) : s.Lineage log := by
  induction h with
  | refl => exact ⟨by simp [empty], by simp, by simp [empty], by simp, by simp⟩
  | step m hr hm ih => exact (step_change m hm).lineage (Run.kept hr kept_empty) ih

/-! What is out of a heap, and what the heap says of it. -/

/-- Numbers are taken one at a time, so there are as many as allocations. -/
theorem Run.drawn (h : Run empty log s) (k : HeapId) :
    (s.heaps.get k).nextId = log.count (.numbered k) := by
  induction h with
  | refl => rfl
  | step m hr hs ih => rw [(step_change m hs).drawn (Run.kept hr kept_empty), ih, List.count_append]

/-- The buffers that have been drawn from a heap and are still out. -/
def drawnFrom (s : Pool) (h : HeapId) : List Buffer := s.buffers.filter (·.heap = h)

theorem Kept.stats (hk : s.Kept) (h : HeapId) :
    s.heaps.stats h = ⟨(s.drawnFrom h).length, ((s.drawnFrom h).map Buffer.length).sum⟩ := by
  rw [hk.owns.stats h, List.filter_map, List.length_map, List.map_map]
  rfl

theorem Kept.tracked (hk : s.Kept) {b : Buffer} (hb : b ∈ s.buffers) :
    (b.id, b.length) ∈ (s.heaps.get b.heap).live := by
  rw [(hk.owns.live b.heap).mem_iff]
  have hm : b.holding ∈ s.buffers.map Buffer.holding := List.mem_map_of_mem hb
  exact List.mem_map.2 ⟨b.holding, List.mem_filter.2 ⟨hm, by simp [Buffer.holding]⟩, rfl⟩

theorem Gone.not_tracked (hk : s.Kept) {b : Buffer} (hb : s.Gone b) :
    b.id ∉ (s.heaps.get b.heap).numbers := by
  intro hm
  refine hb.out ?_
  rw [keys, List.map_append]
  exact List.mem_append_right _ ((owns_numbers hk.owns).1 hm)

/-- A heap that a move is not about says what it said. -/
theorem Change.apart (h : Change s o log t) {k : HeapId} (ho : ∀ b, o = some b → b.heap ≠ k) :
    t.heaps.stats k = s.heaps.stats k := by
  have hne : ∀ {b : Buffer} {f : Heap → Heap}, o = some b →
      (s.heaps.update b.heap f).stats k = s.heaps.stats k := by
    intro b f hb
    rw [Heaps.stats, Heaps.get_update, if_neg fun hc ↦ ho b hb hc.1.symm, Heaps.stats]
  cases h with
  | made name =>
    simp only [Heaps.stats, Heap.stats, (s.heaps.books_create name k).1]
  | numbered h =>
    rw [Heaps.stats, Heaps.get_update]
    split
    · next hc => rw [hc.1, Heaps.stats, Heap.stats, Heap.stats, Heap.draw]
    · rfl
  | enlisted | truncated | released => exact hne rfl
  | _ => rfl

/-- A buffer that a move is not about stays as it is. -/
theorem Change.keeps (h : Change s o log t) {b : Buffer} (hb : b ∈ s.buffers) (ho : o ≠ some b) :
    b ∈ t.buffers := by
  have hrest : ∀ {i : Nat} (hi : i < s.buffers.length), o = some s.buffers[i] →
      b ∈ s.buffers.eraseIdx i := by
    intro i hi hs
    refine (List.mem_cons.1 ((List.getElem_cons_eraseIdx_perm hi).mem_iff.2 hb)).resolve_left ?_
    rintro rfl
    exact ho hs
  have hset : ∀ {i : Nat} (hi : i < s.buffers.length) (c : Buffer), o = some s.buffers[i] →
      b ∈ s.buffers.set i c := by
    intro i hi c hs
    exact (List.set_perm_cons_eraseIdx hi c).mem_iff.2 (List.mem_cons_of_mem _ (hrest hi hs))
  cases h with
  | enlisted i hi => exact List.mem_append_left _ hb
  | written i hi => exact hset hi _ rfl
  | truncated i hi => exact hset hi _ rfl
  | released i hi => exact hrest hi rfl
  | _ => exact hb

theorem Kept.truncate_same (hk : s.Kept) {b : Buffer} (hb : b ∈ s.buffers) {n : Nat}
    (hn : b.length ≤ n) : s.heaps.truncate b n = (b, s.heaps) := by
  have hbytes : b.bytes.take n = b.bytes := List.take_of_length_le hn
  have hsame : (s.heaps.get b.heap).resize b.id b.bytes.length = s.heaps.get b.heap := by
    have hlive : ∀ e ∈ (s.heaps.get b.heap).live,
        (if e.1 = b.id then (b.id, b.bytes.length) else e) = e := by
      intro e he
      split
      · next hid =>
        exact (List.inj_on_of_nodup_map (hk.owns.nodup b.heap) he (hk.tracked hb) hid).symm
      · rfl
    rw [Heap.resize, List.map_congr_left hlive, List.map_id']
  rw [Heaps.truncate, hbytes, Heaps.update_same hsame]

theorem Kept.released (hk : s.Kept) {i : Nat} (hi : i < s.buffers.length) :
    s.heaps.stats s.buffers[i].heap =
      ⟨((s.heaps.release s.buffers[i]).stats s.buffers[i].heap).allocations + 1,
        s.buffers[i].length + ((s.heaps.release s.buffers[i]).stats s.buffers[i].heap).bytes⟩ := by
  have ho := (owns_at hi).1 hk.owns
  rw [ho.stats, ho.release.stats]
  simp [Buffer.holding]

theorem gone_of_erased (hk : s.Kept) {i : Nat} (hi : i < s.buffers.length)
    (hkeys : t.keys = (s.coming ++ s.buffers.eraseIdx i).map Buffer.key)
    (hissued : t.heaps.Issued s.buffers[i]) : t.Gone s.buffers[i] := by
  refine ⟨hissued, ?_⟩
  have hp : s.keys.Perm (s.buffers[i].key :: t.keys) := by
    rw [hkeys, ← List.map_cons]
    refine List.Perm.map _ ?_
    exact ((List.getElem_cons_eraseIdx_perm hi).symm.append_left _).trans List.perm_middle
  exact (List.nodup_cons.1 (hp.nodup_iff.1 hk.nodup)).1

/-- An allocation that nothing comes between is `Heaps.adopt`. -/
theorem follow_adopt {a : Nat} {h : HeapId} (ha : s.lead a = some h) (bytes : Bytes) :
    Trace.follow step s [.number a bytes, .enlist s.coming.length] = some ([.numbered h], { s with
      heaps := (s.heaps.adopt h bytes).2
      buffers := s.buffers ++ [(s.heaps.adopt h bytes).1] }) := by
  have hlast : (s.coming ++ [(s.heaps.number h bytes).1])[s.coming.length]? =
      some (s.heaps.number h bytes).1 := by simp
  have herase : (s.coming ++ [(s.heaps.number h bytes).1]).eraseIdx s.coming.length = s.coming := by
    simp [List.eraseIdx_append_of_length_le]
  simp only [Trace.follow, step, ha, Option.map_some, Option.bind_some, hlast, herase,
    s.heaps.enlist_number]
  rfl

theorem Kept.truncates (hk : s.Kept) {i : Nat} {b : Buffer} (hb : s.buffers[i]? = some b) (n : Nat) :
    ∃ t, s.step (.truncate i n) = some ([], t) ∧
      t.buffers = s.buffers.set i { b with bytes := b.bytes.take n } ∧
      (b.id, min n b.length) ∈ (t.heaps.get b.heap).live ∧ (b.length ≤ n → t = s) := by
  obtain ⟨hi, rfl⟩ := List.getElem?_eq_some_iff.1 hb
  have hs : s.step (.truncate i n) = some ([], { s with
      heaps := (s.heaps.truncate s.buffers[i] n).2
      buffers := s.buffers.set i (s.heaps.truncate s.buffers[i] n).1 }) := by
    rw [step, hb, Option.map_some]
  refine ⟨_, hs, rfl, ?_, ?_⟩
  · have ht := (step_change _ hs).kept hk
    have hmem := ht.tracked (List.mem_set hi (s.heaps.truncate s.buffers[i] n).1)
    simpa [Heaps.truncate, Buffer.length] using hmem
  · intro hn
    simp only [hk.truncate_same (List.getElem_mem hi) hn, List.set_getElem_self]

theorem Kept.removes (hk : s.Kept) {i : Nat} {b : Buffer} (hb : s.buffers[i]? = some b) :
    ∃ t, s.step (.intoBytes i) = some ([.gave b.bytes], t) ∧ s.step (.release i) = some ([], t) ∧
      t.buffers = s.buffers.eraseIdx i ∧
      s.heaps.stats b.heap =
        ⟨(t.heaps.stats b.heap).allocations + 1, b.length + (t.heaps.stats b.heap).bytes⟩ ∧
      ∀ more u, Run t more u → b.id ∉ (u.heaps.get b.heap).numbers := by
  obtain ⟨hi, rfl⟩ := List.getElem?_eq_some_iff.1 hb
  have hs : s.step (.release i) = some ([], { s with
      heaps := s.heaps.release s.buffers[i]
      buffers := s.buffers.eraseIdx i }) := by
    rw [step, hb, Option.map_some]
  have hb' : s.heaps.Issued s.buffers[i] := by
    have hm : s.buffers[i] ∈ s.buffers := List.getElem_mem hi
    refine ⟨hk.owns.has (List.mem_map_of_mem hm), hk.number_lt (k := s.buffers[i].key) ?_⟩
    exact List.mem_map_of_mem (List.mem_append_right _ hm)
  refine ⟨_, ?_, hs, rfl, hk.released hi, ?_⟩
  · rw [step, hb, Option.map_some]
    rfl
  · intro more u hu
    have hc := step_change _ hs
    have ht := hc.kept hk
    exact (Run.gone hu ht (gone_of_erased hk hi rfl (hc.issued hk hb'))).not_tracked (Run.kept hu ht)

/-- The heaps agree with the buffers that are out, and a move on one buffer is seen there only. -/
structure Audit (log : List Event) (s : Pool) : Prop where
  stats : ∀ h, s.heaps.stats h = ⟨(s.drawnFrom h).length, ((s.drawnFrom h).map Buffer.length).sum⟩
  leaks : ∀ h, s.heaps.leaks h = (s.drawnFrom h).length
  tracked : ∀ b ∈ s.buffers, (b.id, b.length) ∈ (s.heaps.get b.heap).live
  nodup : (s.buffers.map Buffer.key).Nodup
  /-- No number comes twice, and none is as large as the count of the allocations. -/
  drawn : ∀ h, (s.heaps.get h).nextId = log.count (.numbered h)
  handles : ∀ a ∈ s.handles, ∃ h, s.lead a = some h ∧ s.heaps.has h = true
  same : ∀ a ∈ s.handles, ∀ b ∈ s.handles,
    (s.lead a = s.lead b ↔ ∃ r, Clone log r a ∧ Clone log r b)
  clones : ∀ a ∈ s.handles, ∀ b ∈ s.handles, ∀ r, Clone log r a → Clone log r b →
    (s.lead a).map s.heaps.stats = (s.lead b).map s.heaps.stats
  apart : ∀ m more t, s.step m = some (more, t) →
    (∀ h, (∀ b, s.target m = some b → b.heap ≠ h) → t.heaps.stats h = s.heaps.stats h) ∧
      ∀ b ∈ s.buffers, s.target m ≠ some b → b ∈ t.buffers
  adopted : ∀ a h bytes, s.lead a = some h → ∃ t,
    Trace.follow step s [.number a bytes, .enlist s.coming.length] = some ([.numbered h], t) ∧
      t.heaps = (s.heaps.adopt h bytes).2 ∧
      t.buffers = s.buffers ++ [(s.heaps.adopt h bytes).1] ∧ t.coming = s.coming
  written : ∀ i b j x, s.buffers[i]? = some b → j < b.length → ∃ t,
    s.step (.write i j x) = some ([], t) ∧ t.heaps = s.heaps ∧
      t.buffers = s.buffers.set i { b with bytes := b.bytes.set j x }
  truncated : ∀ i b n, s.buffers[i]? = some b → ∃ t, s.step (.truncate i n) = some ([], t) ∧
    t.buffers = s.buffers.set i { b with bytes := b.bytes.take n } ∧
      (b.id, min n b.length) ∈ (t.heaps.get b.heap).live ∧ (b.length ≤ n → t = s)
  /-- A buffer leaves its heap once, with all of its bytes or without them. -/
  removed : ∀ i b, s.buffers[i]? = some b → ∃ t, s.step (.intoBytes i) = some ([.gave b.bytes], t) ∧
    s.step (.release i) = some ([], t) ∧ t.buffers = s.buffers.eraseIdx i ∧
      s.heaps.stats b.heap =
        ⟨(t.heaps.stats b.heap).allocations + 1, b.length + (t.heaps.stats b.heap).bytes⟩ ∧
      ∀ more u, Run t more u → b.id ∉ (u.heaps.get b.heap).numbers

/-- Heaps in use by any number of threads count exactly the buffers that are out. -/
theorem Run.audit (h : Run empty log s) : Audit log s := by
  have hk := h.kept kept_empty
  have hl := h.lineage
  have hlead : ∀ a ∈ s.handles, s.lead a = s.leads[a]? := fun a ha ↦ if_pos ha
  exact {
    stats := hk.stats
    leaks := fun k ↦ congrArg HeapStats.allocations (hk.stats k)
    tracked := fun _ ↦ hk.tracked
    nodup := hk.nodup.sublist ((List.sublist_append_right ..).map _)
    drawn := h.drawn
    handles := by
      intro a ha
      have hlt := hl.handles a ha
      refine ⟨s.leads[a], ?_, hk.leads _ (List.getElem_mem hlt)⟩
      rw [hlead a ha, List.getElem?_eq_getElem]
    same := by
      intro a ha b hb
      rw [hlead a ha, hlead b hb]
      exact hl.clone_iff (hl.handles a ha) (hl.handles b hb)
    clones := by
      intro a ha b hb r hra hrb
      rw [hlead a ha, hlead b hb, ← hl.leads_eq hra, hl.leads_eq hrb]
    apart := by
      intro m more t hs
      have hc := step_change m hs
      exact ⟨fun _ ho ↦ hc.apart ho, fun b hb ho ↦ hc.keeps hb ho⟩
    adopted := fun _ _ bytes ha ↦ ⟨_, follow_adopt ha bytes, rfl, rfl, rfl⟩
    written := by
      intro i b j x hb hj
      refine ⟨{ s with buffers := s.buffers.set i (b.set j x) }, ?_, rfl, rfl⟩
      rw [Pool.step, hb, Option.bind_some, if_pos hj]
    truncated := fun _ _ n hb ↦ hk.truncates hb n
    removed := fun _ _ hb ↦ hk.removes hb }

/-- Two heaps of one name. Two threads take numbers of the first and go into its books the other way
round; buffers are cut, written to and given up, and the heap outlives its first handle. -/
def crossed : List Event × Pool :=
  (Trace.follow step empty [.new "a", .clone 0, .new "a", .number 0 [1, 2, 3], .number 1 [4, 5], .number 2 [6],
    .enlist 1, .enlist 0, .enlist 0, .truncate 0 1, .write 1 2 9, .drop 0, .intoBytes 2]).get rfl

theorem audit_crossed :
    Run empty crossed.1 crossed.2 ∧ crossed.2.buffers = [⟨0, 1, [4]⟩, ⟨0, 0, [1, 2, 9]⟩] ∧
      crossed.2.handles = [1, 2] ∧ Audit crossed.1 crossed.2 :=
  have hrun : Run empty crossed.1 crossed.2 := .of_isSome _
  ⟨hrun, rfl, rfl, Run.audit hrun⟩

end Pool

end QueuedFiles
