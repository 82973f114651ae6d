import QueuedFiles.Disk
import QueuedFiles.Proofs.Service.Reference
import Mathlib.Data.List.Basic

/-!
What stays on a disk. A location keeps its content until something is written there, and a path that
leads to it goes on leading to it, since nothing that is there goes away.
-/

namespace QueuedFiles

def Node.isSpecial : Node → Bool
  | .file _ | .directory => false
  | .fifo | .null | .zero | .full => true

namespace Disk

variable {d e f : Disk} {l k : Location} {ns ms : List String} {m : String} {n : Node} {path : String}
  {content payload : Bytes} {mode : WriteMode}

theorem lookup_filter_ne (hk : k ≠ l) (nodes : List (Location × Node)) :
    (nodes.filter fun e ↦ e.1 ≠ l).lookup k = nodes.lookup k := by
  have hbeq : (k == l) = false := beq_eq_false_iff_ne.2 hk
  induction nodes with
  | nil => rfl
  | cons e nodes ih =>
    obtain ⟨j, m⟩ := e
    by_cases hj : j = l
    · subst hj
      rw [List.filter_cons_of_neg (by simp), ih, List.lookup_cons, hbeq]
    · rw [List.filter_cons_of_pos (by simpa using hj), List.lookup_cons, List.lookup_cons, ih]

theorem find?_insert (hl : l ≠ []) (k : Location) :
    (d.insert l n).find? k = if k = l then some n else d.find? k := by
  unfold find? insert
  by_cases hk : k = l
  · subst hk
    simp [hl]
  · have hbeq : (k == l) = false := beq_eq_false_iff_ne.2 hk
    simp only [List.lookup_cons, hbeq, lookup_filter_ne hk, if_neg hk]

/-- Nothing goes away, and directories stay directories. -/
structure Grows (d e : Disk) : Prop where
  workingDirectory : e.workingDirectory = d.workingDirectory
  directory : ∀ l, d.find? l = some .directory → e.find? l = some .directory
  present : ∀ l, (d.find? l).isSome = true → (e.find? l).isSome = true

theorem Grows.refl (d : Disk) : d.Grows d := ⟨rfl, fun _ h ↦ h, fun _ h ↦ h⟩

theorem Grows.trans (h : d.Grows e) (h' : e.Grows f) : d.Grows f where
  workingDirectory := h'.workingDirectory.trans h.workingDirectory
  directory l hl := h'.directory l (h.directory l hl)
  present l hl := h'.present l (h.present l hl)

theorem grows_insert (hl : l ≠ []) (hd : d.find? l ≠ some .directory) :
    d.Grows (d.insert l n) where
  workingDirectory := rfl
  directory k hk := by
    have hne : k ≠ l := by
      rintro rfl
      exact hd hk
    rwa [find?_insert hl, if_neg hne]
  present k hk := by
    rw [find?_insert hl]
    split
    · rfl
    · exact hk

theorem enter_eq_ok : d.enter l = .ok () ↔ d.find? l = some .directory := by
  unfold enter
  split <;> simp_all

theorem follow_append (l : Location) (ns ms : List String) :
    follow l (ns ++ ms) = follow (follow l ns) ms :=
  List.foldl_append

/-- A name may be gone by from a location. -/
def Passes (d : Disk) (l : Location) (n : String) : Prop :=
  d.find? l = some .directory ∧
    (n = "." ∨ n = ".." ∨ n.utf8ByteSize ≤ maxName ∧ (d.find? (l ++ [n])).isSome = true)

theorem walk_cons : d.walk l (m :: ns) = .ok k ↔
    d.Passes l m ∧ d.walk (follow l [m]) ns = .ok k := by
  rw [walk, Passes, ← enter_eq_ok]
  cases he : d.enter l with
  | error fault => simp [bind, Except.bind]
  | ok =>
    simp only [bind, Except.bind, follow, List.foldl_cons, List.foldl_nil]
    by_cases hdot : m = "."
    · simp [hdot]
    · by_cases hup : m = ".."
      · simp [hup]
      · by_cases hlong : maxName < m.utf8ByteSize
        · simp [hdot, hup, if_pos hlong, Nat.not_le.2 hlong]
        · cases d.find? (l ++ [m]) <;> simp [hdot, hup, hlong, Nat.not_lt.1 hlong]

theorem walk_eq_follow (h : d.walk l ns = .ok k) : k = follow l ns := by
  induction ns generalizing l with
  | nil => exact (Except.ok.inj h).symm
  | cons m ns ih => exact ih (walk_cons.1 h).2

theorem walk_append {j : Location} (h : d.walk l ns = .ok k) (h' : d.walk k ms = .ok j) :
    d.walk l (ns ++ ms) = .ok j := by
  induction ns generalizing l with
  | nil =>
    cases h
    exact h'
  | cons m ns ih =>
    obtain ⟨hp, h⟩ := walk_cons.1 h
    exact walk_cons.2 ⟨hp, ih h⟩

theorem Grows.passes (h : d.Grows e) (hp : d.Passes l m) : e.Passes l m := by
  refine ⟨h.directory l hp.1, ?_⟩
  rcases hp.2 with hdot | hup | ⟨hlong, hsome⟩
  · exact .inl hdot
  · exact .inr (.inl hup)
  · exact .inr (.inr ⟨hlong, h.present _ hsome⟩)

theorem Grows.walk (h : d.Grows e) (hw : d.walk l ns = .ok k) : e.walk l ns = .ok k := by
  induction ns generalizing l with
  | nil => exact hw
  | cons m ns ih =>
    obtain ⟨hp, hw⟩ := walk_cons.1 hw
    exact walk_cons.2 ⟨h.passes hp, ih hw⟩

theorem resolve_eq_ok : d.resolve path = .ok l ↔ checkPath path = .ok () ∧
    d.walk (d.start path) (names path) = .ok l ∧
      (hasTrailingSlash path = true → d.find? l = some .directory) := by
  rw [resolve, ← enter_eq_ok]
  cases checkPath path with
  | error fault => simp [bind, Except.bind]
  | ok =>
    simp only [bind, Except.bind]
    cases d.walk (d.start path) (names path) with
    | error fault => simp
    | ok k =>
      simp only [true_and, Except.ok.injEq]
      cases hasTrailingSlash path with
      | false => simp
      | true =>
        simp only [if_true, true_implies]
        constructor
        · intro h
          cases he : d.enter k with
          | error fault => simp [he] at h
          | ok =>
            simp only [he, Except.ok.injEq] at h
            exact ⟨h, h ▸ he⟩
        · rintro ⟨rfl, he⟩
          rw [he]

theorem Grows.start (h : d.Grows e) (path : String) : e.start path = d.start path := by
  unfold Disk.start
  rw [h.workingDirectory]

theorem Grows.locate (h : d.Grows e) (path : String) : e.locate path = d.locate path := by
  rw [Disk.locate, Disk.locate, h.start]

theorem Grows.resolve (h : d.Grows e) (hr : d.resolve path = .ok l) : e.resolve path = .ok l := by
  obtain ⟨hc, hw, hs⟩ := resolve_eq_ok.1 hr
  exact resolve_eq_ok.2 ⟨hc, h.start path ▸ h.walk hw, fun ht ↦ h.directory l (hs ht)⟩

/-- A path to be written leads to a place in a directory, by a last name of its own. -/
structure Target (d : Disk) (path : String) (parent : Location) (ns : List String) (m : String) :
    Prop where
  checked : checkPath path = .ok ()
  noSlash : hasTrailingSlash path = false
  names_eq : names path = ns ++ [m]
  walk_eq : d.walk (d.start path) ns = .ok parent
  entered : d.find? parent = some .directory
  proper : m ≠ "." ∧ m ≠ ".."
  short : m.utf8ByteSize ≤ maxName
  free : d.find? (parent ++ [m]) ≠ some .directory

theorem resolveTarget_eq_ok (h : d.resolveTarget path = .ok l) :
    ∃ k ns m, d.Target path k ns m ∧ l = k ++ [m] := by
  rw [resolveTarget] at h
  cases hc : checkPath path with
  | error fault => simp [hc, bind, Except.bind] at h
  | ok =>
    cases hn : (names path).getLast? with
    | none => simp [hc, hn, bind, Except.bind] at h
    | some m =>
      have hnames := (List.dropLast_append_getLast? m hn).symm
      cases hw : d.walk (d.start path) (names path).dropLast with
      | error fault => simp [hc, hn, hw, bind, Except.bind] at h
      | ok k =>
        cases he : d.enter k with
        | error fault => simp [hc, hn, hw, he, bind, Except.bind] at h
        | ok =>
          simp only [hc, hn, hw, he, bind, Except.bind] at h
          split at h
          · cases h
          · next hform =>
            simp only [not_or, Bool.not_eq_true] at hform
            split at h
            · cases h
            · next hlong =>
              split at h
              · cases h
              · next hfree =>
                cases h
                exact ⟨k, _, m, ⟨hc, hform.1, hnames, hw, enter_eq_ok.1 he, hform.2,
                  Nat.not_lt.1 hlong, hfree⟩, rfl⟩

/-- There is no device and no pipe at a location. -/
def Plain (d : Disk) (l : Location) : Prop := ∀ n, d.find? l = some n → n.isSpecial = false

theorem plain_of_none (h : d.find? l = none) : d.Plain l := by
  intro n hn
  rw [h] at hn
  cases hn

/-- The path leads to a file with this content. -/
structure Holds (d : Disk) (path : String) (content : Bytes) : Prop where
  resolves : d.resolve path = .ok (d.locate path)
  content : d.find? (d.locate path) = some (.file content)

/-- Another disk, on which nothing has changed but the file at one location. -/
structure Rewrites (l : Location) (d e : Disk) : Prop where
  grows : d.Grows e
  frame : ∀ k, k ≠ l → e.find? k = d.find? k
  plain : ∀ k, d.Plain k → e.Plain k
  target : d.find? l ≠ some .directory → e.find? l ≠ some .directory

theorem Holds.inspect (h : d.Holds path content) : d.inspect path = some (.file content) := by
  simp [Disk.inspect, h.resolves, h.content]

theorem Rewrites.refl (l : Location) (d : Disk) : Rewrites l d d :=
  ⟨.refl d, fun _ _ ↦ rfl, fun _ h ↦ h, fun h ↦ h⟩

theorem Rewrites.trans (h : Rewrites l d e) (h' : Rewrites l e f) : Rewrites l d f where
  grows := h.grows.trans h'.grows
  frame k hk := (h'.frame k hk).trans (h.frame k hk)
  plain k hk := h'.plain k (h.plain k hk)
  target hd := h'.target (h.target hd)

theorem Rewrites.holds (h : Rewrites l d e) (hl : d.locate path ≠ l) (hh : d.Holds path content) :
    e.Holds path content := by
  have hlocate := h.grows.locate path
  refine ⟨?_, ?_⟩
  · rw [hlocate]
    exact h.grows.resolve hh.resolves
  · rw [hlocate, h.frame _ hl]
    exact hh.content

theorem rewrites_insert (hl : l ≠ []) (hd : d.find? l ≠ some .directory) (content : Bytes) :
    Rewrites l d (d.insert l (.file content)) where
  grows := grows_insert hl hd
  frame k hk := by rw [find?_insert hl, if_neg hk]
  plain k hk n hn := by
    rw [find?_insert hl] at hn
    split at hn
    · cases hn
      rfl
    · exact hk n hn
  target _ := by simp [find?_insert hl]

theorem rewrites_opened (hl : l ≠ []) (hd : d.find? l ≠ some .directory) (mode : WriteMode) :
    Rewrites l d (d.opened l mode) := by
  unfold opened
  split
  · exact rewrites_insert hl hd _
  · exact rewrites_insert hl hd _
  · exact .refl l d

theorem rewrites_extended (hl : l ≠ []) (hd : d.find? l ≠ some .directory) (payload : Bytes) :
    Rewrites l d (d.extended l payload).2 := by
  unfold extended
  split
  · exact rewrites_insert hl hd _
  · exact .refl l d
  · exact .refl l d

theorem opened_truncate (hl : l ≠ []) (hp : d.Plain l) (hd : d.find? l ≠ some .directory) :
    (d.opened l .truncate).find? l = some (.file []) := by
  cases hf : d.find? l with
  | none => simp [opened, hf, find?_insert hl]
  | some n =>
    have hplain := hp n hf
    cases n with
    | file => simp [opened, hf, find?_insert hl]
    | directory => exact absurd hf hd
    | fifo | null | zero | full => cases hplain

theorem extended_file (hl : l ≠ []) (hf : d.find? l = some (.file content)) (payload : Bytes) :
    (d.extended l payload).1 = .ok () ∧
      (d.extended l payload).2.find? l = some (.file (content ++ payload)) := by
  simp [extended, hf, find?_insert hl]

theorem target_ne_nil (h : d.resolveTarget path = .ok l) : l ≠ [] := by
  obtain ⟨k, ns, m, -, rfl⟩ := resolveTarget_eq_ok h
  simp

theorem target_free (h : d.resolveTarget path = .ok l) : d.find? l ≠ some .directory := by
  obtain ⟨k, ns, m, ht, rfl⟩ := resolveTarget_eq_ok h
  exact ht.free

theorem target_eq_locate (h : d.resolveTarget path = .ok l) : l = d.locate path := by
  obtain ⟨k, ns, m, ht, rfl⟩ := resolveTarget_eq_ok h
  rw [locate, ht.names_eq, follow_append, ← walk_eq_follow ht.walk_eq]
  simp [follow, ht.proper]

/-- A path that was to be written resolves once there is something at its place. -/
theorem Grows.resolve_target (hg : d.Grows e) (h : d.resolveTarget path = .ok l)
    (he : (e.find? l).isSome = true) : e.resolve path = .ok l := by
  obtain ⟨k, ns, m, ht, rfl⟩ := resolveTarget_eq_ok h
  have hpasses : e.Passes k m := ⟨hg.directory k ht.entered, .inr (.inr ⟨ht.short, he⟩)⟩
  have hlast : e.walk k [m] = .ok (k ++ [m]) := by
    refine walk_cons.2 ⟨hpasses, ?_⟩
    simp [follow, ht.proper, Disk.walk]
  refine resolve_eq_ok.2 ⟨ht.checked, ?_, by simp [ht.noSlash]⟩
  rw [ht.names_eq, hg.start]
  exact walk_append (hg.walk ht.walk_eq) hlast

section

variable {native : String} {p : Path} {append : Bool}

theorem native_eq_text (h : p.native = .ok native) : native = p.text := by
  unfold Path.native at h
  split at h
  · cases h
  · split at h
    · cases h
    · exact (Except.ok.inj h).symm

theorem readFile_same (d : Disk) (p : Path) : (Reference.readFile fileSystem d p).2 = d := by
  cases hn : p.native with
  | error e =>
    simp only [Reference.readFile, Reference.name_eq, hn]
    rfl
  | ok native =>
    cases hr : d.resolve native with
    | error fault => simp [Reference.readFile, Reference.name_eq, fileSystem, hn, hr]
    | ok l =>
      simp only [Reference.readFile, Reference.name_eq, fileSystem, hn, hr]
      split <;> rfl

theorem Holds.readFile (h : d.Holds p.text content) (hn : p.native = .ok native) :
    Reference.readFile fileSystem d p = (.ok content, d) := by
  obtain rfl := native_eq_text hn
  have hsize : d.sizeOf (d.locate p.text) = content.length := by simp [sizeOf, h.content]
  have hevents : d.readEvents (d.locate p.text) = [.bytes content] := by
    simp [readEvents, h.content]
  simp only [Reference.readFile, Reference.name_eq, Reference.content_eq, fileSystem, hn, h.resolves,
    hsize, hevents, readFull_whole]

/-- A write whose path leads to a place opens it and, unless the pipe there refuses to be sought in,
puts its bytes behind what is there then. -/
theorem writeFile_target (hn : p.native = .ok p.text) (ht : d.resolveTarget p.text = .ok l)
    (append : Bool) (payload : Bytes) :
    ∃ mode, (append = false → mode = .truncate) ∧
      ((Reference.writeFile fileSystem d p append payload).2 = d.opened l mode ∧ append = true ∨
        (Reference.writeFile fileSystem d p append payload).2 =
          ((d.opened l mode).extended l payload).2) := by
  cases append with
  | false =>
    refine ⟨.truncate, fun _ ↦ rfl, .inr ?_⟩
    simp only [Reference.writeFile, Reference.name_eq, fileSystem, hn, Bool.false_eq_true, if_false,
      ht]
    cases (d.opened l .truncate).extended l payload with
    | mk answer e => cases answer <;> rfl
  | true =>
    have hext : fileSystem.isExtensible d p.text = ((fileSystem.isExtensible d p.text).1, d) := rfl
    simp only [Reference.writeFile, Reference.name_eq, hn, if_true]
    rw [hext]
    cases (fileSystem.isExtensible d p.text).1 with
    | false =>
      refine ⟨.truncate, fun _ ↦ rfl, .inr ?_⟩
      simp only [Bool.false_eq_true, if_false, fileSystem, ht]
      cases (d.opened l .truncate).extended l payload with
      | mk answer e => cases answer <;> rfl
    | true =>
      refine ⟨.append, Bool.noConfusion, ?_⟩
      simp only [if_true, fileSystem, ht]
      by_cases hfifo : (d.opened l .append).find? l = some .fifo
      · exact .inl ⟨by simp [hfifo], trivial⟩
      · refine .inr ?_
        simp only [hfifo, if_false]
        cases (d.opened l .append).extended l payload with
        | mk answer e => cases answer <;> rfl

theorem writeFile_rewrites (d : Disk) (p : Path) (append : Bool) (payload : Bytes) :
    Rewrites (d.locate p.text) d (Reference.writeFile fileSystem d p append payload).2 := by
  cases hn : p.native with
  | error e => simpa [Reference.writeFile, Reference.name_eq, hn] using Rewrites.refl _ d
  | ok native =>
    obtain rfl := native_eq_text hn
    cases ht : d.resolveTarget p.text with
    | error fault =>
      have hrefl := Rewrites.refl (d.locate p.text) d
      cases append <;> simpa [Reference.writeFile, Reference.name_eq, fileSystem, hn, ht] using hrefl
    | ok l =>
      obtain rfl := target_eq_locate ht
      have hl := target_ne_nil ht
      have hd := target_free ht
      obtain ⟨mode, -, ⟨he, -⟩ | he⟩ := writeFile_target hn ht append payload
      all_goals
        have ho := rewrites_opened hl hd mode
        rw [he]
      · exact ho
      · exact ho.trans (rewrites_extended hl (ho.target hd) payload)

/-- A write that goes through leaves its bytes in the file, and the path leads there. -/
theorem writeFile_holds (hp : d.Plain (d.locate p.text))
    (hok : (Reference.writeFile fileSystem d p false payload).1 = .ok ()) :
    (Reference.writeFile fileSystem d p false payload).2.Holds p.text payload ∧
      p.native = .ok p.text := by
  cases hn : p.native with
  | error e => simp [Reference.writeFile, Reference.name_eq, hn] at hok
  | ok native =>
    obtain rfl := native_eq_text hn
    cases ht : d.resolveTarget p.text with
    | error fault => simp [Reference.writeFile, Reference.name_eq, fileSystem, hn, ht] at hok
    | ok l =>
      obtain rfl := target_eq_locate ht
      have hl := target_ne_nil ht
      have hd := target_free ht
      obtain ⟨mode, hmode, ⟨-, happend⟩ | he⟩ := writeFile_target hn ht false payload
      · cases happend
      · obtain rfl := hmode rfl
        have ho := rewrites_opened hl hd .truncate
        obtain ⟨-, hfile⟩ := extended_file hl (opened_truncate hl hp hd) payload
        have hgrows := (ho.trans (rewrites_extended hl (ho.target hd) payload)).grows
        rw [he]
        refine ⟨⟨?_, ?_⟩, rfl⟩
        · rw [hgrows.locate]
          exact hgrows.resolve_target ht (by simp [hfile])
        · rw [hgrows.locate, hfile, List.nil_append]

end

section

variable (codec : Codec.Pure) (max : Nat)

theorem execute_read (d : Disk) {o : Order} (ho : o.operation = .read) :
    (Reference.execute codec fileSystem max d o).2 = d := by
  cases o with
  | write => cases ho
  | read path k terminated compressed =>
    have hsame := d.readFile_same ⟨path⟩
    simp only [Reference.execute]
    cases hr : Reference.readFile fileSystem d ⟨path⟩ with
    | mk answer e =>
      obtain rfl : e = d := by simpa [hr] using hsame
      cases answer with
      | error fault => rfl
      | ok data => cases compressed <;> rfl

theorem execute_write (d : Disk) {o : Order} (ho : o.operation = .write) :
    Rewrites (d.locate o.path) d (Reference.execute codec fileSystem max d o).2 := by
  cases o with
  | read => cases ho
  | write path bytes compressed append =>
    have hrewrites := writeFile_rewrites d ⟨path⟩ append (Reference.payload codec bytes compressed).1
    simp only [Reference.execute]
    cases hw : Reference.writeFile fileSystem d ⟨path⟩ append
        (Reference.payload codec bytes compressed).1 with
    | mk answer e =>
      rw [hw] at hrewrites
      cases answer <;> exact hrewrites

theorem execute_keeps (d : Disk) (o : Order) :
    d.Grows (Reference.execute codec fileSystem max d o).2 ∧
      ∀ k, d.Plain k → (Reference.execute codec fileSystem max d o).2.Plain k := by
  cases ho : o.operation with
  | read =>
    rw [execute_read codec max d ho]
    exact ⟨.refl d, fun _ h ↦ h⟩
  | write =>
    have hrewrites := execute_write codec max d ho
    exact ⟨hrewrites.grows, hrewrites.plain⟩

theorem Holds.execute (h : d.Holds path content) {o : Order}
    (ho : o.operation = .write → d.locate o.path ≠ d.locate path) :
    (Reference.execute codec fileSystem max d o).2.Holds path content := by
  cases hop : o.operation with
  | read => rwa [execute_read codec max d hop]
  | write => exact (execute_write codec max d hop).holds (Ne.symm (ho hop)) h

theorem sequence_keeps (d : Disk) (os : List (Nat × Order)) :
    d.Grows (Reference.sequence codec fileSystem max d os).2 ∧
      ∀ k, d.Plain k → (Reference.sequence codec fileSystem max d os).2.Plain k := by
  induction os generalizing d with
  | nil => exact ⟨.refl d, fun _ h ↦ h⟩
  | cons e os ih =>
    obtain ⟨hg, hp⟩ := execute_keeps codec max d e.2
    obtain ⟨hg', hp'⟩ := ih (Reference.execute codec fileSystem max d e.2).2
    exact ⟨hg.trans hg', fun k hk ↦ hp' k (hp k hk)⟩

/-- A file keeps its content as long as no order writes to its location. -/
theorem Holds.sequence (h : d.Holds path content) (os : List (Nat × Order))
    (ho : ∀ e ∈ os, e.2.operation = .write → d.locate e.2.path ≠ d.locate path) :
    (Reference.sequence codec fileSystem max d os).2.Holds path content := by
  induction os generalizing d with
  | nil => exact h
  | cons e os ih =>
    have hg := (execute_keeps codec max d e.2).1
    have hkept := h.execute codec max (ho e (List.mem_cons_self ..))
    refine ih hkept ?_
    intro x hx hop
    have hne := ho x (List.mem_cons_of_mem e hx) hop
    rwa [← hg.locate, ← hg.locate] at hne

end

end Disk

end QueuedFiles
