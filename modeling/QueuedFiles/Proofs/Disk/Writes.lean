import QueuedFiles.Proofs.Disk

/-!
What one write does to a disk: the content that it leaves, the paths that it leaves alone, and the
writes that do nothing because there is no place for them.
-/

namespace QueuedFiles

namespace Disk

variable {d e : Disk} {l k j : Location} {ns : List String} {m : String} {path : String} {p : Path}
  {append : Bool} {payload : Bytes} {mode : WriteMode}

/-- The content of the file at a location; nothing if there is none. -/
def contentAt (d : Disk) (l : Location) : Bytes :=
  match d.find? l with
  | some (.file content) => content
  | _ => []

theorem sizeOf_eq (hd : d.find? l ≠ some .directory) :
    d.sizeOf l = (d.contentAt l).length := by
  unfold sizeOf contentAt
  cases hf : d.find? l with
  | none => rfl
  | some n =>
    cases n with
    | file => rfl
    | directory => exact absurd hf hd
    | fifo | null | zero | full => rfl

theorem resolve_eq_locate (h : d.resolve path = .ok l) : l = d.locate path :=
  walk_eq_follow (resolve_eq_ok.1 h).2.1

theorem resolve_of_inspect (h : (d.inspect path).isSome = true) : ∃ l, d.resolve path = .ok l := by
  cases hr : d.resolve path with
  | ok l => exact ⟨l, rfl⟩
  | error fault => simp [inspect, hr] at h

theorem inspect_missing (h : d.find? (d.locate path) = none) : d.inspect path = none := by
  unfold inspect
  cases hr : d.resolve path with
  | error fault => rfl
  | ok l =>
    obtain rfl := resolve_eq_locate hr
    exact h

theorem inspect_target (h : d.resolveTarget path = .ok l) : d.inspect path = d.find? l := by
  cases hf : d.find? l with
  | none =>
    obtain rfl := target_eq_locate h
    exact inspect_missing hf
  | some n =>
    have hr := (Grows.refl d).resolve_target h (by simp [hf])
    simp [inspect, hr, hf]

/-- There is something to append to unless the place is still empty. -/
theorem isExtensible_target (h : d.resolveTarget path = .ok l) :
    (fileSystem.isExtensible d path).1 = (d.find? l).isSome := by
  have hd := target_free h
  simp only [fileSystem, inspect_target h]
  cases hf : d.find? l with
  | none => rfl
  | some n =>
    cases n with
    | directory => exact absurd hf hd
    | file | fifo | null | zero | full => rfl

theorem opened_append (hl : l ≠ []) (hp : d.Plain l) (hd : d.find? l ≠ some .directory) :
    (d.opened l .append).find? l = some (.file (d.contentAt l)) := by
  unfold contentAt
  cases hf : d.find? l with
  | none => simp [opened, hf, find?_insert hl]
  | some n =>
    have hplain := hp n hf
    cases n with
    | file => simp [opened, hf]
    | directory => exact absurd hf hd
    | fifo | null | zero | full => cases hplain

def modeOf (d : Disk) (l : Location) (append : Bool) : WriteMode :=
  if append ∧ (d.find? l).isSome then .append else .truncate

theorem opened_modeOf (hl : l ≠ []) (hp : d.Plain l) (hd : d.find? l ≠ some .directory)
    (append : Bool) : (d.opened l (d.modeOf l append)).find? l =
      some (.file (if append then d.contentAt l else [])) := by
  unfold modeOf
  split
  · next h => rw [if_pos h.1, opened_append hl hp hd]
  · next h =>
    rw [opened_truncate hl hp hd]
    cases append with
    | false => rfl
    | true =>
      have hnone : d.find? l = none := by simpa using h
      simp [contentAt, hnone]

/-- A write whose path leads to a place: there is no appending to a pipe, and else its bytes come
behind what is there once the place is open. -/
theorem writeFile_eq (hn : p.native = .ok p.text) (ht : d.resolveTarget p.text = .ok l)
    (append : Bool) (payload : Bytes) :
    Reference.writeFile fileSystem d p append payload =
      if append = true ∧ d.find? l = some .fifo then
        (.error (.file .seeking p.text .illegalSeek), d)
      else match (d.opened l (d.modeOf l append)).extended l payload with
        | (.error fault, e) => (.error (.file .writing p.text fault), e)
        | (.ok (), e) => (.ok (), e) := by
  cases append with
  | false =>
    have hmode : d.modeOf l false = .truncate := rfl
    simp only [Reference.writeFile, Reference.name_eq, fileSystem, hn, ht, hmode,
      Bool.false_eq_true, if_false, false_and]
    cases (d.opened l .truncate).extended l payload with
    | mk answer e => cases answer <;> rfl
  | true =>
    have hpresent : fileSystem.isExtensible d p.text = ((d.find? l).isSome, d) :=
      Prod.ext (isExtensible_target ht) rfl
    simp only [Reference.writeFile, Reference.name_eq, hn, hpresent]
    cases hf : d.find? l with
    | none =>
      have hmode : d.modeOf l true = .truncate := by simp [modeOf, hf]
      simp only [if_true, Option.isSome_none, Bool.false_eq_true, if_false, fileSystem, ht, hmode,
        reduceCtorEq, and_false]
      cases (d.opened l .truncate).extended l payload with
      | mk answer e => cases answer <;> rfl
    | some n =>
      have hmode : d.modeOf l true = .append := by simp [modeOf, hf]
      have hopened : d.opened l .append = d := by cases n <;> simp [opened, hf]
      simp only [Option.isSome_some, if_true, fileSystem, ht, hmode, hopened, hf, true_and]
      by_cases hpipe : some n = some Node.fifo
      · simp only [if_pos hpipe]
      · simp only [if_neg hpipe]
        cases d.extended l payload with
        | mk answer e => cases answer <;> rfl

/-- A write to a file, or to an empty place in a directory, goes through. -/
theorem writeFile_plain (hn : p.native = .ok p.text) (ht : d.resolveTarget p.text = .ok l)
    (hp : d.Plain l) (append : Bool) (payload : Bytes) :
    Reference.writeFile fileSystem d p append payload =
      (.ok (), ((d.opened l (d.modeOf l append)).extended l payload).2) := by
  have hfile := opened_modeOf (target_ne_nil ht) hp (target_free ht) append
  have hext := (extended_file (target_ne_nil ht) hfile payload).1
  have hpipe : d.find? l ≠ some .fifo := by
    intro hf
    cases hp .fifo hf
  rw [writeFile_eq hn ht, if_neg fun h ↦ hpipe h.2]
  cases hx : (d.opened l (d.modeOf l append)).extended l payload with
  | mk answer e =>
    obtain rfl : answer = .ok () := by simpa [hx] using hext
    rfl

/-- What a write to a place leaves there: its bytes, behind what was there if it appends. -/
theorem writeFile_content (hn : p.native = .ok p.text) (ht : d.resolveTarget p.text = .ok l)
    (hp : d.Plain l) (append : Bool) (payload : Bytes) :
    (Reference.writeFile fileSystem d p append payload).2.find? l =
      some (.file ((if append then d.contentAt l else []) ++ payload)) := by
  have hl := target_ne_nil ht
  rw [writeFile_plain hn ht hp]
  exact (extended_file hl (opened_modeOf hl hp (target_free ht) append) payload).2

/-- Without a place in a directory there is nothing to open. -/
theorem writeFile_refused {fault : Fault} (hn : p.native = .ok p.text)
    (ht : d.resolveTarget p.text = .error fault) (append : Bool) (payload : Bytes) :
    Reference.writeFile fileSystem d p append payload =
      (.error (.file .opening p.text fault), d) := by
  cases append <;> simp [Reference.writeFile, Reference.name_eq, fileSystem, hn, ht]

/-- All names of a path but the last lead to a directory. -/
def HasParent (d : Disk) (path : String) : Prop :=
  ∃ k, d.walk (d.start path) (names path).dropLast = .ok k ∧ d.find? k = some .directory

theorem resolveTarget_error (h : d.find? (d.locate path) = some .directory ∨ ¬ d.HasParent path) :
    ∃ fault, d.resolveTarget path = .error fault := by
  cases ht : d.resolveTarget path with
  | error fault => exact ⟨fault, rfl⟩
  | ok l =>
    obtain ⟨k, ns, m, htarget, hl⟩ := resolveTarget_eq_ok ht
    rw [← target_eq_locate ht, hl] at h
    have hparent : d.HasParent path := by
      refine ⟨k, ?_, htarget.entered⟩
      rw [htarget.names_eq, List.dropLast_concat]
      exact htarget.walk_eq
    exact h.elim (absurd · htarget.free) (absurd hparent)

/-- A write goes through or does nothing, as long as there is no device and no pipe. -/
theorem writeFile_or (hp : d.Plain (d.locate p.text)) (append : Bool) (payload : Bytes) :
    ((Reference.writeFile fileSystem d p append payload).1 = .ok () ∧ p.native = .ok p.text ∧
      d.resolveTarget p.text = .ok (d.locate p.text)) ∨
    ∃ e, Reference.writeFile fileSystem d p append payload = (.error e, d) := by
  cases hn : p.native with
  | error e =>
    refine .inr ⟨e, ?_⟩
    simp only [Reference.writeFile, Reference.name_eq, hn]
    rfl
  | ok native =>
    obtain rfl := native_eq_text hn
    cases ht : d.resolveTarget p.text with
    | error fault => exact .inr ⟨_, writeFile_refused hn ht append payload⟩
    | ok l =>
      obtain rfl := target_eq_locate ht
      exact .inl ⟨by rw [writeFile_plain hn ht hp], rfl, rfl⟩

/-- A write behind a file's content that goes through leaves both there. -/
theorem Holds.extended {content : Bytes} (h : d.Holds path content)
    (hok : (Reference.writeFile fileSystem d ⟨path⟩ true payload).1 = .ok ()) :
    (Reference.writeFile fileSystem d ⟨path⟩ true payload).2.Holds path (content ++ payload) := by
  have hp : d.Plain (d.locate path) := by
    intro n hn
    cases h.content.symm.trans hn
    rfl
  have hrewrites := writeFile_rewrites d ⟨path⟩ true payload
  have hlocate := hrewrites.grows.locate path
  rcases writeFile_or (p := ⟨path⟩) hp true payload with ⟨-, hn, ht⟩ | ⟨e, he⟩
  · have hcontent := writeFile_content hn ht hp true payload
    rw [if_pos rfl, contentAt, h.content] at hcontent
    refine ⟨?_, ?_⟩
    · rw [hlocate]
      exact hrewrites.grows.resolve h.resolves
    · rw [hlocate]
      exact hcontent
  · rw [he] at hok
    cases hok

/-- Where nothing is, appending is writing. -/
theorem writeFile_missing (h : d.inspect p.text = none) (append : Bool) (payload : Bytes) :
    Reference.writeFile fileSystem d p append payload =
      Reference.writeFile fileSystem d p false payload := by
  cases append with
  | false => rfl
  | true =>
    have hpresent : fileSystem.isExtensible d p.text = (false, d) := by simp [fileSystem, h]
    cases hn : p.native with
    | error e => simp [Reference.writeFile, Reference.name_eq, hn]
    | ok native =>
      obtain rfl := native_eq_text hn
      simp [Reference.writeFile, Reference.name_eq, hn, hpresent]

/-- What is not a directory is only ever the end of a walk. -/
theorem walk_through (hd : d.find? l ≠ some .directory) (hw : d.walk l ns = .ok k) : k = l := by
  cases ns with
  | nil => exact (Except.ok.inj hw).symm
  | cons m ns => exact absurd (walk_cons.1 hw).1.1 hd

/-- A walk to another location does not come by the file. -/
theorem Rewrites.walk_back (h : Rewrites l d e) (hd : d.find? l ≠ some .directory)
    (hw : e.walk j ns = .ok k) (hk : k ≠ l) : d.walk j ns = .ok k := by
  have hdir : ∀ i, e.find? i = some .directory → d.find? i = some .directory := by
    intro i hi
    have hil : i ≠ l := by
      rintro rfl
      exact h.target hd hi
    rwa [h.frame i hil] at hi
  induction ns generalizing j with
  | nil => exact hw
  | cons m ns ih =>
    obtain ⟨⟨hj, hlast⟩, hrest⟩ := walk_cons.1 hw
    refine walk_cons.2 ⟨⟨hdir j hj, ?_⟩, ih hrest⟩
    by_cases hdot : m = "."
    · exact .inl hdot
    · by_cases hup : m = ".."
      · exact .inr (.inl hup)
      · obtain ⟨hshort, hsome⟩ := (hlast.resolve_left hdot).resolve_left hup
        have hnext : follow j [m] = j ++ [m] := by simp [follow, hdot, hup]
        have hne : j ++ [m] ≠ l := by
          rintro rfl
          rw [hnext] at hrest
          exact hk (walk_through (h.target hd) hrest)
        rw [h.frame _ hne] at hsome
        exact .inr (.inr ⟨hshort, hsome⟩)

theorem Rewrites.inspect (h : Rewrites l d e) (hd : d.find? l ≠ some .directory)
    (hl : d.locate path ≠ l) : e.inspect path = d.inspect path := by
  have hback : ∀ k, e.resolve path = .ok k → d.resolve path = .ok k := by
    intro k hk
    have hkl : k ≠ l := by
      rw [resolve_eq_locate hk, h.grows.locate]
      exact hl
    obtain ⟨hc, hw, hs⟩ := resolve_eq_ok.1 hk
    rw [h.grows.start] at hw
    refine resolve_eq_ok.2 ⟨hc, h.walk_back hd hw hkl, fun ht ↦ ?_⟩
    rw [← h.frame k hkl]
    exact hs ht
  cases hr : d.resolve path with
  | ok k =>
    have hkl : k ≠ l := resolve_eq_locate hr ▸ hl
    simp [Disk.inspect, hr, h.grows.resolve hr, h.frame k hkl]
  | error fault =>
    cases hr' : e.resolve path with
    | ok k => cases (hback k hr').symm.trans hr
    | error fault' => simp [Disk.inspect, hr, hr']

theorem writeFile_frame (hl : d.locate path ≠ d.locate p.text) (append : Bool) (payload : Bytes) :
    (Reference.writeFile fileSystem d p append payload).2.inspect path = d.inspect path := by
  by_cases hd : d.find? (d.locate p.text) = some .directory
  · cases hn : p.native with
    | error e => simp [Reference.writeFile, Reference.name_eq, hn]
    | ok native =>
      obtain rfl := native_eq_text hn
      obtain ⟨fault, ht⟩ := resolveTarget_error (.inl hd)
      rw [writeFile_refused hn ht]
  · exact (writeFile_rewrites d p append payload).inspect hd hl

/-- A write that goes through has a place to go to. -/
theorem writeFile_ok (h : Reference.writeFile fileSystem d p append payload = (.ok (), e)) :
    ∃ l, d.resolveTarget p.text = .ok l ∧
      e = ((d.opened l (d.modeOf l append)).extended l payload).2 := by
  cases hn : p.native with
  | error fault =>
    simp only [Reference.writeFile, Reference.name_eq, hn] at h
    cases h
  | ok native =>
    obtain rfl := native_eq_text hn
    cases ht : d.resolveTarget p.text with
    | error fault => cases (writeFile_refused hn ht append payload).symm.trans h
    | ok l =>
      refine ⟨l, rfl, ?_⟩
      rw [writeFile_eq hn ht] at h
      split at h
      · cases h
      · split at h
        · cases h
        · next hx =>
          cases h
          rw [hx]

theorem opened_isSome (hl : l ≠ []) (mode : WriteMode) :
    ((d.opened l mode).find? l).isSome = true := by
  cases hf : d.find? l with
  | none => simp [opened, hf, find?_insert hl]
  | some n => cases n <;> cases mode <;> simp [opened, hf, find?_insert hl]

theorem extended_nothing (hl : l ≠ []) (k : Location) : (d.extended l []).2.find? k = d.find? k := by
  unfold extended
  split
  · next content hf =>
    rw [find?_insert hl, List.append_nil]
    split
    · next hk => rw [hk, hf]
    · rfl
  · rfl
  · rfl

/-- What is behind a write of nothing that goes through. -/
structure Emptied (d e : Disk) (path : String) (append : Bool) : Prop where
  elsewhere : ∀ k, k ≠ d.locate path → e.find? k = d.find? k
  created : d.find? (d.locate path) = none → e.find? (d.locate path) = some (.file [])
  emptied : append = false → ∀ content, d.find? (d.locate path) = some (.file content) →
    e.find? (d.locate path) = some (.file [])
  unchanged : append = true → (d.find? (d.locate path)).isSome = true →
    e.find? (d.locate path) = d.find? (d.locate path)
  /-- Devices and pipes are left as they are. -/
  special : ∀ n, n.isSpecial = true → d.find? (d.locate path) = some n →
    e.find? (d.locate path) = some n
  inspect : e.inspect path = e.find? (d.locate path)

theorem writeFile_nothing (h : Reference.writeFile fileSystem d p append [] = (.ok (), e)) :
    d.Emptied e p.text append := by
  obtain ⟨l, ht, he⟩ := writeFile_ok h
  obtain rfl := target_eq_locate ht
  have hl := target_ne_nil ht
  have hd := target_free ht
  have hframe := writeFile_rewrites d p append []
  rw [h] at hframe
  have hthere : e.find? (d.locate p.text) =
      (d.opened (d.locate p.text) (d.modeOf (d.locate p.text) append)).find? (d.locate p.text) := by
    rw [he, extended_nothing hl]
  refine ⟨hframe.frame, ?_, ?_, ?_, ?_, ?_⟩
  · intro hf
    simp [hthere, opened, hf, find?_insert hl]
  · rintro rfl content hf
    simp [hthere, modeOf, opened, hf, find?_insert hl]
  · rintro rfl hsome
    obtain ⟨n, hf⟩ := Option.isSome_iff_exists.1 hsome
    cases n <;> simp [hthere, modeOf, opened, hf]
  · intro n hn hf
    have hkept : d.opened (d.locate p.text) (d.modeOf (d.locate p.text) append) = d := by
      cases n <;> simp_all [opened, Node.isSpecial]
    rw [hthere, hkept, hf]
  · have hsome := opened_isSome (d := d) hl (d.modeOf (d.locate p.text) append)
    rw [← hthere] at hsome
    simp [Disk.inspect, hframe.grows.resolve_target ht hsome]

end Disk

end QueuedFiles
