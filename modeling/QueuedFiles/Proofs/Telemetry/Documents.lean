import QueuedFiles.Proofs.Decimal.Rendering
import QueuedFiles.Proofs.Duration
import QueuedFiles.Proofs.Telemetry.Merging
import QueuedFiles.Telemetry.Snapshot

/-!
Documents of telemetry. Counters, times and durations are read back from them as they were written,
in any layout and whatever order the activities come in.
-/

namespace QueuedFiles

open Bytes (ofText)
open Json Decimal

variable {entryBreak closeBreak : Nat → String} {colon : String} {d : Nat}

namespace Duration

-- `finish_eq` is said of the function and not of its values: unfolded at one, the sum of the parts
-- would be counted nanosecond by nanosecond.
theorem finish_eq : record.finish = fun d ↦ match ofParts? d.1 d.2 with
    | some d => .ok d
    | none => .error .durationTooLong :=
  rfl

theorem finish_of_parts {p : UInt64 × Nat} {x : Duration} (h : ofParts? p.1 p.2 = some x) :
    record.finish p = .ok x := by
  rw [finish_eq]
  beta_reduce
  rw [h]

theorem ofParts?_self (x : Duration) : ofParts? x.seconds x.nanos = some x := by
  have h := ofNanos?_toNanos x
  rw [toNanos, ← ofParts?] at h
  exact h

theorem finish_self (x : Duration) {p : UInt64 × Nat} (hp : p = (x.seconds, x.nanos)) :
    record.finish p = .ok x := by
  apply finish_of_parts
  rw [hp]
  exact ofParts?_self x

theorem reads_tree (hs : Spacing entryBreak closeBreak colon) (x : Duration) :
    Reads record.reader (ofText (x.tree.write entryBreak closeBreak colon d)) x := by
  have hnanos : x.nanos ≤ UInt32.size - 1 := by
    have := x.nanos_lt
    have : UInt32.size = 4294967296 := rfl
    omega
  refine Json.reads_tree hs record [
    (("secs", .natural x.seconds.toNat), fun s ↦ (x.seconds, s.2)),
    (("nanos", .natural x.nanos), fun s ↦ (s.1, x.nanos))] (by decide) (by decide)
    (.cons ⟨rfl, fun s ↦ ?_⟩ (.cons ⟨rfl, fun s ↦ ?_⟩ .nil)) (finish_self x rfl)
  · rw [text_natural]
    exact reads_word "u64" x.seconds fun n ↦ (n, s.2)
  · rw [text_natural]
    exact (reads_natural "u32" hnanos (by decide)).map fun n ↦ (s.1, n)

end Duration

namespace Telemetry

namespace Column

def name : Column → String
  | readsCompleted => "reads_completed"
  | writesCompleted => "writes_completed"
  | compressions => "compressions"
  | decompressions => "decompressions"
  | failures => "failures"
  | abandoned => "abandoned"
  | bytesRead => "bytes_read"
  | bytesWritten => "bytes_written"
  | bytesPlain => "bytes_plain"
  | bytesCompressed => "bytes_compressed"

def set (c : Counters) (n : UInt64) : Column → Counters
  | readsCompleted => { c with readsCompleted := n }
  | writesCompleted => { c with writesCompleted := n }
  | compressions => { c with compressions := n }
  | decompressions => { c with decompressions := n }
  | failures => { c with failures := n }
  | abandoned => { c with abandoned := n }
  | bytesRead => { c with bytesRead := n }
  | bytesWritten => { c with bytesWritten := n }
  | bytesPlain => { c with bytesPlain := n }
  | bytesCompressed => { c with bytesCompressed := n }

def all : List Column := [readsCompleted, writesCompleted, compressions, decompressions, failures,
  abandoned, bytesRead, bytesWritten, bytesPlain, bytesCompressed]

def field (col : Column) : Json.Field Counters := Counters.field col.name fun c n ↦ col.set c n

theorem fields_eq : Counters.record.fields = all.map field := rfl

theorem tree_eq (c : Counters) :
    c.tree = .object (all.map fun col ↦ (col.name, .natural (col.value c).toNat)) := rfl

@[simp] theorem value_set (col other : Column) (c : Counters) (n : UInt64) :
    other.value (col.set c n) = if other = col then n else other.value c := by
  cases col <;> cases other <;> rfl

theorem value_foldl_set (c s : Counters) (cols : List Column) (col : Column) :
    col.value (cols.foldl (fun s col ↦ col.set s (col.value c)) s) =
      if col ∈ cols then col.value c else col.value s := by
  induction cols generalizing s with
  | nil => rfl
  | cons other cols ih =>
    rw [List.foldl_cons, ih, value_set]
    by_cases h : col = other
    · simp [h]
    · simp [h]

theorem foldl_set (c : Counters) : all.foldl (fun s col ↦ col.set s (col.value c)) .zero = c := by
  refine Column.ext fun col ↦ ?_
  have hmem : col ∈ all := by cases col <;> decide
  rw [value_foldl_set, if_pos hmem]

end Column

theorem Counters.reads_tree (hs : Spacing entryBreak closeBreak colon) (c : Counters) :
    Reads record.reader (ofText (c.tree.write entryBreak closeBreak colon d)) c := by
  let qs : List ((String × Tree) × (Counters → Counters)) := Column.all.map fun col ↦
    ((col.name, .natural (col.value c).toNat), fun s ↦ col.set s (col.value c))
  have hentries : qs.map Prod.fst =
      Column.all.map fun col ↦ (col.name, .natural (col.value c).toNat) := List.map_map
  rw [Column.tree_eq, ← hentries]
  refine Json.reads_tree hs record qs (by decide) (by decide) ?_ ?_
  · rw [Column.fields_eq, List.forall₂_map_left_iff, List.forall₂_map_right_iff, List.forall₂_same]
    refine fun col _ ↦ ⟨rfl, fun s ↦ ?_⟩
    rw [text_natural]
    exact reads_word "u64" _ fun n ↦ col.set s n
  · rw [List.foldl_map]
    exact congrArg Except.ok (Column.foldl_set c)

namespace StageTimes

variable {order : List Activity}

def field (a : Activity) : Json.Field StageTimes :=
  ⟨a.key, fun t ↦ Duration.record.reader.map (t.insert a)⟩

theorem choose_key (a : Activity) (met : List String) (c : Cursor) :
    table.choose met (ofText a.key) c = .ok (some (field a)) := by
  cases a <;> rfl

theorem unescaped_key (a : Activity) : Unescaped (ofText a.key) := by
  cases a <;> decide

/-- Times written one after the other are entered one after the other. -/
theorem exists_entersAll (hs : Spacing entryBreak closeBreak colon)
    (ps : List (Activity × Duration)) (met : List String) (s : StageTimes) :
    ∃ met', EntersAll table.choose (met, s)
      (ps.map fun p ↦ written entryBreak closeBreak colon d (p.1.key, p.2.tree))
      (met', ps.foldl (fun s p ↦ s.insert p.1 p.2) s) := by
  induction ps generalizing met s with
  | nil => exact ⟨met, .nil⟩
  | cons p ps ih =>
    obtain ⟨a, x⟩ := p
    obtain ⟨met', h⟩ := ih (a.key :: met) (s.insert a x)
    have hreads := (x.reads_tree (d := d + 1) hs).map (s.insert a)
    exact ⟨met', .cons (.field (field a) (choose_key a met) hreads) h⟩

/-- A time that was not entered before is entered once its activity comes up in the order. -/
theorem foldl_present (t : StageTimes) (s : StageTimes)
    (hsub : ∀ a, s.find? a = none ∨ s.find? a = t.find? a)
    (hrest : ∀ a, a ∉ order → s.find? a = t.find? a) :
    (t.present order).foldl (fun s p ↦ s.insert p.1 p.2) s = t := by
  induction order generalizing s with
  | nil => exact ext_find fun a ↦ hrest a (by simp)
  | cons a order ih =>
    have hother : ∀ b, b ≠ a → b ∉ order → b ∉ a :: order :=
      fun b ↦ List.not_mem_cons_of_ne_of_not_mem
    cases ha : t.find? a with
    | none =>
      have hskip : t.present (a :: order) = t.present order := by simp [present, ha]
      rw [hskip]
      refine ih s hsub fun b hb ↦ ?_
      by_cases hba : b = a
      · have h := hsub b
        rwa [hba, ha, or_self, ← ha, ← hba] at h
      · exact hrest b (hother b hba hb)
    | some x =>
      have htake : t.present (a :: order) = (a, x) :: t.present order := by simp [present, ha]
      rw [htake, List.foldl_cons]
      refine ih _ (fun b ↦ ?_) fun b hb ↦ ?_
      · rw [find?_insert]
        split
        · next hba => exact .inr (hba ▸ ha.symm)
        · exact hsub b
      · rw [find?_insert]
        split
        · next hba => exact hba ▸ ha.symm
        · next hba => exact hrest b (hother b hba hb)

theorem present_self (t : StageTimes) (h : order.Perm Activity.all) :
    (t.present order).foldl (fun s p ↦ s.insert p.1 p.2) empty = t := by
  have hmem : ∀ a, a ∈ order := by
    intro a
    rw [h.mem_iff]
    cases a <;> decide
  refine foldl_present t empty (fun a ↦ .inl ?_) fun a ha ↦ absurd (hmem a) ha
  cases a <;> rfl

theorem reads_times (hs : Spacing entryBreak closeBreak colon) (t : StageTimes)
    (h : order.Perm Activity.all) :
    Reads table.reader (ofText ((Tree.object ((t.present order).map fun p ↦
      (p.1.key, p.2.tree))).write entryBreak closeBreak colon d)) t := by
  obtain ⟨met, henters⟩ := exists_entersAll (d := d) hs (t.present order) [] empty
  rw [present_self t h] at henters
  refine reads_table_tree hs (fun e he ↦ ?_) (?_ : EntersAll _ _ _ (met, t))
  · obtain ⟨p, -, rfl⟩ := List.mem_map.1 he
    exact unescaped_key p.1
  · rw [List.map_map]
    exact henters

theorem reads_tree (hs : Spacing entryBreak closeBreak colon) (t : StageTimes)
    (h : order.Perm Activity.all) :
    Reads record.reader (ofText ((t.tree order).write entryBreak closeBreak colon d)) t := by
  let qs : List ((String × Tree) × (StageTimes → StageTimes)) :=
    [(("times", .object ((t.present order).map fun p ↦ (p.1.key, p.2.tree))), fun _ ↦ t)]
  have htree : t.tree order = .object (qs.map Prod.fst) := rfl
  rw [htree]
  refine Json.reads_tree hs record qs (by decide) (by decide)
    (.cons ⟨rfl, fun _ ↦ ?_⟩ .nil) rfl
  exact reads_times hs t h

end StageTimes

/-! The ratio. -/

theorem ratio_of_div {c : Counters} {x y z : Binary64} (hplain : c.bytesPlain ≠ 0)
    (hx : Binary64.ofNat c.bytesCompressed.toNat = some x)
    (hy : Binary64.ofNat c.bytesPlain.toNat = some y) (hz : x.div y = some z) : c.ratio = z := by
  rw [Counters.ratio, if_neg hplain, hx, hy]
  exact congrArg (·.getD (.zero false)) hz

/-- The quotient of two words is never out of range. -/
theorem ratio_spec (c : Counters) : c.ratio.Moderate ∧
    (c.bytesPlain = 0 ∧ c.ratio = .zero false ∨ ∃ x y,
      Binary64.ofNat c.bytesCompressed.toNat = some x ∧
        Binary64.ofNat c.bytesPlain.toNat = some y ∧ y.isZero = false ∧ x.div y = some c.ratio) := by
  by_cases hplain : c.bytesPlain = 0
  · have hratio : c.ratio = .zero false := if_pos hplain
    exact ⟨⟨hratio ▸ rfl, .inl hratio⟩, .inl ⟨hplain, hratio⟩⟩
  have hne : c.bytesPlain.toNat ≠ 0 := fun h ↦ hplain (UInt64.toNat_inj.1 h)
  obtain ⟨y, hy, hyneg, hysize⟩ :=
    Binary64.exists_ofNat hne c.bytesPlain.toNat_lt (by decide)
  by_cases hcompressed : c.bytesCompressed.toNat = 0
  · have hx : Binary64.ofNat c.bytesCompressed.toNat = some (.zero false) := by
      rw [hcompressed]
      exact Binary64.ofQuotient_zero
    have hdiv : (Binary64.zero false).div y = some (.zero false) := by
      rw [Binary64.div, Binary64.quotient_of_significand rfl, Nat.zero_mul,
        Binary64.ofQuotient_zero, hyneg]
      rfl
    have hratio := ratio_of_div hplain hx hy hdiv
    rw [hratio]
    exact ⟨⟨rfl, .inl rfl⟩, .inr ⟨_, y, hx, hy, hysize.isZero, hdiv⟩⟩
  · obtain ⟨x, hx, hxneg, hxsize⟩ :=
      Binary64.exists_ofNat hcompressed c.bytesCompressed.toNat_lt (by decide)
    obtain ⟨z, hdiv, hzneg, hzsize⟩ := Binary64.exists_div hxsize hysize (by decide) (by decide)
    have hratio := ratio_of_div hplain hx hy hdiv
    rw [hratio]
    refine ⟨⟨?_, .inr (hzsize.mono (by decide) (by decide))⟩,
      .inr ⟨x, y, hx, hy, hysize.isZero, hdiv⟩⟩
    rw [hzneg, hxneg, hyneg]
    rfl

namespace Snapshot

variable {s : Snapshot} {ratio : String} {order : List Activity}

/-- Everything but the ratio is read back as it was written. -/
theorem reads_tree (hs : Spacing entryBreak closeBreak colon) (h : order.Perm Activity.all)
    {y : Binary64} (hy : Reads Json.double64 (ofText ratio) y) :
    Reads record.reader (ofText ((s.tree ratio order).write entryBreak closeBreak colon d))
      { s with ratio := y } := by
  let qs : List ((String × Tree) × (Snapshot → Snapshot)) := [
    (("counters", s.counters.tree), fun u ↦ { u with counters := s.counters }),
    (("compression_ratio", .number ratio), fun u ↦ { u with ratio := y }),
    (("elapsed", s.elapsed.tree), fun u ↦ { u with elapsed := s.elapsed }),
    (("stage_times", s.stageTimes.tree order), fun u ↦ { u with stageTimes := s.stageTimes })]
  have htree : s.tree ratio order = .object (qs.map Prod.fst) := rfl
  rw [htree]
  refine Json.reads_tree hs record qs (by decide) (by decide) ?_ rfl
  refine .cons ⟨rfl, fun u ↦ ?_⟩ (.cons ⟨rfl, fun u ↦ ?_⟩ (.cons ⟨rfl, fun u ↦ ?_⟩
    (.cons ⟨rfl, fun u ↦ ?_⟩ .nil)))
  · exact (s.counters.reads_tree hs).map fun c ↦ { u with counters := c }
  · exact hy.map fun x ↦ { u with ratio := x }
  · exact (s.elapsed.reads_tree hs).map fun x ↦ { u with elapsed := x }
  · exact (s.stageTimes.reads_tree hs h).map fun t ↦ { u with stageTimes := t }

/-! The word for nothing stands nowhere. -/

theorem quiet_name (col : Column) : Quiet (ofText col.name) := by
  cases col <;> decide

theorem quiet_key (a : Activity) : Quiet (ofText a.key) := by
  cases a <;> decide

theorem quiet_words (hs : QuietSpacing entryBreak closeBreak colon) {ns : List (String × Nat)}
    (h : ∀ p ∈ ns, Quiet (ofText p.1)) :
    Quiet (ofText ((Tree.object (ns.map fun p ↦ (p.1, .natural p.2))).write
      entryBreak closeBreak colon d)) := by
  refine quiet_object hs fun e he ↦ ?_
  obtain ⟨p, hp, rfl⟩ := List.mem_map.1 he
  exact ⟨h p hp, quiet_repr p.2⟩

theorem quiet_counters (hs : QuietSpacing entryBreak closeBreak colon) (c : Counters) :
    Quiet (ofText (c.tree.write entryBreak closeBreak colon d)) := by
  have htree : c.tree = .object ((Column.all.map fun col ↦
      (col.name, (col.value c).toNat)).map fun p ↦ (p.1, .natural p.2)) := rfl
  rw [htree]
  refine quiet_words hs fun p hp ↦ ?_
  obtain ⟨col, -, rfl⟩ := List.mem_map.1 hp
  exact quiet_name col

theorem quiet_duration (hs : QuietSpacing entryBreak closeBreak colon) (x : Duration) :
    Quiet (ofText (x.tree.write entryBreak closeBreak colon d)) := by
  have htree : x.tree = .object ([("secs", x.seconds.toNat), ("nanos", x.nanos)].map fun p ↦
      (p.1, .natural p.2)) := rfl
  rw [htree]
  refine quiet_words hs fun p hp ↦ ?_
  simp only [List.mem_cons, List.not_mem_nil, or_false] at hp
  rcases hp with rfl | rfl
  · exact (by decide : Quiet (ofText "secs"))
  · exact (by decide : Quiet (ofText "nanos"))

theorem quiet_times (hs : QuietSpacing entryBreak closeBreak colon) (t : StageTimes) :
    Quiet (ofText ((t.tree order).write entryBreak closeBreak colon d)) := by
  have htimes : Quiet (ofText "times") := by decide
  refine quiet_object hs (List.forall_mem_singleton.2 ⟨htimes, quiet_object hs fun e he ↦ ?_⟩)
  obtain ⟨⟨a, x⟩, -, rfl⟩ := List.mem_map.1 he
  exact ⟨quiet_key a, quiet_duration hs x⟩

theorem quiet_tree (hs : QuietSpacing entryBreak closeBreak colon) (s : Snapshot)
    (hratio : Quiet (ofText ratio)) :
    Quiet (ofText ((s.tree ratio order).write entryBreak closeBreak colon d)) := by
  refine quiet_object hs fun e he ↦ ?_
  simp only [List.mem_cons, List.not_mem_nil, or_false] at he
  rcases he with rfl | rfl | rfl | rfl
  · exact ⟨(by decide : Quiet (ofText "counters")), quiet_counters hs s.counters⟩
  · exact ⟨(by decide : Quiet (ofText "compression_ratio")), hratio⟩
  · exact ⟨(by decide : Quiet (ofText "elapsed")), quiet_duration hs s.elapsed⟩
  · exact ⟨(by decide : Quiet (ofText "stage_times")), quiet_times hs s.stageTimes⟩

/-- The document with any readable number in the place of the ratio. -/
theorem renderWith_spec (s : Snapshot) (h : order.Perm Activity.all) (hratio : ReadableNumber ratio) :
    ¬ ofText "null" <:+: ofText (s.renderWith ratio order) ∧
      ∃ y, parse (ofText (s.renderWith ratio order)) = .ok { s with ratio := y } := by
  obtain ⟨hsigned, y, hy⟩ := hratio
  refine ⟨(quiet_tree quietSpacing_pretty s (quiet_of_not_mem hsigned.not_mem)).no_null, y, ?_⟩
  have hnil : Blanks [] := by simp [Blanks]
  have hdoc := (reads_tree (s := s) (d := 0) spacing_pretty h
    (reads_of_document hsigned hy)).document hnil hnil
  rwa [List.nil_append, List.append_nil] at hdoc

end Snapshot

/-- Whatever the counters and the times are, their ratio is a finite double, their document does not
have the word for nothing in it, and all but the ratio is read back as it was, whatever order the
activities are listed in, and whatever number the reader takes stands for the ratio. Counters on
their own are read back as they were, too. -/
theorem snapshot_documents (c : Counters) (t : StageTimes) (elapsed : Duration) :
    (c.ratio.Finite ∧ (c.bytesPlain = 0 ∧ c.ratio = .zero false ∨ ∃ x y,
      Binary64.ofNat c.bytesCompressed.toNat = some x ∧
        Binary64.ofNat c.bytesPlain.toNat = some y ∧ y.isZero = false ∧
        x.div y = some c.ratio)) ∧
    (∀ order : List Activity, order.Perm Activity.all →
      (¬ ofText "null" <:+: ofText ((Snapshot.take c t elapsed).render order) ∧
        ∃ s, Snapshot.parse (ofText ((Snapshot.take c t elapsed).render order)) = .ok s ∧
          s.counters = c ∧ s.elapsed = elapsed ∧ s.stageTimes = t) ∧
      ∀ ratio, ReadableNumber ratio →
        ¬ ofText "null" <:+: ofText ((Snapshot.take c t elapsed).renderWith ratio order) ∧
        ∃ s, Snapshot.parse (ofText ((Snapshot.take c t elapsed).renderWith ratio order)) = .ok s ∧
          s.counters = c ∧ s.elapsed = elapsed ∧ s.stageTimes = t) ∧
    Counters.parse (ofText c.render) = .ok c := by
  have hnil : Blanks [] := by simp [Blanks]
  obtain ⟨hmoderate, hquotient⟩ := ratio_spec c
  have hany : ∀ order : List Activity, order.Perm Activity.all → ∀ ratio, ReadableNumber ratio →
      ¬ ofText "null" <:+: ofText ((Snapshot.take c t elapsed).renderWith ratio order) ∧
      ∃ s, Snapshot.parse (ofText ((Snapshot.take c t elapsed).renderWith ratio order)) = .ok s ∧
        s.counters = c ∧ s.elapsed = elapsed ∧ s.stageTimes = t := by
    intro order h ratio hratio
    obtain ⟨hnull, y, hdoc⟩ := (Snapshot.take c t elapsed).renderWith_spec h hratio
    exact ⟨hnull, _, hdoc, rfl, rfl, rfl⟩
  refine ⟨⟨hmoderate.finite, hquotient⟩, fun order h ↦ ⟨?_, hany order h⟩, ?_⟩
  · exact hany order h _ hmoderate.readable
  · have hdoc := (c.reads_tree (d := 0) spacing_compact).document hnil hnil
    rwa [List.nil_append, List.append_nil] at hdoc

theorem snapshot_documents_shuffled :
    let snapshot : Snapshot := .take ⟨1, 2, 3, 4, 5, 6, 7, 8, 9, 18446744073709551615⟩
      ⟨some .zero, none, some ⟨18446744073709551615, 999999999, by decide⟩, none⟩
      ⟨3, 5, by decide⟩
    let order : List Activity := [.compress, .read, .decompress, .write]
    order.Perm Activity.all ∧ ReadableNumber "-2.5E+1" ∧
      ∃ s s', Snapshot.parse (ofText (snapshot.render order)) = .ok s ∧
        s.stageTimes.read = some .zero ∧ s.stageTimes.write = none ∧
        s.counters.bytesCompressed = 18446744073709551615 ∧
        Snapshot.parse (ofText (snapshot.renderWith "-2.5E+1" order)) = .ok s' ∧
        s'.counters = s.counters ∧ s'.elapsed = s.elapsed ∧ s'.stageTimes = s.stageTimes := by
  have hperm : [Activity.compress, .read, .decompress, .write].Perm Activity.all := by decide
  have hwhole : Whole (ofText "2") := .digits rfl (by decide) (by simp)
  have hfraction : Fractional (ofText ".5") := .digits ⟨by simp, List.forall_mem_singleton.2 rfl⟩
  have hexponent : Exponential (ofText "E+1") :=
    .digits (.inr rfl) (.inr (.inl rfl)) ⟨by simp, List.forall_mem_singleton.2 rfl⟩
  have hnumeral : Numeral (ofText "2.5E+1") := ⟨hwhole, hfraction, hexponent⟩
  have hratio : ReadableNumber "-2.5E+1" := ⟨.negative hnumeral, _, rfl⟩
  have h := snapshot_documents ⟨1, 2, 3, 4, 5, 6, 7, 8, 9, 18446744073709551615⟩
    ⟨some .zero, none, some ⟨18446744073709551615, 999999999, by decide⟩, none⟩ ⟨3, 5, by decide⟩
  obtain ⟨⟨-, s, hs, hcounters, helapsed, htimes⟩, hany⟩ := h.2.1 _ hperm
  obtain ⟨-, s', hs', hcounters', helapsed', htimes'⟩ := hany _ hratio
  refine ⟨hperm, hratio, s, s', hs, ?_, ?_, ?_, hs', ?_, ?_, ?_⟩
  · rw [htimes]
  · rw [htimes]
  · rw [hcounters]
  · rw [hcounters', hcounters]
  · rw [helapsed', helapsed]
  · rw [htimes', htimes]

end Telemetry

end QueuedFiles
