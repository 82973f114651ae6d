import Mathlib.Data.List.Chain
import QueuedFiles.Json.Tree
import QueuedFiles.Proofs.Json.Reading
import QueuedFiles.Proofs.Lists

/-!
Trees as texts that can be read: whatever blanks a layout puts between them, the entries of an object
are read as the entries they are.
-/

namespace QueuedFiles.Json

open Bytes (ascii ofText)

variable {σ α : Type} {t : Bytes} {key : String} {x : List String × σ}

/-- A string that needs no escapes. -/
def Unescaped (t : Bytes) : Prop := ∀ b ∈ t, Plain b

-- Said with this instance, `decide` goes through the bytes of the string and not through all bytes.
instance : Decidable (Unescaped t) := List.decidableBAll Plain t

theorem spells_plain (h : Unescaped t) : Spells t t := by
  induction t with
  | nil => exact .nil
  | cons b t ih =>
    exact .plain (h b (List.mem_cons_self ..)) (ih fun c hc ↦ h c (List.mem_cons_of_mem _ hc))

theorem ofText_ascii {cs : List Char} (h : ∀ c ∈ cs, c.toNat ≤ 0x7f) :
    ofText (String.ofList cs) = cs.map ascii := by
  have hflat : ofText (String.ofList cs) = cs.flatMap String.utf8EncodeChar := by
    simp [Bytes.ofText, List.utf8Encode]
  have hone : ∀ c ∈ cs, String.utf8EncodeChar c = [ascii c] :=
    fun c hc ↦ if_pos (c := c.val.toNat ≤ 127) (h c hc)
  rw [hflat, List.flatMap_congr hone, List.map_eq_flatMap]

theorem ofText_repr (m : Nat) : ofText m.repr = decimal m :=
  ofText_ascii fun c hc ↦ by
    have hd := Nat.isDigit_of_mem_toDigits (by decide) (Nat.le_refl _) hc
    simp only [Char.isDigit, Bool.and_eq_true, decide_eq_true_eq, UInt32.le_iff_toNat_le] at hd
    exact Nat.le_trans hd.2 (by decide)

/-- What a layout puts between the parts of an object. -/
structure Spacing (entryBreak closeBreak : Nat → String) (colon : String) : Prop where
  entry : ∀ d, Blanks (ofText (entryBreak d))
  close : ∀ d, Blanks (ofText (closeBreak d))
  colon : ∃ lead, Blanks lead ∧ ofText colon = ascii ':' :: lead

theorem spacing_compact : Spacing (fun _ ↦ "") (fun _ ↦ "") ":" where
  entry _ := by simp [Blanks, Bytes.ofText]
  close _ := by simp [Blanks, Bytes.ofText]
  colon := ⟨[], by simp [Blanks], rfl⟩

theorem blanks_lineBreak (d : Nat) : Blanks (ofText (Tree.lineBreak d)) := by
  rw [Tree.lineBreak, ofText_ascii ?_]
  · intro b hb
    obtain ⟨c, hc, rfl⟩ := List.mem_map.1 hb
    rcases List.mem_cons.1 hc with rfl | hc
    · rfl
    · rw [List.eq_of_mem_replicate hc]
      rfl
  · intro c hc
    rcases List.mem_cons.1 hc with rfl | hc
    · decide
    · rw [List.eq_of_mem_replicate hc]
      decide

theorem spacing_pretty : Spacing (fun d ↦ Tree.lineBreak (d + 1)) Tree.lineBreak ": " where
  entry d := blanks_lineBreak (d + 1)
  close := blanks_lineBreak
  colon := ⟨[0x20], by simp [Blanks, Cursor.isBlank], rfl⟩

section

variable {entryBreak closeBreak : Nat → String} {colon : String} {d : Nat}
  {es : List (String × Tree)}

/-- An entry as an object has it: the key, and the text of the tree one level further in. -/
def written (entryBreak closeBreak : Nat → String) (colon : String) (d : Nat) (e : String × Tree) :
    Bytes × Bytes :=
  (ofText e.1, ofText (e.2.write entryBreak closeBreak colon (d + 1)))

theorem text_natural (key : String) (m : Nat) :
    (written entryBreak closeBreak colon d (key, .natural m)).2 = decimal m := by
  rw [written, Tree.write, ofText_repr]

variable (hs : Spacing entryBreak closeBreak colon)

include hs

theorem exists_entry (e : String × Tree) (hkey : Unescaped (ofText e.1)) :
    ∃ e' : Entry, e'.pair = written entryBreak closeBreak colon d e ∧
      e'.text = ofText (entryBreak d) ++
        ofText (Tree.write.writeEntry entryBreak closeBreak colon d e) := by
  obtain ⟨lead, hlead, hcolon⟩ := hs.colon
  have hnil : Blanks [] := by simp [Blanks]
  obtain ⟨key, t⟩ := e
  refine ⟨⟨ofText key, ofText (t.write entryBreak closeBreak colon (d + 1)), ofText (entryBreak d),
    ofText key, [], lead, [], spells_plain hkey, hs.entry d, hnil, hlead, hnil⟩, rfl, ?_⟩
  have hquote : ofText "\"" = [ascii '"'] := rfl
  simp [Tree.write.writeEntry, Entry.text, Bytes.ofText_append, hquote, hcolon]

theorem exists_entries (hkeys : ∀ e ∈ es, Unescaped (ofText e.1)) :
    ∃ es' : List Entry, es'.map Entry.pair = es.map (written entryBreak closeBreak colon d) ∧
      ofText (Tree.write.writeEntries entryBreak closeBreak colon d es) =
        (es'.map Entry.text).flatMap (ascii ',' :: ·) := by
  induction es with
  | nil => exact ⟨[], rfl, rfl⟩
  | cons e es ih =>
    obtain ⟨es', hpairs, htext⟩ := ih fun e he ↦ hkeys e (List.mem_cons_of_mem _ he)
    obtain ⟨e', hpair, hentry⟩ := exists_entry (d := d) hs e (hkeys e (List.mem_cons_self ..))
    refine ⟨e' :: es', by rw [List.map_cons, List.map_cons, hpair, hpairs], ?_⟩
    have hcomma : ofText "," = [ascii ','] := rfl
    simp [Tree.write.writeEntries, Bytes.ofText_append, hcomma, htext, hentry]

theorem exists_object (hkeys : ∀ e ∈ es, Unescaped (ofText e.1)) :
    ∃ (es' : List Entry) (tail : Bytes), Blanks tail ∧
      es'.map Entry.pair = es.map (written entryBreak closeBreak colon d) ∧
      ofText ((Tree.object es).write entryBreak closeBreak colon d) = Entry.object es' tail := by
  have hopen : ofText "\x7b" = [ascii '\x7b'] := rfl
  have hclose : ofText "\x7d" = [ascii '\x7d'] := rfl
  cases es with
  | nil => exact ⟨[], [], by simp [Blanks], rfl, rfl⟩
  | cons e es =>
    obtain ⟨es', hpairs, htext⟩ :=
      exists_entries (d := d) hs fun e he ↦ hkeys e (List.mem_cons_of_mem _ he)
    obtain ⟨e', hpair, hentry⟩ := exists_entry (d := d) hs e (hkeys e (List.mem_cons_self ..))
    refine ⟨e' :: es', ofText (closeBreak d), hs.close d,
      by rw [List.map_cons, List.map_cons, hpair, hpairs], ?_⟩
    simp [Tree.write, Bytes.ofText_append, hopen, hclose, htext, hentry, Entry.object, joined]

/-- A record written field by field is read back, if each of its values is. -/
theorem reads_tree (rec : Record σ α) (qs : List ((String × Tree) × (σ → σ)))
    (hplain : ∀ f ∈ rec.fields, Unescaped (ofText f.name))
    (hnames : (rec.fields.map fun f ↦ ofText f.name).Nodup)
    (h : List.Forall₂ (fun f q ↦ f.name = q.1.1 ∧ ∀ s,
      Reads (f.value s) (written entryBreak closeBreak colon d q.1).2 (q.2 s)) rec.fields qs) {a : α}
    (hfinish : rec.finish (qs.foldl (fun s q ↦ q.2 s) rec.start) = .ok a) :
    Reads rec.reader
      (ofText ((Tree.object (qs.map Prod.fst)).write entryBreak closeBreak colon d)) a := by
  have hsame : rec.fields.map (fun f ↦ ofText f.name) = qs.map fun q ↦ ofText q.1.1 := by
    rw [← List.forall₂_eq_eq_eq, List.forall₂_map_left_iff, List.forall₂_map_right_iff]
    exact h.imp fun f q hfq ↦ congrArg ofText hfq.1
  have hfield : ∀ q ∈ qs, ∃ f ∈ rec.fields, f.name = q.1.1 ∧ ∀ s,
      Reads (f.value s) (written entryBreak closeBreak colon d q.1).2 (q.2 s) :=
    fun q hq ↦ exists_of_forall₂ h hq
  have hkeys : ∀ e ∈ qs.map Prod.fst, Unescaped (ofText e.1) := by
    intro e he
    obtain ⟨q, hq, rfl⟩ := List.mem_map.1 he
    obtain ⟨f, hf, hname, -⟩ := hfield q hq
    exact hname ▸ hplain f hf
  obtain ⟨es', tail, htail, hpairs, htext⟩ := exists_object (d := d) hs hkeys
  rw [htext]
  let steps : List (Step σ) := qs.map fun q ↦ (written entryBreak closeBreak colon d q.1, q.2)
  have hstepKeys : steps.map (·.1.1) = rec.fields.map fun f ↦ ofText f.name := by
    rw [hsame, List.map_map]
    rfl
  refine reads_steps steps hnames (hstepKeys ▸ hnames) ?_ (.inr ?_) ?_ ?_ htail
  · intro p hp
    obtain ⟨q, hq, rfl⟩ := List.mem_map.1 hp
    obtain ⟨f, hf, hname, hreads⟩ := hfield q hq
    exact .inl ⟨f, hf, congrArg ofText hname, hreads⟩
  · intro f hf
    rw [hstepKeys]
    exact List.mem_map_of_mem hf
  · rw [List.foldl_map]
    exact hfinish
  · rw [hpairs, List.map_map, List.map_map]
    rfl

theorem reads_table_tree {tab : Table σ} {met : List String} {s : σ}
    (hkeys : ∀ e ∈ es, Unescaped (ofText e.1))
    (h : EntersAll tab.choose ([], tab.start) (es.map (written entryBreak closeBreak colon d))
      (met, s)) :
    Reads tab.reader (ofText ((Tree.object es).write entryBreak closeBreak colon d)) s := by
  obtain ⟨es', tail, htail, hpairs, htext⟩ := exists_object (d := d) hs hkeys
  rw [htext]
  exact reads_table (hpairs ▸ h) htail

end

/-! No text of a tree holds the word for nothing. -/

/-- No two letters `l` in a row, and none in front. -/
def Quiet (t : Bytes) : Prop :=
  t.IsChain (fun a b ↦ ¬ (a = ascii 'l' ∧ b = ascii 'l')) ∧ t.head? ≠ some (ascii 'l')

instance : Decidable (Quiet t) :=
  inferInstanceAs (Decidable (_ ∧ _))

theorem Quiet.append {u : Bytes} (ht : Quiet t) (hu : Quiet u) : Quiet (t ++ u) := by
  refine ⟨List.isChain_append.2 ⟨ht.1, hu.1, ?_⟩, ?_⟩
  · rintro a - b hb ⟨-, rfl⟩
    exact hu.2 hb
  · cases t with
    | nil => exact hu.2
    | cons b t => exact ht.2

theorem quiet_of_not_mem (h : ascii 'l' ∉ t) : Quiet t := by
  refine ⟨?_, fun hhead ↦ h (List.mem_of_mem_head? hhead)⟩
  induction t with
  | nil => exact .nil
  | cons b t ih =>
    refine List.isChain_cons.2 ⟨fun c _ hbc ↦ h (hbc.1 ▸ List.mem_cons_self ..), ih fun hmem ↦ ?_⟩
    exact h (List.mem_cons_of_mem _ hmem)

theorem Quiet.no_null (h : Quiet t) : ¬ ofText "null" <:+: t := by
  intro hnull
  obtain ⟨before, after, rfl⟩ := hnull
  exact absurd h.1.left_of_append.right_of_append (by decide)

theorem quiet_repr (m : Nat) : Quiet (ofText m.repr) := by
  rw [ofText_repr]
  exact quiet_of_not_mem fun hmem ↦ absurd ((whole_decimal m).digits_all.2 _ hmem) (by decide)

theorem quiet_lineBreak (d : Nat) : Quiet (ofText (Tree.lineBreak d)) :=
  quiet_of_not_mem fun hmem ↦ absurd (blanks_lineBreak d _ hmem) (by decide)

/-- Blanks and colons without any letter `l` that could be part of the word. -/
structure QuietSpacing (entryBreak closeBreak : Nat → String) (colon : String) : Prop where
  entry : ∀ d, Quiet (ofText (entryBreak d))
  close : ∀ d, Quiet (ofText (closeBreak d))
  colon : Quiet (ofText colon)

theorem quietSpacing_pretty :
    QuietSpacing (fun d ↦ Tree.lineBreak (d + 1)) Tree.lineBreak ": " where
  entry d := quiet_lineBreak (d + 1)
  close := quiet_lineBreak
  colon := by decide

theorem quiet_object {entryBreak closeBreak : Nat → String} {colon : String} {d : Nat}
    {es : List (String × Tree)} (hs : QuietSpacing entryBreak closeBreak colon)
    (h : ∀ e ∈ es, Quiet (ofText e.1) ∧
      Quiet (ofText (e.2.write entryBreak closeBreak colon (d + 1)))) :
    Quiet (ofText ((Tree.object es).write entryBreak closeBreak colon d)) := by
  have hquote : Quiet (ofText "\"") := by decide
  have hone : ∀ e ∈ es,
      Quiet (ofText (Tree.write.writeEntry entryBreak closeBreak colon d e)) := by
    intro ⟨key, v⟩ he
    obtain ⟨hkey, hvalue⟩ := h _ he
    simp only [Tree.write.writeEntry, Bytes.ofText_append]
    exact (((hquote.append hkey).append hquote).append hs.colon).append hvalue
  have hall : ∀ rest : List (String × Tree), (∀ e ∈ rest, e ∈ es) →
      Quiet (ofText (Tree.write.writeEntries entryBreak closeBreak colon d rest)) := by
    intro rest
    induction rest with
    | nil => exact fun _ ↦ (by decide : Quiet (ofText ""))
    | cons e rest ih =>
      intro hsub
      have hfirst := hone e (hsub e (List.mem_cons_self ..))
      have hrest := ih fun e he ↦ hsub e (List.mem_cons_of_mem _ he)
      simp only [Tree.write.writeEntries, Bytes.ofText_append]
      exact ((Quiet.append (by decide) (hs.entry d)).append hfirst).append hrest
  cases es with
  | nil => exact (by decide : Quiet (ofText "\x7b\x7d"))
  | cons e es =>
    have hfirst := hone e (List.mem_cons_self ..)
    have hrest := hall es fun e he ↦ List.mem_cons_of_mem _ he
    have hopen : Quiet (ofText "\x7b" ++ ofText (entryBreak d)) :=
      Quiet.append (by decide) (hs.entry d)
    simp only [Tree.write, Bytes.ofText_append]
    exact (((hopen.append hfirst).append hrest).append (hs.close d)).append (by decide)

end QueuedFiles.Json
