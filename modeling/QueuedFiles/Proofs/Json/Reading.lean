import QueuedFiles.Json.Document
import QueuedFiles.Json.Record
import QueuedFiles.Json.Table
import QueuedFiles.Proofs.Json.Decimal
import QueuedFiles.Proofs.Json.Skipping

/-!
What readers of numbers, records and tables make of texts. A record read from an object is put
together entry by entry, whatever stands between the entries.
-/

namespace QueuedFiles.Json

open Bytes (ascii)

variable {α β σ : Type} {n m : Nat} {t r w : Bytes}

/-- Wherever `t` stands in front of a stop, the reader makes `a` of it. -/
def Reads (rd : Reader α) (t : Bytes) (a : α) : Prop :=
  ∀ (n : Nat) (w r : Bytes), Blanks w → Stops r →
    rd.read ⟨n, w ++ (t ++ r)⟩ = .ok (a, ⟨n + (w.length + t.length), r⟩)

theorem Reads.map {rd : Reader α} {a : α} (h : Reads rd t a) (f : α → β) :
    Reads (rd.map f) t (f a) := by
  intro n w r hw hr
  show (rd.read _).map _ = _
  rw [h n w r hw hr]
  rfl

theorem Reads.document {rd : Reader α} {a : α} (h : Reads rd t a) {before after : Bytes}
    (hb : Blanks before) (ha : Blanks after) : rd.document (before ++ (t ++ after)) = .ok a := by
  have hstops : Stops after := by
    have hnil : Stops [] := by simp [Stops]
    simpa using hnil.append ha
  have hskip : ∀ k, (Cursor.skipBlank ⟨k, after⟩).rest = [] := by
    intro k
    rw [← List.append_nil after, Cursor.skipBlank_append ha, Cursor.skipBlank_nil]
  rw [Reader.document, whole, h 0 before after hb hstops]
  simp [bind, Except.bind, hskip]

/-- A digit starts a number, whatever kind of value is looked for. -/
theorem scalar_digit (expected : String) {b : UInt8} (hb : isDigit b = true) (hw : Blanks w) :
    scalar expected ⟨n, w ++ b :: r⟩ = number false ⟨n + w.length, b :: r⟩ := by
  rw [scalar, Cursor.skipBlank_append hw, Cursor.skipBlank_cons (not_blank_of_digit hb)]
  dsimp only [Cursor.next?_cons]
  rw [if_neg (ne_ascii hb '-' rfl), if_pos hb]

theorem scalar_decimal (expected : String) (hw : Blanks w) (hm : m ≤ wordMax) (hr : Stops r) :
    scalar expected ⟨n, w ++ (decimal m ++ r)⟩ =
      .ok (.natural m, ⟨n + (w.length + (decimal m).length), r⟩) := by
  have hnumber := number_decimal (n := n + w.length) hm hr
  obtain ⟨b, u, hbu, hb⟩ := (whole_decimal m).first
  rw [hbu, List.cons_append] at hnumber
  rw [hbu, List.cons_append, scalar_digit expected hb hw, hnumber, Nat.add_assoc]

theorem reads_natural (expected : String) {limit : Nat} (hm : m ≤ limit) (hlimit : limit ≤ wordMax) :
    Reads (natural expected limit) (decimal m) m := by
  intro n w r hw hr
  have hscalar := scalar_decimal (n := n) expected hw (Nat.le_trans hm hlimit) hr
  simp [natural, bind, Except.bind, hscalar, hm]

theorem reads_word (expected : String) (n : UInt64) (f : UInt64 → α) :
    Reads ((natural expected (UInt64.size - 1)).map fun k ↦ f k.toUInt64) (decimal n.toNat)
      (f n) := by
  have hn : n.toNat ≤ UInt64.size - 1 := by
    have := n.toNat_lt_size
    omega
  have h := (reads_natural expected hn (Nat.le_refl _)).map fun k ↦ f k.toUInt64
  have hcast : n.toNat.toUInt64 = n := UInt64.ofNat_toNat
  rwa [hcast] at h

/-! Objects. -/

/-- A key and a value, with what stands around them up to the commas. -/
structure Entry where
  key : Bytes
  value : Bytes
  before : Bytes
  raw : Bytes
  gap : Bytes
  lead : Bytes
  after : Bytes
  spells : Spells raw key
  blanks : Blanks before ∧ Blanks gap ∧ Blanks lead ∧ Blanks after

namespace Entry

def text (e : Entry) : Bytes :=
  e.before ++ ascii '"' ::
    (e.raw ++ ascii '"' :: (e.gap ++ ascii ':' :: (e.lead ++ (e.value ++ e.after))))

def pair (e : Entry) : Bytes × Bytes := (e.key, e.value)

/-- An object of some entries. -/
def object (es : List Entry) (tail : Bytes) : Bytes :=
  ascii '{' :: (joined (es.map text) ++ (tail ++ [ascii '}']))

end Entry

/-- What a key with its value makes of the fields met so far and of what has been read so far. -/
inductive Enters (choose : Choice σ) : List String × σ → Bytes × Bytes → List String × σ → Prop
  | field {met : List String} {s t : σ} {key value : Bytes} (f : Field σ) :
      (∀ c, choose met key c = .ok (some f)) → Reads (f.value s) value t →
        Enters choose (met, s) (key, value) (f.name :: met, t)
  | other {met : List String} {s : σ} {key value : Bytes} :
      (∀ c, choose met key c = .ok none) → Value value →
        Enters choose (met, s) (key, value) (met, s)

inductive EntersAll (choose : Choice σ) :
    List String × σ → List (Bytes × Bytes) → List String × σ → Prop
  | nil {x : List String × σ} : EntersAll choose x [] x
  | cons {x y z : List String × σ} {p : Bytes × Bytes} {ps : List (Bytes × Bytes)} :
      Enters choose x p y → EntersAll choose y ps z → EntersAll choose x (p :: ps) z

variable {choose : Choice σ} {x y : List String × σ} {e : Entry} {es : List Entry} {first : Bool}

theorem nextKey_closing (hw : Blanks w) :
    nextKey first ⟨n, w ++ ascii '}' :: r⟩ = .ok (none, ⟨n + w.length, ascii '}' :: r⟩) := by
  rw [nextKey, Cursor.skipBlank_append hw, Cursor.skipBlank_cons rfl]
  rfl

theorem nextKey_first {raw key : Bytes} (hw : Blanks w) (h : Spells raw key) :
    nextKey true ⟨n, w ++ ascii '"' :: (raw ++ ascii '"' :: r)⟩ =
      .ok (some key, ⟨n + (w.length + (raw.length + 2)), r⟩) := by
  rw [nextKey, Cursor.skipBlank_append hw, Cursor.skipBlank_cons rfl]
  dsimp only [Cursor.next?_cons]
  rw [if_neg (by decide), if_pos rfl, if_pos rfl, text_append h]
  simp only [Except.map]
  congr 3
  omega

theorem nextKey_comma {raw key before : Bytes} (hw : Blanks w) (hb : Blanks before)
    (h : Spells raw key) :
    nextKey false ⟨n, w ++ ascii ',' :: (before ++ ascii '"' :: (raw ++ ascii '"' :: r))⟩ =
      .ok (some key, ⟨n + (w.length + (before.length + (raw.length + 3))), r⟩) := by
  rw [nextKey, Cursor.skipBlank_append hw, Cursor.skipBlank_cons rfl]
  dsimp only [Cursor.next?_cons]
  rw [if_neg (by decide), if_neg (by decide), if_pos rfl, Cursor.skipBlank_append hb,
    Cursor.skipBlank_cons rfl]
  dsimp only [Cursor.next?_cons]
  rw [if_pos rfl, text_append h]
  simp only [Except.map]
  congr 3
  omega

theorem entries_closing {met : List String} {s : σ} {c d : Cursor}
    (hk : nextKey first c = .ok (none, d)) :
    entries choose first met s c = .ok ((s, met), d) := by
  rw [entries]
  split
  · next h => simp [hk] at h
  · next h =>
    rw [hk] at h
    cases h
    rfl
  · next h => simp [hk] at h

theorem entries_step {met : List String} {s u : σ} {key : Bytes} {f : Option (Field σ)}
    {c d k : Cursor} (hk : nextKey first c = .ok (some key, k)) (hc : choose met key k = .ok f)
    (he : entry s k f = .ok (u, d)) :
    entries choose first met s c = entries choose false (f.elim met (·.name :: met)) u d := by
  conv_lhs => rw [entries]
  split
  · next h => simp [hk] at h
  · next h => simp [hk] at h
  · next h =>
    rw [hk] at h
    cases h
    rw [hc]
    dsimp only
    split
    · next h => simp [he] at h
    · next h =>
      rw [he] at h
      cases h
      rfl

theorem Enters.entry {met : List String} {s : σ} (h : Enters choose (met, s) e.pair y)
    (hr : Stops r) :
    ∃ f, (∀ c, choose met e.key c = .ok f) ∧ f.elim met (·.name :: met) = y.1 ∧
      ∀ n, entry s ⟨n, e.gap ++ ascii ':' :: (e.lead ++ (e.value ++ r))⟩ f =
        .ok (y.2, ⟨n + (e.gap.length + 1) + (e.lead.length + e.value.length), r⟩) := by
  obtain ⟨-, hgap, hlead, -⟩ := e.blanks
  change Enters choose (met, s) (e.key, e.value) y at h
  cases h with
  | field f hc hv =>
    refine ⟨some f, hc, rfl, fun n ↦ ?_⟩
    rw [Json.entry, colon_append hgap]
    exact hv _ _ _ hlead hr
  | other hc hv =>
    refine ⟨none, hc, rfl, fun n ↦ ?_⟩
    rw [Json.entry, colon_append hgap]
    show (skipValue _).map _ = _
    rw [skipValue_append hv hlead hr]
    rfl

/-- The text behind some entry: the other entries and the closing bracket. -/
def following (es : List Entry) (tail r : Bytes) : Bytes :=
  (es.map Entry.text).flatMap (ascii ',' :: ·) ++ (tail ++ ascii '}' :: r)

theorem stops_following {tail : Bytes} (htail : Blanks tail) : Stops (following es tail r) := by
  cases es with
  | nil => exact Stops.append (w := tail) htail (stops_cons (b := ascii '}') (by decide))
  | cons e es => exact stops_cons (by decide)

theorem EntersAll.entries_comma (h : EntersAll choose x (es.map Entry.pair) y) {tail : Bytes}
    (htail : Blanks tail) (hw : Blanks w) :
    ∃ m, entries choose false x.1 x.2 ⟨n, w ++ following es tail r⟩ =
        .ok ((y.2, y.1), ⟨m, ascii '}' :: r⟩) ∧
      m + (r.length + 1) = n + (w ++ following es tail r).length := by
  induction es generalizing x n w with
  | nil =>
    cases h
    refine ⟨n + (w ++ tail).length, entries_closing ?_, ?_⟩
    · simp only [following, List.map_nil, List.flatMap_nil, List.nil_append]
      rw [← List.append_assoc, nextKey_closing (hw.append htail)]
    · simp only [following, List.map_nil, List.flatMap_nil, List.nil_append, List.length_append,
        List.length_cons]
      omega
  | cons e es ih =>
    obtain _ | ⟨he, hes⟩ := h
    obtain ⟨hbefore, -, -, hafter⟩ := e.blanks
    obtain ⟨f, hc, hmet, hentry⟩ := he.entry (Stops.append hafter (stops_following htail))
    obtain ⟨m, hm, hlen⟩ := ih hes (n := _) hafter
    have htext : following (e :: es) tail r = ascii ',' :: (e.before ++ ascii '"' :: (e.raw ++
        ascii '"' :: (e.gap ++ ascii ':' :: (e.lead ++ (e.value ++ (e.after ++
          following es tail r)))))) := by
      simp [following, Entry.text]
    refine ⟨m, ?_, ?_⟩
    · rw [htext, entries_step (nextKey_comma hw hbefore e.spells) (hc _) (hentry _), hmet]
      exact hm
    · rw [hlen, htext]
      simp only [List.length_append, List.length_cons]
      omega

/-- Every object is read entry by entry up to its closing bracket, which is still ahead then. -/
theorem EntersAll.entries (h : EntersAll choose x (es.map Entry.pair) y) {tail : Bytes}
    (htail : Blanks tail) :
    ∃ m, entries choose true x.1 x.2 ⟨n, joined (es.map Entry.text) ++ (tail ++ ascii '}' :: r)⟩ =
        .ok ((y.2, y.1), ⟨m, ascii '}' :: r⟩) ∧
      m + 2 = n + (Entry.object es tail).length := by
  cases es with
  | nil =>
    cases h
    refine ⟨n + tail.length, entries_closing (nextKey_closing htail), ?_⟩
    simp only [Entry.object, List.map_nil, joined, List.nil_append, List.length_append,
      List.length_cons, List.length_nil]
    omega
  | cons e es =>
    obtain _ | ⟨he, hes⟩ := h
    obtain ⟨hbefore, -, -, hafter⟩ := e.blanks
    obtain ⟨f, hc, hmet, hentry⟩ := he.entry (Stops.append hafter (stops_following htail))
    obtain ⟨m, hm, hlen⟩ := hes.entries_comma (n := _) (r := r) htail hafter
    have htext : joined ((e :: es).map Entry.text) ++ (tail ++ ascii '}' :: r) =
        e.before ++ ascii '"' :: (e.raw ++ ascii '"' :: (e.gap ++ ascii ':' :: (e.lead ++
          (e.value ++ (e.after ++ following es tail r))))) := by
      simp [joined, following, Entry.text]
    refine ⟨m, ?_, ?_⟩
    · rw [htext, entries_step (nextKey_first hbefore e.spells) (hc _) (hentry _), hmet]
      exact hm
    · have hobject := congrArg List.length htext
      simp only [Entry.object, List.length_append, List.length_cons, List.length_nil] at hobject hlen ⊢
      omega

theorem closing_closeObject {a : α} {c : Cursor} {content : Except Failure (α × Cursor)}
    (h : content = .ok (a, ⟨n, ascii '}' :: r⟩)) (hc : c = ⟨n + 1, r⟩) :
    closing closeObject content = .ok (a, c) := by
  rw [h, hc]
  rfl

theorem Entry.object_append {tail : Bytes} :
    Entry.object es tail ++ r =
      ascii '{' :: (joined (es.map Entry.text) ++ (tail ++ ascii '}' :: r)) := by
  simp [Entry.object]

theorem reads_record {rec : Record σ α} {met : List String} {s : σ} {a : α}
    (h : EntersAll rec.choose ([], rec.start) (es.map Entry.pair) (met, s))
    (hc : ∀ c, rec.complete met s c = .ok (a, c)) {tail : Bytes} (htail : Blanks tail) :
    Reads rec.reader (Entry.object es tail) a := by
  intro n w r hw _
  obtain ⟨m, hm, hlen⟩ := h.entries (n := n + w.length + 1) (r := r) htail
  show rec.read _ = _
  rw [Record.read, Entry.object_append, Cursor.skipBlank_append hw, Cursor.skipBlank_cons rfl]
  dsimp only [Cursor.next?_cons]
  rw [if_pos rfl, Record.object, hm]
  refine closing_closeObject (hc _) ?_
  congr 1
  omega

theorem reads_table {tab : Table σ} {met : List String} {s : σ}
    (h : EntersAll tab.choose ([], tab.start) (es.map Entry.pair) (met, s)) {tail : Bytes}
    (htail : Blanks tail) :
    Reads tab.reader (Entry.object es tail) s := by
  intro n w r hw _
  obtain ⟨m, hm, hlen⟩ := h.entries (n := n + w.length + 1) (r := r) htail
  show tab.read _ = _
  rw [Table.read, Entry.object_append, Cursor.skipBlank_append hw, Cursor.skipBlank_cons rfl]
  dsimp only [Cursor.next?_cons]
  rw [if_pos rfl, hm]
  refine closing_closeObject rfl ?_
  congr 1
  omega

/-! Records of which every field comes at most once. -/

/-- A key and its value, with what they do to what has been read so far. -/
abbrev Step (σ : Type) := (Bytes × Bytes) × (σ → σ)

/-- What a record makes of a key and its value, whatever has been read so far. -/
def Record.Takes (rec : Record σ α) (p : Step σ) : Prop :=
  (∃ f ∈ rec.fields, Bytes.ofText f.name = p.1.1 ∧ ∀ s, Reads (f.value s) p.1.2 (p.2 s)) ∨
    (rec.closed = false ∧ (∀ f ∈ rec.fields, Bytes.ofText f.name ≠ p.1.1) ∧ Value p.1.2 ∧
      p.2 = id)

variable {rec : Record σ α}

theorem choose_field (hnames : (rec.fields.map fun f ↦ Bytes.ofText f.name).Nodup) {f : Field σ}
    (hf : f ∈ rec.fields) {met : List String} (hmet : f.name ∉ met) (c : Cursor) :
    rec.choose met (Bytes.ofText f.name) c = .ok (some f) := by
  have hfind : rec.fields.find? (fun g ↦ Bytes.ofText g.name = Bytes.ofText f.name) = some f := by
    cases h : rec.fields.find? (fun g ↦ Bytes.ofText g.name = Bytes.ofText f.name) with
    | none => simpa using List.find?_eq_none.1 h f hf
    | some g =>
      have hname : Bytes.ofText g.name = Bytes.ofText f.name := by simpa using List.find?_some h
      rw [List.inj_on_of_nodup_map hnames (List.mem_of_find?_eq_some h) hf hname]
  rw [Record.choose, hfind]
  dsimp only
  rw [if_neg hmet]

theorem choose_other (hclosed : rec.closed = false) {key : Bytes}
    (h : ∀ f ∈ rec.fields, Bytes.ofText f.name ≠ key) (met : List String) (c : Cursor) :
    rec.choose met key c = .ok none := by
  have hfind : rec.fields.find? (fun g ↦ Bytes.ofText g.name = key) = none := by
    rw [List.find?_eq_none]
    intro f hf
    simpa using h f hf
  rw [Record.choose, hfind, hclosed]
  rfl

/-- Keys that differ are read one after the other, in whatever order they come. -/
theorem exists_entersAll (hnames : (rec.fields.map fun f ↦ Bytes.ofText f.name).Nodup)
    {steps : List (Step σ)} (hkeys : (steps.map (·.1.1)).Nodup) (htakes : ∀ p ∈ steps, rec.Takes p)
    (met : List String) (s : σ) (hmet : ∀ p ∈ steps, ∀ name ∈ met, Bytes.ofText name ≠ p.1.1) :
    ∃ met', EntersAll rec.choose (met, s) (steps.map (·.1))
        (met', steps.foldl (fun s p ↦ p.2 s) s) ∧ (∀ name ∈ met, name ∈ met') ∧
      ∀ f ∈ rec.fields, Bytes.ofText f.name ∈ steps.map (·.1.1) → f.name ∈ met' := by
  induction steps generalizing met s with
  | nil => exact ⟨met, .nil, fun _ h ↦ h, by simp⟩
  | cons p steps ih =>
    obtain ⟨⟨key, value⟩, act⟩ := p
    rw [List.map_cons, List.nodup_cons] at hkeys
    obtain ⟨hnew, hkeys⟩ := hkeys
    have htakes' : ∀ p ∈ steps, rec.Takes p := fun p hp ↦ htakes p (List.mem_cons_of_mem _ hp)
    have hmet' : ∀ p ∈ steps, ∀ name ∈ met, Bytes.ofText name ≠ p.1.1 :=
      fun p hp ↦ hmet p (List.mem_cons_of_mem _ hp)
    rcases htakes _ (List.mem_cons_self ..) with ⟨f, hf, rfl, hreads⟩ | ⟨hclosed, hno, hvalue, rfl⟩
    · have hfresh : f.name ∉ met := fun h ↦ hmet _ (List.mem_cons_self ..) _ h rfl
      obtain ⟨met', henters, hsub, hall⟩ := ih hkeys htakes' (f.name :: met) (act s) (by
        intro p hp name hname
        have hkey : p.1.1 ∈ steps.map (·.1.1) := List.mem_map_of_mem hp
        rcases List.mem_cons.1 hname with rfl | hname
        · exact fun h ↦ hnew (h ▸ hkey)
        · exact hmet' p hp name hname)
      refine ⟨met', .cons (.field f (choose_field hnames hf hfresh) (hreads s)) henters,
        fun name h ↦ hsub name (List.mem_cons_of_mem _ h), fun g hg hmem ↦ ?_⟩
      rcases List.mem_cons.1 hmem with h | h
      · rw [List.inj_on_of_nodup_map hnames hg hf h]
        exact hsub _ (List.mem_cons_self ..)
      · exact hall g hg h
    · obtain ⟨met', henters, hsub, hall⟩ := ih hkeys htakes' met s hmet'
      refine ⟨met', .cons (.other (choose_other hclosed hno met) hvalue) henters, hsub,
        fun g hg hmem ↦ ?_⟩
      rcases List.mem_cons.1 hmem with h | h
      · exact absurd h (hno g hg)
      · exact hall g hg h

/-- A record with all its fields, or one that may lack some. -/
theorem reads_steps (steps : List (Step σ))
    (hnames : (rec.fields.map fun f ↦ Bytes.ofText f.name).Nodup)
    (hkeys : (steps.map (·.1.1)).Nodup) (htakes : ∀ p ∈ steps, rec.Takes p)
    (hfull : rec.partialOk = true ∨
      ∀ f ∈ rec.fields, Bytes.ofText f.name ∈ steps.map (·.1.1)) {a : α}
    (hfinish : rec.finish (steps.foldl (fun s p ↦ p.2 s) rec.start) = .ok a)
    (hes : es.map Entry.pair = steps.map (·.1)) {tail : Bytes} (htail : Blanks tail) :
    Reads rec.reader (Entry.object es tail) a := by
  obtain ⟨met, henters, -, hall⟩ := exists_entersAll hnames hkeys htakes [] rec.start (by simp)
  refine reads_record (hes ▸ henters) (fun c ↦ ?_) htail
  have hend : Record.complete.finishAt rec (steps.foldl (fun s p ↦ p.2 s) rec.start) c =
      .ok (a, c) := by
    rw [Record.complete.finishAt, hfinish]
  rw [Record.complete]
  split
  · next f hfind =>
    rcases hfull with hpart | hfull
    · rw [if_pos hpart, hend]
    · have hf := List.mem_of_find?_eq_some hfind
      exact absurd (hall f hf (hfull f hf)) (by simpa using List.find?_some hfind)
  · exact hend

end QueuedFiles.Json
