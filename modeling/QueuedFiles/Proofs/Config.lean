import QueuedFiles.Config
import QueuedFiles.Proofs.Json.Writing

/-!
The document form of a configuration. Whatever order the bounds come in and whatever stands between
them, what is read is the default with the bounds given, and it has passed the checks.
-/

namespace QueuedFiles.Config

open Bytes (ofText)
open Json

inductive Bound where
  | queueCapacity
  | maxPathLength
  | maxDecompressedSize
deriving DecidableEq

namespace Bound

def name : Bound → String
  | queueCapacity => "queue_capacity"
  | maxPathLength => "max_path_len"
  | maxDecompressedSize => "max_decompressed_size"

def get (c : Config) : Bound → UInt64
  | queueCapacity => c.queueCapacity
  | maxPathLength => c.maxPathLength
  | maxDecompressedSize => c.maxDecompressedSize

def set (c : Config) (n : UInt64) : Bound → Config
  | queueCapacity => { c with queueCapacity := n }
  | maxPathLength => { c with maxPathLength := n }
  | maxDecompressedSize => { c with maxDecompressedSize := n }

def all : List Bound := [queueCapacity, maxPathLength, maxDecompressedSize]

def field (b : Bound) : Json.Field Config := Config.field b.name fun c n ↦ b.set c n

theorem mem_all (b : Bound) : b ∈ all := by
  cases b <;> decide

@[simp] theorem get_set (b d : Bound) (c : Config) (n : UInt64) :
    d.get (b.set c n) = if d = b then n else d.get c := by
  cases b <;> cases d <;> rfl

theorem unescaped_name (b : Bound) : Unescaped (ofText b.name) := by
  cases b <;> decide

theorem name_inj {b d : Bound} (h : ofText b.name = ofText d.name) : b = d := by
  revert h
  cases b <;> cases d <;> decide

end Bound

/-- The default with some bounds replaced. -/
def overridden (values : Bound → Option UInt64) : Config :=
  ⟨(values .queueCapacity).getD default.queueCapacity,
    (values .maxPathLength).getD default.maxPathLength,
    (values .maxDecompressedSize).getD default.maxDecompressedSize⟩

/-- Keys with values that give some bounds, each once and in plain decimal, and no others. Unknown
keys may have any value. -/
structure Gives (entries : List (Bytes × Bytes)) (values : Bound → Option UInt64) : Prop where
  distinct : (entries.map Prod.fst).Nodup
  bound : ∀ e ∈ entries, ∀ b : Bound, e.1 = ofText b.name →
    ∃ n, values b = some n ∧ e.2 = decimal n.toNat
  absent : ∀ b : Bound, (∀ e ∈ entries, e.1 ≠ ofText b.name) → values b = none
  unknown : ∀ e ∈ entries, (∀ b : Bound, e.1 ≠ ofText b.name) → Value e.2

variable {c d : Config} {values : Bound → Option UInt64} {entries : List (Bytes × Bytes)}

theorem ext_bound (h : ∀ b : Bound, b.get c = b.get d) : c = d := by
  cases c
  cases d
  exact (Config.mk.injEq ..).mpr ⟨h .queueCapacity, h .maxPathLength, h .maxDecompressedSize⟩

theorem get_overridden (b : Bound) :
    b.get (overridden values) = (values b).getD (b.get default) := by
  cases b <;> rfl

theorem fields_eq : record.fields = Bound.all.map Bound.field := rfl

theorem reads_bound (b : Bound) (n : UInt64) :
    Reads (b.field.value c) (decimal n.toNat) (b.set c n) :=
  reads_word "usize" n fun n ↦ b.set c n

/-- What an entry does to the configuration read so far. -/
def act (values : Bound → Option UInt64) (e : Bytes × Bytes) : Config → Config :=
  match Bound.all.find? fun b ↦ ofText b.name = e.1 with
  | some b => fun c ↦ b.set c ((values b).getD 0)
  | none => id

theorem find_bound (b : Bound) :
    Bound.all.find? (fun d ↦ ofText d.name = ofText b.name) = some b := by
  cases b <;> rfl

theorem find_unknown {key : Bytes} (h : ∀ b : Bound, key ≠ ofText b.name) :
    Bound.all.find? (fun d ↦ ofText d.name = key) = none := by
  rw [List.find?_eq_none]
  intro b _
  simpa using fun hb : ofText b.name = key ↦ h b hb.symm

theorem Gives.takes (h : Gives entries values) {e : Bytes × Bytes} (he : e ∈ entries) :
    record.Takes (e, act values e) := by
  by_cases hkey : ∃ b : Bound, e.1 = ofText b.name
  · obtain ⟨b, hb⟩ := hkey
    obtain ⟨n, hn, hvalue⟩ := h.bound e he b hb
    refine .inl ⟨b.field, ?_, hb.symm, fun c ↦ ?_⟩
    · rw [fields_eq]
      exact List.mem_map_of_mem b.mem_all
    · dsimp only
      rw [act, hb, find_bound, hvalue]
      dsimp only
      rw [hn]
      exact reads_bound b n
  · have hno : ∀ b : Bound, e.1 ≠ ofText b.name := fun b hb ↦ hkey ⟨b, hb⟩
    refine .inr ⟨rfl, fun f hf ↦ ?_, h.unknown e he hno, ?_⟩
    · rw [fields_eq] at hf
      obtain ⟨b, -, rfl⟩ := List.mem_map.1 hf
      exact fun hb ↦ hno b hb.symm
    · dsimp only
      rw [act, find_unknown hno]

/-- Of two entries with different keys neither undoes the other. -/
theorem get_foldl (b : Bound) (hdistinct : (entries.map Prod.fst).Nodup) (c : Config) :
    b.get (entries.foldl (fun c e ↦ act values e c) c) =
      if ofText b.name ∈ entries.map Prod.fst then (values b).getD 0 else b.get c := by
  induction entries generalizing c with
  | nil => rfl
  | cons e entries ih =>
    rw [List.map_cons, List.nodup_cons] at hdistinct
    rw [List.foldl_cons, ih hdistinct.2, List.map_cons]
    by_cases hkey : ofText b.name = e.1
    · have hnew : ofText b.name ∉ entries.map Prod.fst := hkey ▸ hdistinct.1
      rw [if_neg hnew, if_pos (hkey ▸ List.mem_cons_self ..), act, ← hkey, find_bound]
      simp
    · have hmem : ofText b.name ∈ e.1 :: entries.map Prod.fst ↔
          ofText b.name ∈ entries.map Prod.fst := by simp [hkey]
      have hact : b.get (act values e c) = b.get c := by
        rw [act]
        cases hd : Bound.all.find? fun b ↦ ofText b.name = e.1 with
        | none => rfl
        | some d =>
          have hname : ofText d.name = e.1 := by simpa using List.find?_some hd
          have hne : b ≠ d := fun h ↦ hkey (h ▸ hname)
          rw [Bound.get_set, if_neg hne]
      simp only [hmem, hact]

theorem Gives.reads (h : Gives entries values) {es : List Entry}
    (hes : es.map Entry.pair = entries) {tail : Bytes} (htail : Blanks tail) :
    Reads record.reader (Entry.object es tail) (overridden values) := by
  have hnames : (record.fields.map fun f ↦ ofText f.name).Nodup := by
    rw [fields_eq]
    decide
  have hpairs : ((entries.map fun e ↦ (e, act values e)).map (·.1)) = entries := by
    rw [List.map_map]
    exact List.map_id _
  have hkeys : ((entries.map fun e ↦ (e, act values e)).map (·.1.1)) = entries.map Prod.fst := by
    rw [List.map_map]
    rfl
  refine reads_steps (entries.map fun e ↦ (e, act values e)) hnames (hkeys ▸ h.distinct) ?_
    (.inl rfl) ?_ (hes.trans hpairs.symm) htail
  · intro p hp
    obtain ⟨e, he, rfl⟩ := List.mem_map.1 hp
    exact h.takes he
  · refine congrArg Except.ok (ext_bound fun b ↦ ?_)
    rw [List.foldl_map]
    refine (get_foldl b h.distinct _).trans ?_
    rw [get_overridden]
    split
    · next hmem =>
      obtain ⟨e, he, hkey⟩ := List.mem_map.1 hmem
      obtain ⟨n, hn, -⟩ := h.bound e he b hkey
      rw [hn]
      rfl
    · next hmem =>
      rw [h.absent b fun e he hkey ↦ hmem (hkey ▸ List.mem_map_of_mem he)]
      rfl

theorem parse_of_reads {doc : Bytes} (h : record.reader.document doc = .ok c) :
    parse doc = (validate c).map fun _ ↦ c := by
  rw [parse, h]

theorem bounds_of_validate {u : Unit} (h : validate c = .ok u) :
    (1 ≤ c.queueCapacity.toNat ∧ c.queueCapacity.toNat ≤ 65536) ∧ 1 ≤ c.maxPathLength.toNat ∧
      1 ≤ c.maxDecompressedSize.toNat ∧ c.maxDecompressedSize.toNat ≤ 0x7e000000 := by
  have hqueue : Limits.queueCapacityCeiling = 65536 := rfl
  have hsize : Limits.decompressedSizeCeiling = 0x7e000000 := rfl
  rw [validate] at h
  split at h
  · cases h
  split at h
  · cases h
  split at h
  · cases h
  split at h
  · cases h
  split at h
  · cases h
  omega

theorem tree_eq (c : Config) :
    c.tree = .object (Bound.all.map fun b ↦ (b.name, .natural (b.get c).toNat)) := rfl

/-- The entries of a configuration's own document. -/
theorem gives_own (c : Config) :
    Gives (Bound.all.map fun b ↦ (ofText b.name, decimal (b.get c).toNat))
      (fun b ↦ some (b.get c)) where
  distinct := by
    rw [List.map_map]
    exact (by decide : (Bound.all.map fun b ↦ ofText b.name).Nodup)
  bound e he b hb := by
    obtain ⟨b', -, rfl⟩ := List.mem_map.1 he
    obtain rfl := Bound.name_inj hb
    exact ⟨b'.get c, rfl, rfl⟩
  absent b h := (h _ (List.mem_map_of_mem b.mem_all) rfl).elim
  unknown e he h := by
    obtain ⟨b, -, rfl⟩ := List.mem_map.1 he
    exact (h b rfl).elim

theorem reads_render (c : Config) : Reads record.reader (ofText c.render) c := by
  have hkeys : ∀ e ∈ Bound.all.map fun b ↦ (b.name, Tree.natural (b.get c).toNat),
      Unescaped (ofText e.1) := by
    intro e he
    obtain ⟨b, -, rfl⟩ := List.mem_map.1 he
    exact b.unescaped_name
  obtain ⟨es, tail, htail, hpairs, htext⟩ := exists_object (d := 0) spacing_compact hkeys
  have hentries : es.map Entry.pair =
      Bound.all.map fun b ↦ (ofText b.name, decimal (b.get c).toNat) := by
    rw [hpairs, List.map_map]
    refine List.map_congr_left fun b _ ↦ ?_
    exact Prod.ext rfl (text_natural _ _)
  rw [render, Tree.compact, tree_eq, htext]
  exact (gives_own c).reads hentries htail

/-- A configuration is read back from its own document, and any other document gives the default with
the bounds listed, if the checks are passed. Nothing that was read is out of bounds. -/
theorem document_form :
    (∀ c : Config, parse (ofText c.render) = (validate c).map fun _ ↦ c) ∧
    (∀ (es : List Entry) (values : Bound → Option UInt64) (before tail after : Bytes),
      Gives (es.map Entry.pair) values → Blanks before → Blanks tail → Blanks after →
        parse (before ++ (Entry.object es tail ++ after)) =
          (validate (overridden values)).map fun _ ↦ overridden values) ∧
    ∀ (doc : Bytes) (c : Config), parse doc = .ok c →
      (1 ≤ c.queueCapacity.toNat ∧ c.queueCapacity.toNat ≤ 65536) ∧ 1 ≤ c.maxPathLength.toNat ∧
        1 ≤ c.maxDecompressedSize.toNat ∧ c.maxDecompressedSize.toNat ≤ 0x7e000000 := by
  have hnil : Blanks [] := by simp [Blanks]
  refine ⟨fun c ↦ ?_, fun es values before tail after h hbefore htail hafter ↦ ?_,
    fun doc c h ↦ ?_⟩
  · have hdoc := (reads_render c).document hnil hnil
    rw [List.nil_append, List.append_nil] at hdoc
    exact parse_of_reads hdoc
  · exact parse_of_reads ((h.reads rfl htail).document hbefore hafter)
  · rw [parse] at h
    split at h
    · cases h
    · next d _ =>
      cases hv : validate d with
      | error e => simp [hv, Except.map] at h
      | ok u =>
        obtain rfl : d = c := by simpa [hv, Except.map] using h
        exact bounds_of_validate hv

/-- A document with an unknown key, which has an escape in it and a list as its value, and one
bound. -/
def mixed : List Entry := [
  { key := ofText "xy", value := ofText "[null,\x7b\x7d]", before := [], raw := ofText "x\\u0079"
    gap := [], lead := [0x20], after := []
    spells := .plain (by decide)
      (.unit (h := ofText "0079") (n := 0x79) ⟨rfl, _, rfl, rfl⟩ rfl rfl .nil)
    blanks := by simp [Blanks, Cursor.isBlank] },
  { key := ofText "max_path_len", value := decimal 7, before := [0x0a], raw := ofText "max_path_len"
    gap := [0x20], lead := [], after := []
    spells := spells_plain (Bound.unescaped_name .maxPathLength)
    blanks := by simp [Blanks, Cursor.isBlank] }]

def onlyPath : Bound → Option UInt64
  | .maxPathLength => some 7
  | _ => none

theorem gives_mixed : Gives (mixed.map Entry.pair) onlyPath where
  distinct := by decide
  bound e he b hb := by
    simp only [mixed, List.map_cons, List.map_nil, List.mem_cons, List.not_mem_nil, or_false] at he
    rcases he with rfl | rfl
    · cases b <;> exact absurd hb (by decide)
    · obtain rfl := Bound.name_inj (b := .maxPathLength) hb
      exact ⟨7, rfl, rfl⟩
  absent b h := by
    cases b with
    | maxPathLength => exact absurd rfl (h (Entry.pair mixed[1]) (by simp [mixed]))
    | _ => rfl
  unknown e he h := by
    simp only [mixed, List.map_cons, List.map_nil, List.mem_cons, List.not_mem_nil, or_false] at he
    rcases he with rfl | rfl
    · have hempty : Value (ofText "\x7b\x7d") :=
        @Value.bracket .curly [] [] (by simp) (by simp) (by simp [Blanks])
      refine @Value.bracket .square [⟨[], ofText "null", []⟩, ⟨[], ofText "\x7b\x7d", []⟩] [] ?_ ?_
        (by simp [Blanks])
      · have hnil : Blanks [] := by simp [Blanks]
        simpa [hnil] using Bracket.Head.blank hnil
      · simpa [hempty] using Value.word (w := "null") (by simp)
    · exact absurd rfl (h .maxPathLength)

theorem document_form_mixed :
    Gives (mixed.map Entry.pair) onlyPath ∧
      parse (ofText "\n\x7b\"x\\u0079\": [null,\x7b\x7d],\n\"max_path_len\" :7\x7d") =
        .ok ⟨8, 7, 16777216⟩ ∧
      1 ≤ (7 : UInt64).toNat ∧
      parse (ofText (Config.render ⟨0, 7, 9⟩)) = .error .noQueueCapacity := by
  have hnil : Blanks [] := by simp [Blanks]
  have hline : Blanks [0x0a] := by simp [Blanks, Cursor.isBlank]
  have hparse := document_form.2.1 mixed onlyPath [0x0a] [] [] gives_mixed hline hnil hnil
  have hbounds := document_form.2.2 _ _ hparse
  refine ⟨gives_mixed, hparse, hbounds.2.1, document_form.1 _⟩

end QueuedFiles.Config
