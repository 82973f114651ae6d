import QueuedFiles.Proofs.Service.Content
import QueuedFiles.Proofs.Service.Meter
import QueuedFiles.Proofs.Service.Shape
import Mathlib.Algebra.BigOperators.Group.List.Basic

/-!
The bytes on the two sides of the codec. What a decompression books as its plain side is what the
codec reports; what its request gets is cut off at what the codec was offered. The two differ by what
the codec reports beyond that, and in nothing else.
-/

namespace QueuedFiles

open Telemetry

/-- The codec never reports more bytes than it was offered room for. -/
def Codec.Contained (c : Codec) : Prop :=
  ∀ s b max d t n, c.decompress s b max = .returns d t → d.reported = .ok n → n ≤ max

/-- The two sides of the codec. -/
inductive Side where
  | plain
  | compressed

namespace Side

def value (c : Counters) : Side → UInt64
  | plain => c.bytesPlain
  | compressed => c.bytesCompressed

def weight : Addition → Side → UInt64
  | .compress n _, plain | .decompress _ n, plain => n
  | .compress _ n, compressed | .decompress n _, compressed => n
  | _, _ => 0

/-- What an incident puts on a side: a compression its payload and its block, a decompression the
size that its request gets and its block. A stage that fails puts nothing there. -/
def adds : Incident → Side → Nat
  | .staged .codec r after (.ok ()), plain =>
    match r.operation with
    | .write => r.payload.length
    | .read => after.size
  | .staged .codec r after (.ok ()), compressed =>
    match r.operation with
    | .write => after.payload.length
    | .read => r.payload.length
  | _, _ => 0

def total (log : List Incident) (side : Side) : Nat := (log.map (adds · side)).sum

theorem value_add (c : Counters) (x : Addition) (side : Side) :
    value (c.add x) side = value c side + weight x side := by
  cases x <;> cases side <;> simp [value, weight, Counters.add]

@[simp] theorem total_append (log more : List Incident) (side : Side) :
    total (log ++ more) side = total log side + total more side := by
  simp [total]

end Side

namespace Service

variable {fs : FileSystem} {codec : Codec} {s₀ s t : Service fs codec} {log more : List Incident}
  {r : Request} {lane : Lane} {staged : Staged} {a : Activity} {added : Option Addition}
  {side : Side} {n : Nat} {config : Config} {heap : HeapId} {heaps : Heaps} {files : fs.State}
  {codecState : codec.State}

/-- What the codec reports, where a decompression succeeds, beyond the bytes that it was offered. -/
def excess (s : Service fs codec) : Side → Incident → Nat
  | .plain, .staged .codec r _ (.ok ()) =>
    match r.operation,
      codec.decompress s.codecState r.payload s.config.maxDecompressedSize.toNat with
    | .read, .returns ⟨_, .ok n⟩ _ => n - s.config.maxDecompressedSize.toNat
    | _, _ => 0
  | _, _ => 0

/-- A run in the course of which the excess on a side comes to `n`. -/
inductive Exceeds (s₀ : Service fs codec) (side : Side) :
    List Incident → Service fs codec → Nat → Prop
  | refl : Exceeds s₀ side [] s₀ 0
  | step {log : List Incident} {s t : Service fs codec} {n : Nat} (m : Move) :
      Exceeds s₀ side log s n → s.step m = some t →
        Exceeds s₀ side (log ++ s.record m) t (n + ((s.record m).map (s.excess side)).sum)

theorem Exceeds.run (h : Exceeds s₀ side log s n) : Run s₀ log s := by
  induction h with
  | refl => exact .refl
  | step m h hs ih => exact .step m ih hs

theorem Run.exceeds (h : Run s₀ log s) (side : Side) : ∃ n, Exceeds s₀ side log s n := by
  induction h with
  | refl => exact ⟨0, .refl⟩
  | step m h hs ih =>
    obtain ⟨n, hn⟩ := ih
    exact ⟨_, .step m hn hs⟩

theorem excess_compressed (s : Service fs codec) (i : Incident) : s.excess .compressed i = 0 := rfl

theorem excess_of_contained (hc : codec.Contained) (s : Service fs codec) (side : Side)
    (i : Incident) : s.excess side i = 0 := by
  unfold excess
  split
  · split
    · rename_i hcall
      have hle := hc _ _ _ _ _ _ hcall rfl
      omega
    · rfl
  · rfl

theorem sum_excess {s : Service fs codec} (h : ∀ i, s.excess side i = 0) (log : List Incident) :
    (log.map (s.excess side)).sum = 0 := by
  apply List.sum_eq_zero
  intro n hn
  obtain ⟨i, -, rfl⟩ := List.mem_map.1 hn
  exact h i

theorem Exceeds.eq_zero (h : Exceeds s₀ side log s n)
    (hzero : ∀ (u : Service fs codec) i, u.excess side i = 0) : n = 0 := by
  induction h with
  | refl => rfl
  | step m h hs ih => rw [ih, sum_excess (hzero _)]

theorem volume_of_unstaged (h : ∀ lane r after result, .staged lane r after result ∉ more)
    (side : Side) : side.total more = 0 ∧ (more.map (s.excess side)).sum = 0 := by
  have hzero : ∀ i ∈ more, side.adds i = 0 ∧ s.excess side i = 0 := by
    intro i hi
    cases i with
    | staged lane r after result => exact absurd hi (h lane r after result)
    | _ => cases side <;> exact ⟨rfl, rfl⟩
  constructor <;> apply List.sum_eq_zero <;> intro n hn <;>
    obtain ⟨i, hi, rfl⟩ := List.mem_map.1 hn
  · exact (hzero i hi).1
  · exact (hzero i hi).2

/-- What a stage books on a side is what it stands for there and the excess of the codec. -/
theorem StageEnd.volume (he : s.StageEnd lane r staged a added files codecState) (hr : r.Sized)
    (hc : ∀ room, s.worker .codec = .coding r room → (room = none ↔ r.operation = .write))
    (side : Side) :
    load (Side.weight · side) added staged.result =
      UInt64.ofNat (side.adds (.staged lane r (staged.routed lane) staged.result) +
        s.excess side (.staged lane r (staged.routed lane) staged.result)) := by
  cases he with
  | file hw hs =>
    cases hres : staged.result with
    | error e => cases side <;> simp [load, Side.weight, Side.adds, excess]
    | ok =>
      cases hop : staged.request.operation <;> cases side <;>
        simp [load, FileStage.addition, hop, Side.weight, Side.adds, excess]
  | overflow hw ho hcap =>
    cases side <;> simp [CodecStage.overflow, load, Side.weight, Side.adds, excess]
  | @compress _ answer _ hw =>
    have hop : r.operation = .write := (hc none hw).1 rfl
    cases hb : CodecStage.checkedBlock codec.name r answer with
    | error e =>
      cases side <;> simp [CodecStage.compressed, CodecStage.compressAddition, load, Side.weight,
        Side.adds, excess]
    | ok block =>
      obtain ⟨hblock, hresult⟩ := CodecStage.compressed_ok s.heaps r block
      rw [hresult]
      cases side <;> simp [CodecStage.compressAddition, load, Side.weight, Side.adds, excess, hop,
        hr.length_payload, hblock]
  | @decompress _ room d _ hw hcall =>
    have hop : r.operation = .read := by
      cases ho : r.operation with
      | read => rfl
      | write => cases (hc (some room) hw).2 ho
    obtain ⟨written, reported⟩ := d
    cases reported with
    | error e =>
      cases side <;> simp [CodecStage.decompressed, CodecStage.decompressAddition, load,
        Side.weight, Side.adds, excess]
    | ok n =>
      cases side with
      | compressed =>
        simp [CodecStage.decompressed, CodecStage.decompressAddition, load, Side.weight, Side.adds,
          excess, hop, hr.length_payload]
      | plain =>
        have hsplit : min n s.config.maxDecompressedSize.toNat +
            (n - s.config.maxDecompressedSize.toNat) = n := by omega
        simp [CodecStage.decompressed, CodecStage.decompressAddition, load, Side.weight, Side.adds,
          excess, hop, hcall, hsplit]

theorem Run.sized_at_stage (h : Run (fresh config heap heaps files codecState) log s)
    {after : fs.State} {state : codec.State} (he : s.StageEnd lane r staged a added after state) :
    r.Sized := by
  rcases he.holds with hw | ⟨room, hw⟩
  · exact h.sized (show s.At r (.hand lane .serving) from hw)
  · exact h.sized (show s.At r (.hand lane (.coding room)) from hw)

theorem Transition.volume (ht : Transition s more t)
    (h : Run (fresh config heap heaps files codecState) log s) (side : Side) :
    side.value t.recorder.counters = side.value s.recorder.counters +
      UInt64.ofNat (side.total more + (more.map (s.excess side)).sum) := by
  rcases ht.counters with ⟨lane, r, staged, a, added, files, codecState, he, rfl, hrec⟩ | ⟨hno, hc⟩
  · have hbook := @value_book fs codec s (Side.value · side) (Side.weight · side)
      (fun c x ↦ Side.value_add c x side) a added staged.result
    rw [hrec, hbook, he.volume (h.sized_at_stage he) h.coding_side]
    simp [Side.total]
  · obtain ⟨htotal, hexcess⟩ := volume_of_unstaged (s := s) hno side
    rw [htotal, hexcess]
    rcases hc with hc | hc
    · simp [hc]
    · rw [hc, Side.value_add]
      cases side <;> simp [Side.weight]

/-- A side of the codec holds what its stages stand for and what the codec has reported beyond. -/
theorem Exceeds.booked (h : Exceeds (fresh config heap heaps files codecState) side log s n) :
    side.value s.recorder.counters = UInt64.ofNat (side.total log + n) := by
  induction h with
  | refl => cases side <;> rfl
  | step m h hs ih =>
    rw [(step_transition m hs).volume h.run side, ih, ← UInt64.ofNat_add, Side.total_append]
    congr 1
    omega

/-- The two sides of the codec in a run. -/
structure Volumes (s₀ : Service fs codec) (log : List Incident) (s : Service fs codec) : Prop where
  compressed : ∀ elapsed, (s.recorder.snapshot elapsed).counters.bytesCompressed =
    UInt64.ofNat (Side.compressed.total log)
  plain : ∃ n, Exceeds s₀ .plain log s n ∧ ∀ elapsed,
    (s.recorder.snapshot elapsed).counters.bytesPlain = UInt64.ofNat (Side.plain.total log + n)
  /-- Callers see the plain side as it is booked if the codec keeps to what it is offered. -/
  contained : codec.Contained → ∀ elapsed, (s.recorder.snapshot elapsed).counters.bytesPlain =
    UInt64.ofNat (Side.plain.total log)

theorem Run.volumes (h : Run (fresh config heap heaps files codecState) log s) :
    Volumes (fresh config heap heaps files codecState) log s where
  compressed _ := by
    obtain ⟨n, hn⟩ := h.exceeds .compressed
    have hbooked := hn.booked
    rwa [hn.eq_zero excess_compressed, Nat.add_zero] at hbooked
  plain := by
    obtain ⟨n, hn⟩ := h.exceeds .plain
    exact ⟨n, hn, fun _ ↦ hn.booked⟩
  contained hc _ := by
    obtain ⟨n, hn⟩ := h.exceeds .plain
    have hbooked := hn.booked
    rwa [hn.eq_zero fun u ↦ excess_of_contained hc u .plain, Nat.add_zero] at hbooked

/-- The run of the codec that overstates: its two bytes are booked as two and as eleven. -/
theorem volumes_overrun :
    Run tight overrun.1 overrun.2 ∧ Side.plain.total overrun.1 = 2 + 4 ∧
      overrun.2.recorder.counters.bytesPlain = 2 + 11 ∧ Volumes tight overrun.1 overrun.2 :=
  have hrun : Run tight overrun.1 overrun.2 := .of_isSome _
  ⟨hrun, by decide, by decide, Run.volumes hrun⟩

/-- The plain side is not what callers see: the read of `overrun` gets four bytes. -/
theorem plain_side_overstated :
    ¬ ∀ log s, Run tight log s →
      s.recorder.counters.bytesPlain = UInt64.ofNat (Side.plain.total log) := by
  intro h
  have hbooked := h overrun.1 overrun.2 (.of_isSome _)
  revert hbooked
  decide

end Service

end QueuedFiles
