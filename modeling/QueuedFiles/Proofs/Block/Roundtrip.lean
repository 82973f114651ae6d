import QueuedFiles.Block.Lz4
import QueuedFiles.Proofs.Block.Encoding

/-!
The round trip through a codec: what a faithful codec is, and that LZ4 is one whose blocks also fit
the room that is kept for them.
-/

namespace QueuedFiles

/-- A codec whose blocks give their payload back to every output that has room for it, and tell
every other output that it is too small. -/
structure Codec.Pure.Faithful (p : Codec.Pure) : Prop where
  restores : ∀ {x block}, p.compress x = .ok block → ∀ {cap}, x.length ≤ cap →
    (p.decompress block cap).reported = .ok x.length ∧
      (Bytes.fit (p.decompress block cap).written cap).take x.length = x
  refuses : ∀ {x block}, p.compress x = .ok block → ∀ {cap}, cap < x.length →
    (p.decompress block cap).reported = .error (.outputTooLarge cap)

namespace Lz4

theorem encode_ne_nil (b : Block) : b.encode ≠ [] := by
  simp [Block.encode, encodeTail]

theorem compress_nil : compress [] = .ok [] := rfl

theorem length_encode_blockOf_le (x : Bytes) :
    (blockOf x.toArray).encode.length ≤ compressBound x.length := by
  have hlen := (blockOf x.toArray).length_encode_le
  rw [(blockOf_spec x.toArray).2, List.size_toArray] at hlen
  unfold compressBound
  omega

/-- The room that is kept for a block is enough for it. -/
theorem encodeInto_compressBound (x : Bytes) :
    encodeInto (compressBound x.length) x = .ok (blockOf x.toArray).encode :=
  if_neg (Nat.not_lt.2 (length_encode_blockOf_le x))

theorem compress_of_ne_nil {x : Bytes} (h : x ≠ []) :
    compress x = .ok (blockOf x.toArray).encode := by
  have hx : ¬ x.isEmpty = true := by rwa [List.isEmpty_iff]
  have hb : ¬ (blockOf x.toArray).encode.isEmpty = true := by
    rw [List.isEmpty_iff]
    exact encode_ne_nil _
  rw [compress, if_neg hx, encodeInto_compressBound]
  dsimp only
  rw [if_neg hb]

theorem decode_compress {x block : Bytes} (h : compress x = .ok block) (cap : Nat) :
    decode cap block = if cap < x.length then .error .outputFull else .ok x := by
  by_cases hx : x = []
  · subst hx
    obtain rfl : [] = block := Except.ok.inj (compress_nil.symm.trans h)
    rfl
  · obtain rfl : _ = block := Except.ok.inj ((compress_of_ne_nil hx).symm.trans h)
    obtain ⟨hfits, hexpand⟩ := blockOf_spec x.toArray
    rw [decode_encode cap hfits, hexpand]
    rfl

theorem decompress_compress {x block : Bytes} (h : compress x = .ok block) (cap : Nat) :
    codec.decompress block cap =
      if cap < x.length then ⟨[], .error (.outputTooLarge cap)⟩ else ⟨x, .ok x.length⟩ := by
  simp only [codec, decompress, decode_compress h]
  by_cases hcap : cap < x.length
  · rw [if_pos hcap, if_pos hcap]
    rfl
  · rw [if_neg hcap, if_neg hcap]
    rfl

theorem codec_faithful : codec.Faithful where
  restores {x _} h {cap} hcap := by
    have hfit : Bytes.fit x x.length = x := by simp [Bytes.fit]
    rw [decompress_compress h, if_neg (Nat.not_lt.2 hcap), Bytes.take_fit x hcap]
    exact ⟨rfl, hfit⟩
  refuses {_ _} h {cap} hcap := by
    rw [decompress_compress h, if_pos hcap]

theorem length_compress_le {x block : Bytes} (h : compress x = .ok block) :
    block.length ≤ compressBound x.length := by
  by_cases hx : x = []
  · subst hx
    obtain rfl : [] = block := Except.ok.inj (compress_nil.symm.trans h)
    exact Nat.zero_le _
  · obtain rfl : _ = block := Except.ok.inj ((compress_of_ne_nil hx).symm.trans h)
    exact length_encode_blockOf_le x

/-- Every payload has a block within the bound, empty only for the empty payload. An output offered
for it gets the payload back, or is reported as too small if it is. -/
theorem block_roundtrip (x : Bytes) :
    ∃ block, codec.compress x = .ok block ∧ block.length ≤ compressBound x.length ∧
      (block = [] ↔ x = []) ∧
      ∀ cap,
        (x.length ≤ cap → (codec.decompress block cap).reported = .ok x.length ∧
          (Bytes.fit (codec.decompress block cap).written cap).take x.length = x) ∧
        (cap < x.length →
          (codec.decompress block cap).reported = .error (.outputTooLarge cap)) := by
  obtain ⟨block, h, hempty⟩ : ∃ block, compress x = .ok block ∧ (block = [] ↔ x = []) := by
    by_cases hx : x = []
    · exact ⟨[], hx ▸ compress_nil, by simp [hx]⟩
    · exact ⟨_, compress_of_ne_nil hx, by simp [hx, encode_ne_nil]⟩
  exact ⟨block, h, length_compress_le h, hempty,
    fun _ ↦ ⟨codec_faithful.restores h, codec_faithful.refuses h⟩⟩

end Lz4

end QueuedFiles
