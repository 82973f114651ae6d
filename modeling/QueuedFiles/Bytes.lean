/-!
Byte strings and their link with text. Files, payloads and documents are all byte strings here.
-/

namespace QueuedFiles

abbrev Bytes := List UInt8

namespace Bytes

def ofText (s : String) : Bytes := s.toByteArray.data.toList

/-- The text with a given UTF-8 form; empty when there is none. -/
def toText (b : Bytes) : String := (String.fromUTF8? ⟨b.toArray⟩).getD ""

def ascii (c : Char) : UInt8 := c.toNat.toUInt8

/-- An `n`-byte buffer that was all zeros before `written` went over it from the front. -/
def fit (written : Bytes) (n : Nat) : Bytes :=
  let missing := n - written.length
  written.take n ++ List.replicate missing 0

theorem length_fit (written : Bytes) (n : Nat) : (fit written n).length = n := by
  simp only [fit, List.length_append, List.length_take, List.length_replicate]
  omega

theorem fit_eq (written : Bytes) (n : Nat) :
    fit written n = (written ++ List.replicate n 0).take n := by
  rw [fit, List.take_append, List.take_replicate, Nat.min_eq_left (Nat.sub_le ..)]

theorem take_fit (written : Bytes) {n m : Nat} (h : n ≤ m) :
    (fit written m).take n = fit written n := by
  rw [fit, fit, List.take_append, List.take_take, Nat.min_eq_left h, List.take_replicate,
    List.length_take]
  congr 2
  omega

theorem ofText_append (s t : String) : ofText (s ++ t) = ofText s ++ ofText t := by
  simp [ofText]

end Bytes

end QueuedFiles
