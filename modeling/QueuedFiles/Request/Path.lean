import QueuedFiles.Error

/-!
Request paths. Their length is checked when a request is made, their form only when a file is
touched.
-/

namespace QueuedFiles

structure Path where
  text : String
deriving DecidableEq

namespace Path

/-- A path of at most `max` bytes of UTF-8. -/
def ofText (text : String) (max : Nat) : Except Error Path :=
  if max < text.utf8ByteSize then .error (.pathTooLong text.utf8ByteSize max) else .ok ⟨text⟩

/-- The form that the operating system takes: not empty and without a zero character. -/
def native (p : Path) : Except Error String :=
  if p.text.isEmpty then .error (.pathEncoding p.text .empty)
  else if p.text.toList.contains '\x00' then .error (.pathEncoding p.text .nulByte)
  else .ok p.text

end Path

end QueuedFiles
