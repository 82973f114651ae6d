import QueuedFiles.Text.Unseen

/-!
Quoted text: the form in which paths and names stand inside messages. A reader of a message can tell
where the text ends, and characters that show nothing of their own are spelled out.
-/

namespace QueuedFiles.Text

/-- How one character stands inside quotes. -/
def quoteChar (c : Char) : List Char :=
  if c = '"' then ['\\', '"']
  else if c = '\\' then ['\\', '\\']
  else if c = '\n' then ['\\', 'n']
  else if c = '\r' then ['\\', 'r']
  else if c = '\t' then ['\\', 't']
  else if c = '\x00' then ['\\', '0']
  else if isUnseen c then ['\\', 'u', '\x7b'] ++ Nat.toDigits 16 c.toNat ++ ['\x7d']
  else [c]

def quoted (s : String) : String :=
  String.ofList ('"' :: s.toList.flatMap quoteChar ++ ['"'])

end QueuedFiles.Text
