/-!
Documents that are written: numbers and objects with plain keys, in a compact and an indented form.
-/

namespace QueuedFiles.Json

/-- A document to be written. Keys hold no character that needs an escape; a number that is not
natural is given as its text. -/
inductive Tree where
  | natural (n : Nat)
  | number (text : String)
  | object (entries : List (String × Tree))

namespace Tree

/-- The text of a tree, given what stands before an entry and before a closing bracket at each
depth, and behind a key. -/
def write (entryBreak closeBreak : Nat → String) (colon : String) (depth : Nat) : Tree → String
  | .natural n => n.repr
  | .number text => text
  | .object [] => "\x7b\x7d"
  | .object (e :: es) =>
    "\x7b" ++ entryBreak depth ++ writeEntry e ++ writeEntries es ++ closeBreak depth ++ "\x7d"
where
  writeEntry : String × Tree → String
    | (key, t) => "\"" ++ key ++ "\"" ++ colon ++ write entryBreak closeBreak colon (depth + 1) t
  writeEntries : List (String × Tree) → String
    | [] => ""
    | e :: es => "," ++ entryBreak depth ++ writeEntry e ++ writeEntries es

def compact (t : Tree) : String := t.write (fun _ ↦ "") (fun _ ↦ "") ":" 0

/-- A new line, two spaces deep for each open bracket. -/
def lineBreak (depth : Nat) : String := String.ofList ('\n' :: List.replicate (2 * depth) ' ')

def pretty (t : Tree) : String := t.write (fun d ↦ lineBreak (d + 1)) lineBreak ": " 0

end Tree

end QueuedFiles.Json
