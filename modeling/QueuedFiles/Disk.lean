import QueuedFiles.FileSystem

/-!
A disk in memory: files, directories, pipes and three devices, each at a location. Paths are
resolved from left to right, and the first component that fails decides the fault.
-/

namespace QueuedFiles

/-- The names from the root down to a node. -/
abbrev Location := List String

inductive Node where
  | file (content : Bytes)
  | directory
  | fifo
  /-- The device that swallows writes. -/
  | null
  /-- The device of endless zeros. -/
  | zero
  /-- The device without space. -/
  | full
deriving DecidableEq

/-- A disk. Locations not listed hold nothing, but the root is always a directory. There are no
links: two locations are never the same file, so that a location is all that tells files apart. -/
structure Disk where
  nodes : List (Location × Node)
  workingDirectory : Location
deriving DecidableEq

namespace Disk

/-- Longest name of a node, in bytes. -/
def maxName : Nat := 255

/-- A path must be shorter than this, in bytes. -/
def pathCeiling : Nat := 4096

/-- The size that is reported for a directory, with or without nodes in it. It is not zero, so that
a read of a directory does reach the call that fails. -/
def directorySize : Nat := 4096

def find? (d : Disk) (l : Location) : Option Node :=
  if l = [] then some .directory else d.nodes.lookup l

def insert (d : Disk) (l : Location) (n : Node) : Disk :=
  { d with nodes := (l, n) :: d.nodes.filter fun e ↦ e.1 ≠ l }

/-- The devices, and an empty working directory. -/
def initial : Disk where
  nodes := [
    (["dev"], .directory),
    (["dev", "null"], .null),
    (["dev", "zero"], .zero),
    (["dev", "full"], .full),
    (["work"], .directory)]
  workingDirectory := ["work"]

instance : Inhabited Disk := ⟨initial⟩

/-- What stands between the slashes of a path. -/
def segments : List Char → List (List Char)
  | [] => [[]]
  | c :: cs =>
    if c = '/' then [] :: segments cs
    else
      match segments cs with
      | [] => [[c]]
      | n :: ns => (c :: n) :: ns

def names (path : String) : List String :=
  ((segments path.toList).filter (· ≠ [])).map String.ofList

def isAbsolute (path : String) : Bool := path.toList.head? = some '/'

def hasTrailingSlash (path : String) : Bool := path.toList.getLast? = some '/'

def start (d : Disk) (path : String) : Location :=
  if isAbsolute path then [] else d.workingDirectory

/-- Whether a name may follow a location: only directories have names in them. -/
def enter (d : Disk) (l : Location) : Except Fault Unit :=
  match d.find? l with
  | some .directory => .ok ()
  | some _ => .error .notADirectory
  | none => .error .notFound

/-- Follows names that must all exist. -/
def walk (d : Disk) : Location → List String → Except Fault Location
  | l, [] => .ok l
  | l, n :: ns => do
    d.enter l
    if n = "." then d.walk l ns
    else if n = ".." then d.walk l.dropLast ns
    else if maxName < n.utf8ByteSize then .error .nameTooLong
    else
      match d.find? (l ++ [n]) with
      | some _ => d.walk (l ++ [n]) ns
      | none => .error .notFound

def checkPath (path : String) : Except Fault Unit :=
  if path.isEmpty then .error .notFound
  else if pathCeiling ≤ path.utf8ByteSize then .error .nameTooLong
  else .ok ()

def resolve (d : Disk) (path : String) : Except Fault Location := do
  checkPath path
  let l ← d.walk (d.start path) (names path)
  if hasTrailingSlash path then d.enter l
  .ok l

/-- The location that a path to be written names: not a directory, and perhaps still empty. -/
def resolveTarget (d : Disk) (path : String) : Except Fault Location := do
  checkPath path
  match (names path).getLast? with
  | none => .error .isADirectory
  | some n =>
    let l ← d.walk (d.start path) (names path).dropLast
    d.enter l
    if hasTrailingSlash path ∨ n = "." ∨ n = ".." then .error .isADirectory
    else if maxName < n.utf8ByteSize then .error .nameTooLong
    else if d.find? (l ++ [n]) = some .directory then .error .isADirectory
    else .ok (l ++ [n])

def inspect (d : Disk) (path : String) : Option Node :=
  match d.resolve path with
  | .ok l => d.find? l
  | .error _ => none

def isInside (outer inner : Location) : Bool := outer ≠ inner && outer.isPrefixOf inner

def sizeOf (d : Disk) (l : Location) : Nat :=
  match d.find? l with
  | some (.file content) => content.length
  | some .directory => directorySize
  | _ => 0

def readEvents (d : Disk) (l : Location) : List ReadEvent :=
  match d.find? l with
  | some (.file content) => [.bytes content]
  | some .directory => [.failed .isADirectory]
  | _ => []

/-- The disk after a location was opened for writing: a missing file is there, and one that is not
to be appended to is empty. -/
def opened (d : Disk) (l : Location) (mode : WriteMode) : Disk :=
  match d.find? l, mode with
  | none, _ => d.insert l (.file [])
  | some (.file _), .truncate => d.insert l (.file [])
  | some _, _ => d

def extended (d : Disk) (l : Location) (b : Bytes) : Except Fault Unit × Disk :=
  match d.find? l with
  | some (.file content) => (.ok (), d.insert l (.file (content ++ b)))
  | some .full => (if b.isEmpty then .ok () else .error .noSpace, d)
  | _ => (.ok (), d)

def fileSystem : FileSystem where
  State := Disk
  Handle := Location
  openToRead d path := (d.resolve path, d)
  size d l := (.ok (d.sizeOf l), d)
  read d l := (d.readEvents l, d)
  isExtensible d path :=
    (match d.inspect path with
      | none => false
      | some .directory => false
      | some _ => true, d)
  openToWrite d path mode :=
    match d.resolveTarget path with
    | .ok l => (.ok l, d.opened l mode)
    | .error fault => (.error fault, d)
  seekEnd d l := (if d.find? l = some .fifo then .error .illegalSeek else .ok (), d)
  write d l b := d.extended l b

/-- A directory and all directories above it. -/
def makeDirectories (d : Disk) (l : Location) : Disk :=
  (List.range l.length).foldl (fun d i ↦
    let parent := l.take (i + 1)
    if (d.find? parent).isSome then d else d.insert parent .directory) d

/-- The location that names lead to, whatever stands on the way. -/
def follow (l : Location) (ns : List String) : Location :=
  ns.foldl (fun l n ↦ if n = "." then l else if n = ".." then l.dropLast else l ++ [n]) l

/-- The location that a path spells. -/
def locate (d : Disk) (path : String) : Location := follow (d.start path) (names path)

/-- Puts a node where a path leads, with the directories above it. -/
def place (d : Disk) (path : String) (n : Node) : Disk :=
  let l := d.locate path
  if n = .directory then d.makeDirectories l else (d.makeDirectories l.dropLast).insert l n

/-- All paths inside the working directory, those of directories with a slash behind them. -/
def listing (d : Disk) : List String :=
  let inside := d.nodes.filter fun e ↦ isInside d.workingDirectory e.1
  let paths := inside.map fun e ↦
    String.intercalate "/" (e.1.drop d.workingDirectory.length) ++
      (if e.2 = .directory then "/" else "")
  paths.mergeSort fun a b ↦ !(b < a)

end Disk

end QueuedFiles
