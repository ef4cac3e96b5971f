import X25.Command.Path

/-! # Trees of files

Files stand at places, which are named from the root directory or from the directory a command
works in. That directory and those above it exist, and so does each directory with a file in it.
Of the rest of the system only the directories that every system has and the null device are
known; places above the working directory are not compared with places named from the root.
-/

namespace X25

inductive FileError
  | notFound
  | notADirectory
  | isADirectory
  | nameTooLong
  | other (reason : String)
  deriving DecidableEq, Repr

def FileError.message : FileError → String
  | notFound => "No such file or directory (os error 2)"
  | notADirectory => "Not a directory (os error 20)"
  | isADirectory => "Is a directory (os error 21)"
  | nameTooLong => "File name too long (os error 36)"
  | other reason => reason

/-- The directory from which a place is named: the root, or one that is so many levels above the
working directory. -/
inductive Origin
  | root
  | above (levels : Nat)
  deriving DecidableEq, Repr

def Origin.parent : Origin → Origin
  | root => root
  | above levels => above (levels + 1)

/-- A place in a tree of files: the names on the way from its origin. -/
structure Place where
  origin : Origin
  names : List (List Char)
  deriving DecidableEq, Repr

namespace Place

def root : Place :=
  ⟨.root, []⟩

def ofNames (names : List (List Char)) : Place :=
  ⟨.above 0, names⟩

def parent (p : Place) : Place :=
  if p.names.isEmpty then ⟨p.origin.parent, []⟩ else { p with names := p.names.dropLast }

def enter (p : Place) (name : List Char) : Place :=
  { p with names := p.names ++ [name] }

def contains (p q : Place) : Bool :=
  p.origin == q.origin && p.names.isPrefixOf q.names && p.names != q.names

/-- The device that is always empty, whatever is written to it. -/
def nullDevice : Place :=
  ⟨.root, ["dev".toList, "null".toList]⟩

def standardDirectories : List Place :=
  ["bin", "boot", "dev", "etc", "home", "lib", "media", "mnt", "opt", "proc", "root", "run",
    "sbin", "srv", "sys", "tmp", "usr", "var"].map fun name => root.enter name.toList

end Place

structure File where
  place : Place
  bytes : List UInt8
  deriving DecidableEq, Repr

abbrev FileTree := List File

namespace FileTree

def find? (t : FileTree) (place : Place) : Option (List UInt8) :=
  if place = .nullDevice then some []
  else (List.find? (fun (f : File) => f.place == place) t).map (·.bytes)

def isDirectory (t : FileTree) (place : Place) : Bool :=
  place.names.isEmpty || Place.standardDirectories.contains place ||
    List.any t fun f => place.contains f.place

def checkDirectory (t : FileTree) (place : Place) : Except FileError Unit :=
  if t.isDirectory place then .ok ()
  else if (t.find? place).isSome then .error .notADirectory
  else .error .notFound

def nameLimit : Nat := 255

def pathLimit : Nat := 4095

/-- Walks the pieces of a path from a place on. Each piece needs a directory before it. -/
def walk (t : FileTree) (place : Place) : List (List Char) → Except FileError Place
  | [] => .ok place
  | piece :: rest => do
    t.checkDirectory place
    if piece.isEmpty || Path.isDot piece then t.walk place rest
    else if Path.isDotDot piece then t.walk place.parent rest
    else if nameLimit < (String.ofList piece).utf8ByteSize then throw .nameTooLong
    else t.walk (place.enter piece) rest

def start (p : Path) : Except FileError Place :=
  if pathLimit < p.text.utf8ByteSize then .error .nameTooLong
  else if p.text.isEmpty then .error .notFound
  else .ok (if p.isAbsolute then .root else .ofNames [])

def locate (t : FileTree) (p : Path) : Except FileError Place := do
  t.walk (← start p) p.pieces

/-- The place before the last piece of a path, slashes at the end aside. -/
def locateParent (t : FileTree) (p : Path) : Except FileError Place := do
  t.walk (← start p) (p.pieces.reverse.dropWhile (·.isEmpty)).tail.reverse

def read (t : FileTree) (p : Path) : Except FileError (List UInt8) := do
  let place ← t.locate p
  if t.isDirectory place then throw .isADirectory
  match t.find? place with
  | some bytes => return bytes
  | none => throw .notFound

def put (t : FileTree) (place : Place) (bytes : List UInt8) : FileTree :=
  if place = .nullDevice then t else List.filter (fun f => f.place != place) t ++ [⟨place, bytes⟩]

/-- Writes a file. A path that ends with a slash stands for a directory, even if what comes before
the slash is a file, too long, or missing. -/
def write (t : FileTree) (p : Path) (bytes : List UInt8) : Except FileError FileTree := do
  if p.endsWithSlash then
    t.checkDirectory (← t.locateParent p)
    throw .isADirectory
  let place ← t.locate p
  if t.isDirectory place then throw .isADirectory
  return t.put place bytes

end FileTree

end X25
