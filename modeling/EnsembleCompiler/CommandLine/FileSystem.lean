/-!
# File systems

The files that a run can see, by their locations, and what reading and writing a path does.
-/

namespace EnsembleCompiler.CommandLine

/-- Why a file cannot be read or written. -/
inductive FileError where
  | notFound
  | notDirectory
  | isDirectory
  | nameTooLong
  | notText
  | other (text : String)
  deriving DecidableEq, Repr

def FileError.message : FileError → String
  | notFound => "No such file or directory (os error 2)"
  | notDirectory => "Not a directory (os error 20)"
  | isDirectory => "Is a directory (os error 21)"
  | nameTooLong => "File name too long (os error 36)"
  | notText => "stream did not contain valid UTF-8"
  | other text => text

/-- The names on the way to a file. The way of an absolute path begins with `/`. -/
abbrev Location := List String

inductive Entry where
  | file (bytes : List UInt8)
  | directory
  /-- A file that is always empty. -/
  | sink
  deriving DecidableEq, Repr

/-- What a run can see. No location has two entries that matter: the first counts. There are no
links: what is at one location is at no other. -/
structure FileSystem where
  entries : List (Location × Entry)
  deriving DecidableEq, Repr

/-- The parts of a path between slashes. -/
def splitSlashes (current : List Char) : List Char → List String
  | [] => [String.ofList current.reverse]
  | '/' :: rest => String.ofList current.reverse :: splitSlashes [] rest
  | c :: rest => splitSlashes (c :: current) rest

/-- The location where a path begins: the root, or the directory of the run. -/
def startOf (path : String) : Location := if path.toList.head? = some '/' then ["/"] else []

/-- The location one step up. Above the root is the root itself. -/
def parentOf (location : Location) : Location :=
  match location.getLast? with
  | none | some ".." => location ++ [".."]
  | some "/" => location
  | some _ => location.dropLast

/-- The most bytes of a name. -/
def nameLimit : Nat := 255

/-- The most bytes of a path. -/
def pathLimit : Nat := 4095

namespace FileSystem

/-- The entry at a location. The root, the directory of the run and those above it are always
there. -/
def find? (fs : FileSystem) (location : Location) : Option Entry :=
  if location = ["/"] || location.all (· = "..") then some .directory
  else (fs.entries.find? (·.1 = location)).map Prod.snd

/-- The file system with other bytes at a location. -/
def set (fs : FileSystem) (location : Location) (bytes : List UInt8) : FileSystem :=
  ⟨(location, .file bytes) :: fs.entries.filter (·.1 ≠ location)⟩

/-- Goes on from a directory by a part of a path. An empty part and a dot stay, two dots go up, and
any other name is that of an entry of the directory. -/
def step (fs : FileSystem) (location : Location) (name : String) : Except FileError Location :=
  if fs.find? location ≠ some .directory then .error .notDirectory
  else if name = "" || name = "." then .ok location
  else if name = ".." then .ok (parentOf location)
  else if nameLimit < name.utf8ByteSize then .error .nameTooLong
  else if (fs.find? (location ++ [name])).isNone then .error .notFound
  else .ok (location ++ [name])

/-- The location to which the parts of a path lead one by one. -/
def walk (fs : FileSystem) (start : Location) (names : List String) : Except FileError Location :=
  names.foldlM fs.step start

/-- Checks that a path can be one at all. -/
def checkPath (path : String) : Except FileError Unit :=
  if path = "" then .error .notFound
  else if pathLimit < path.utf8ByteSize then .error .nameTooLong
  else .ok ()

/-- The bytes of a file. -/
def read (fs : FileSystem) (path : String) : Except FileError (List UInt8) := do
  checkPath path
  match fs.find? (← fs.walk (startOf path) (splitSlashes [] path.toList)) with
  | some (.file bytes) => .ok bytes
  | some .sink => .ok []
  | some .directory => .error .isDirectory
  | none => .error .notFound

/-- The location of the file to write, which may be new, in a directory that exists. A path that
ends in a slash or in dots is that of a directory. -/
def target (fs : FileSystem) (path : String) : Except FileError Location := do
  checkPath path
  let reversed := (splitSlashes [] path.toList).reverse
  match reversed.dropWhile (· = "") with
  | [] => .error .isDirectory
  | name :: before =>
    let directory ← fs.walk (startOf path) before.reverse
    if fs.find? directory ≠ some .directory then .error .notDirectory
    else if reversed.head? = some "" || name = "." || name = ".." then .error .isDirectory
    else if nameLimit < name.utf8ByteSize then .error .nameTooLong
    else .ok (directory ++ [name])

/-- Writes a file. -/
def write (fs : FileSystem) (path : String) (bytes : List UInt8) :
    Except FileError FileSystem := do
  let location ← fs.target path
  match fs.find? location with
  | some .directory => .error .isDirectory
  | some .sink => .ok fs
  | some (.file _) | none => .ok (fs.set location bytes)

end FileSystem

/-- A path without the slashes and dots at its end that name no file; last characters first. -/
def stripEnd : List Char → List Char
  | '/' :: rest => stripEnd rest
  | '.' :: '/' :: rest => stripEnd rest
  | cs => cs

/-- The path with the extension of its file name replaced. The name up to its last dot is kept,
all of it if that is its first character. A path without file name stays as it is; so does what
is left of a path when the extension is taken off, and that is two dots. -/
def withExtension (path : String) (extension : String) : String :=
  let reversed := stripEnd path.toList.reverse
  let name := (reversed.takeWhile (· ≠ '/')).reverse
  let directory := (reversed.dropWhile (· ≠ '/')).reverse
  if name = [] || name = ['.'] || name = ['.', '.'] then path
  else
    let beforeDot := ((name.reverse.dropWhile (· ≠ '.')).drop 1).reverse
    let stem := if beforeDot.isEmpty then name else beforeDot
    let isWholeEnd := reversed.length = path.length
    if stem = ['.'] && isWholeEnd then String.ofList (directory ++ ['.', '.'])
    else String.ofList (directory ++ stem ++ ['.']) ++ extension

end EnsembleCompiler.CommandLine
