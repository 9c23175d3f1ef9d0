import TimingChart.Fault

/-!
# File systems

A file system is a finite table of files and directories, with a current directory from which
relative paths start. A path is walked part by part; every part but the last must lead to a
directory. Closed files cannot be read or written, and closed directories cannot be entered.
-/

namespace TimingChart

/-- The names on the way from the root to a file or directory. -/
abbrev Location := List Bytes

inductive Entry where
  | directory
  | file (content : Bytes)
deriving DecidableEq, Repr

structure FileSystem where
  entries : List (Location × Entry)
  current : Location
  /-- the files and directories that must not be used -/
  closed : List Location
deriving DecidableEq, Repr

namespace FileSystem

/-- What is at a location. The root is always a directory. -/
def entry? (fs : FileSystem) (l : Location) : Option Entry :=
  if l = [] then some .directory else fs.entries.lookup l

/-- The file system with something new at a location. -/
def put (fs : FileSystem) (l : Location) (e : Entry) : FileSystem :=
  { fs with entries := (l, e) :: fs.entries.filter fun (other, _) => other ≠ l }

/-! ## Walking -/

/-- The greatest length of a name. -/
def nameLimit : Nat := 255

/-- The length from which on a path is too long. -/
def pathLimit : Nat := 4096

/-- Follows the parts of a path from a location on. -/
def walk (fs : FileSystem) (l : Location) : List Bytes → Except OsError Location
  | [] => .ok l
  | part :: rest =>
    match fs.entry? l with
    | none => .error .notFound
    | some (.file _) => .error .notADirectory
    | some .directory =>
      if part = [] then fs.walk l rest
      else if l ∈ fs.closed then .error .permissionDenied
      else if part = Path.here then fs.walk l rest
      else if part = Path.above then fs.walk l.dropLast rest
      else if nameLimit < part.length then .error .nameTooLong
      else
        match fs.entry? (l ++ [part]) with
        | none => .error .notFound
        | some _ => fs.walk (l ++ [part]) rest

/-- Where walking a path begins. -/
def origin (fs : FileSystem) (p : Path) : Location := if p.isAbsolute then [] else fs.current

/-- Refuses paths that lead nowhere in any file system. -/
def check (p : Path) : Except IoFault Unit :=
  if 0 ∈ p.bytes then .error .zeroInName
  else if p.isEmpty then .error (.os .notFound)
  else if pathLimit ≤ p.bytes.length then .error (.os .nameTooLong)
  else .ok ()

/-- Where a path leads to. -/
def find (fs : FileSystem) (p : Path) : Except IoFault Location := do
  check p
  (fs.walk (fs.origin p) p.parts).mapError .os

/-- What a path leads to, opened for reading. -/
def get (fs : FileSystem) (p : Path) : Except IoFault Entry := do
  let l ← fs.find p
  if l ∈ fs.closed then throw (.os .permissionDenied)
  match fs.entry? l with
  | some e => return e
  | none => throw (.os .notFound)

def isDirectory (fs : FileSystem) (p : Path) : Bool :=
  match fs.find p with
  | .ok l => fs.entry? l = some .directory
  | .error _ => false

/-- The directory that a new name is to be put into. -/
def findParent (fs : FileSystem) (p : Path) (parts : List Bytes) : Except IoFault Location := do
  let l ← (fs.walk (fs.origin p) parts).mapError .os
  match fs.entry? l with
  | some .directory => if l ∈ fs.closed then throw (.os .permissionDenied) else return l
  | some (.file _) => throw (.os .notADirectory)
  | none => throw (.os .notFound)

/-- Whether a last part is a name; otherwise it stands for a directory that is there already. -/
def isName (part : Bytes) : Bool := part ≠ [] && part ≠ Path.here && part ≠ Path.above

/-! ## Changing -/

/-- Writes a file, a new one or over an old one. -/
def write (fs : FileSystem) (p : Path) (content : Bytes) : Except IoFault FileSystem := do
  check p
  let l ← fs.findParent p p.parts.dropLast
  let name := p.parts.getLastD []
  if !isName name then throw (.os .isADirectory)
  if nameLimit < name.length then throw (.os .nameTooLong)
  match fs.entry? (l ++ [name]) with
  | some .directory => throw (.os .isADirectory)
  | _ =>
    if l ++ [name] ∈ fs.closed then throw (.os .permissionDenied)
    return fs.put (l ++ [name]) (.file content)

/-- Makes one directory. -/
def makeDirectory (fs : FileSystem) (p : Path) : Except IoFault FileSystem := do
  check p
  let parts := (p.parts.reverse.dropWhile (· = [])).reverse
  let l ← fs.findParent p parts.dropLast
  let name := parts.getLastD []
  if !isName name then throw (.os .alreadyExists)
  if nameLimit < name.length then throw (.os .nameTooLong)
  match fs.entry? (l ++ [name]) with
  | some _ => throw (.os .alreadyExists)
  | none => return fs.put (l ++ [name]) .directory

/-- The outcome of a change that can stop half way: what has been changed by then stays. -/
structure Change where
  files : FileSystem
  fault : Option IoFault

/-- Accepts a directory that could not be made if it is there. -/
def orPresent (fs : FileSystem) (p : Path) (fault : IoFault) : Change :=
  ⟨fs, if fs.isDirectory p then none else some fault⟩

/-- Makes the first of some paths a directory, after the second one if that is missing, and so on.
The empty path needs no directory. -/
def makeInside (fs : FileSystem) : List Path → Change
  | [] => ⟨fs, some (.os .notFound)⟩
  | p :: outer =>
    if p.isEmpty then ⟨fs, none⟩
    else
      match fs.makeDirectory p with
      | .ok made => ⟨made, none⟩
      | .error fault =>
        if fault = .os .notFound then
          let change := fs.makeInside outer
          if change.fault.isSome then change
          else
            match change.files.makeDirectory p with
            | .ok made => ⟨made, none⟩
            | .error fault => change.files.orPresent p fault
        else fs.orPresent p fault

/-- Makes a directory and those on the way to it, as far as they are missing. -/
def makeDirectories (fs : FileSystem) (p : Path) : Change := fs.makeInside p.ancestors

/-! ## Listing -/

/-- The order of byte strings. -/
def bytesLe : Bytes → Bytes → Bool
  | [], _ => true
  | _ :: _, [] => false
  | a :: as, b :: bs => a < b || (a = b && bytesLe as bs)

/-- The path of an entry below the current directory; directories end with a slash. -/
def relative? (fs : FileSystem) : Location × Entry → Option (Path × Entry)
  | (l, e) =>
    if fs.current.isPrefixOf l && fs.current.length < l.length then
      let path := [Path.slash].intercalate (l.drop fs.current.length)
      some (⟨match e with | .directory => path ++ [Path.slash] | .file _ => path⟩, e)
    else none

/-- All that is below the current directory, ordered by path. -/
def listing (fs : FileSystem) : List (Path × Entry) :=
  (fs.entries.filterMap fs.relative?).mergeSort fun a b => bytesLe a.1.bytes b.1.bytes

/-! ## Setting up -/

/-- A file system in which only the way to the current directory exists. -/
def blank (current : Location) : FileSystem :=
  ⟨(List.range current.length).map fun n => (current.take (n + 1), .directory), current, []⟩

/-- Makes a directory, as far as that is possible. -/
def withDirectory (fs : FileSystem) (p : Path) : FileSystem := (fs.makeDirectories p).files

/-- Writes a file and makes the directories on the way to it, as far as that is possible. -/
def withFile (fs : FileSystem) (p : Path) (content : Bytes) : FileSystem :=
  let fs := match p.ancestors with
    | _ :: parent :: _ => fs.withDirectory parent
    | _ => fs
  (fs.write p content).toOption.getD fs

end FileSystem

end TimingChart
