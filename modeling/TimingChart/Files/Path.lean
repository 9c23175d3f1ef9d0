import TimingChart.Text.Utf8

/-!
# Paths

A path is a byte string in which slashes separate names. Only the byte string decides what a path
leads to; what is shown of it is its text.
-/

namespace TimingChart

structure Path where
  bytes : Bytes
deriving DecidableEq, Repr

namespace Path

def slash : UInt8 := 0x2F

/-- The name that stands for a directory itself, and the one that stands for the directory above. -/
def here : Bytes := [0x2E]
def above : Bytes := [0x2E, 0x2E]

def ofString (s : String) : Path := ⟨Utf8.encode s.toList⟩

/-- The path as shown, with the replacement character for what is no text. -/
def display (p : Path) : String := String.ofList (Utf8.decodeLossy p.bytes)

def isEmpty (p : Path) : Bool := p.bytes.isEmpty

/-- Absolute paths start at the root, all others at the current directory. -/
def isAbsolute (p : Path) : Bool := p.bytes.head? = some slash

/-- The parts between the slashes, some of them empty. -/
def splitSlashes : Bytes → List Bytes
  | [] => [[]]
  | b :: rest =>
    if b = slash then [] :: splitSlashes rest
    else
      match splitSlashes rest with
      | [] => [[b]]
      | part :: parts => (b :: part) :: parts

def parts (p : Path) : List Bytes := splitSlashes p.bytes

/-- The parts that matter for the form of a path: neither empty ones nor `.`, except for a `.` that
a relative path starts with. -/
def components (p : Path) : List Bytes :=
  let rest (parts : List Bytes) := parts.filter fun part => part ≠ [] && part ≠ here
  match p.parts with
  | first :: others => if first = here then here :: rest others else rest (first :: others)
  | [] => []

/-- The last component, if it is a name. -/
def fileName? (p : Path) : Option Bytes :=
  match p.components.getLast? with
  | some name => if name = here ∨ name = above then none else some name
  | none => none

/-- The path of some components. -/
def ofComponents (absolute : Bool) (components : List Bytes) : Path :=
  ⟨(if absolute then [slash] else []) ++ [slash].intercalate components⟩

/-- The path and then, one by one, the paths with fewer components. -/
def ancestors (p : Path) : List Path :=
  p :: (List.range p.components.length).reverse.map fun count =>
    ofComponents p.isAbsolute (p.components.take count)

/-- The path of a name in a directory. -/
def child (directory : Path) (name : Bytes) : Path :=
  if directory.isEmpty then ⟨name⟩
  else if directory.bytes.getLast? = some slash then ⟨directory.bytes ++ name⟩
  else ⟨directory.bytes ++ slash :: name⟩

end Path

end TimingChart
