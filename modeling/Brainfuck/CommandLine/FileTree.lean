import Brainfuck.Text.Pieces

/-!
The files around a command line. A call knows them only by what it gets when it
reads a path, so anything that answers to paths will do (`Reader`). A `FileTree`
is such a reader: a working directory with directories and files in it, and an
outside of which only the directories above are known. A path is walked one
component at a time.
-/

set_option autoImplicit false
set_option relaxedAutoImplicit false

namespace Brainfuck.CommandLine

/-- Why a file cannot be read. -/
inductive ReadError where
  | notFound
  /-- There is something, but the system does not give it away, for this reason. -/
  | refused (reason : String)
  deriving DecidableEq

namespace ReadError

def isDirectory : ReadError := .refused "Is a directory"

def nameTooLong : ReadError := .refused "File name too long"

end ReadError

/-- The content of the file that each path names, the path as it was given. -/
abbrev Reader := String → Except ReadError (List UInt8)

/-- A path, cut into components. Empty components and those that say "here" are dropped. -/
structure Path where
  absolute : Bool
  components : List String

namespace Path

def ofText (text : String) : Path where
  absolute := text.startsWith "/"
  components := (Text.pieces '/' text).filter fun c ↦ c != "" && c != "."

/-- A path in its shortest form; the path without components is the working directory. -/
def text (p : Path) : String :=
  let names := "/".intercalate p.components
  if p.absolute then "/" ++ names
  else if p.components.isEmpty then "."
  else names

end Path

inductive Entry where
  | directory
  | file (content : List UInt8)

/-- What the working directory holds, by path below it. A directory need not be listed if
something in it is. -/
structure FileTree where
  entries : List (List String × Entry)

/-- Where a walk stands: below the working directory, innermost name first, or somewhere
outside of it. -/
inductive Place where
  | inside (names : List String)
  | outside

namespace FileTree

def longestName : Nat := 255

def longestPath : Nat := 4095

def entry? (t : FileTree) : Place → Option Entry
  | .outside => some .directory
  | .inside names =>
    let path := names.reverse
    match t.entries.find? fun entry ↦ entry.1 == path with
    | some entry => some entry.2
    | none =>
      if path.isEmpty || t.entries.any fun entry ↦ path.isPrefixOf entry.1 then
        some .directory
      else
        none

/-- The place that a name leads to. -/
def enter : Place → String → Option Place
  | .inside (_ :: names), ".." => some (.inside names)
  | _, ".." => some .outside
  | .inside names, name => some (.inside (name :: names))
  | .outside, _ => none

/-- Walks on and reads what is found there. -/
def readFrom (t : FileTree) (place : Place) : List String → Except ReadError (List UInt8)
  | [] =>
    match t.entry? place with
    | some (.file content) => .ok content
    | some .directory => .error .isDirectory
    | none => .error .notFound
  | name :: rest =>
    match t.entry? place with
    | some .directory =>
      if longestName < name.utf8ByteSize then
        .error .nameTooLong
      else
        match enter place name with
        | some next => t.readFrom next rest
        | none => .error .notFound
    | _ => .error .notFound

/-- The content of the file that a path names. -/
def read (t : FileTree) : Reader := fun text ↦
  let path := Path.ofText text
  if text.toList.contains (Char.ofNat 0) then .error .notFound
  else if longestPath < path.text.utf8ByteSize then .error .nameTooLong
  else t.readFrom (if path.absolute then .outside else .inside []) path.components

instance : Coe FileTree Reader := ⟨read⟩

end FileTree

end Brainfuck.CommandLine
