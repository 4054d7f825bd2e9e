/-
Files in a working directory.

Paths are followed step by step: every step but the last has to be a directory,
and a path that ends in a slash is one of a directory. Writing makes the
directories that are missing.
-/
import ContractClient.Bytes.Basic
import ContractClient.Text.CharClass

set_option autoImplicit false

namespace ContractClient.CommandLine

/-- The files of a working directory, each with the steps that lead to it. -/
structure Files where
  entries : List (List String × Bytes) := []

namespace Files

/-- The steps of a path. -/
def steps (path : String) : List String :=
  (Text.splitAt '/' path.toList).map String.ofList

/-- Whether steps lead to a directory. The working directory is one, and so is
everything on the way to a file. -/
def isDirectory (f : Files) (place : List String) : Bool :=
  place.isEmpty || f.entries.any fun e => place.length < e.1.length && e.1.take place.length == place

/-- The content of a file. -/
def content? (f : Files) (place : List String) : Option Bytes :=
  (f.entries.find? (·.1 == place)).map (·.2)

/-- Where steps lead from a place, if every place on the way that is left again
is a directory. Above the working directory there is nothing to see. -/
def follow (f : Files) (place : List String) : List String → Option (List String)
  | [] => some place
  | step :: rest =>
    if !f.isDirectory place then none
    else if step == "" || step == "." then f.follow place rest
    else if step == ".." then
      match place with
      | [] => none
      | _ => f.follow place.dropLast rest
    else f.follow (place ++ [step]) rest

/-- The content of the file at a path. -/
def read (f : Files) (path : String) : Option Bytes :=
  if path.isEmpty || path.startsWith "/" then none
  else (f.follow [] (steps path)).bind f.content?

/-- Where steps lead when missing directories are made on the way; nothing for
places outside of the working directory. -/
def resolved (place : List String) : List String → Option (List String)
  | [] => some place
  | step :: rest =>
    if step == "" || step == "." then resolved place rest
    else if step == ".." then
      match place with
      | [] => none
      | _ => resolved place.dropLast rest
    else resolved (place ++ [step]) rest

/-- Whether a file can be written at a place: it is no directory, and nothing on
the way is a file. -/
def isWritable (f : Files) (place : List String) : Bool :=
  !f.isDirectory place && f.entries.all fun e => !(e.1.length < place.length && place.take e.1.length == e.1)

/-- What comes of writing. -/
inductive Written
  /-- The file at a place in the working directory is new or has other content
  than before. -/
  | changed (place : String)
  /-- Nothing in the working directory changed. -/
  | unchanged
  /-- The file could not be written. -/
  | refused
  deriving DecidableEq, Repr

/-- Writes a file. -/
def write (f : Files) (path : String) (content : Bytes) : Written :=
  if path.startsWith "/" then .unchanged
  else
    match resolved [] (steps path) with
    | none => .unchanged
    | some place =>
      if !f.isWritable place then .refused
      else if f.content? place == some content then .unchanged
      else .changed ("/".intercalate place)

end Files

end ContractClient.CommandLine
