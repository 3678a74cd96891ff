import NameBinding.Error
import NameBinding.Files.Path

/-!
# Files

The files a run of the program can see, as a value: what is stored under which
names, counted from the working directory. Reading and writing follow the rules of
a file system; a path that leaves the working directory leads nowhere.

* `Files.resolve` — the place a path leads to.
* `Files.readText`, `Files.write` — the content of a file.
* `Files.isDirectory`, `Files.exists` — what is at a place.
-/

namespace NameBinding

/-- What is stored at a place. -/
inductive Entry where
  | file (content : ByteArray)
  | directory

/-- Stored files and directories; a place is the list of names that leads there.
Whatever lies above a stored place is a directory. -/
structure Files where
  entries : List (List String × Entry)

namespace Files

/-- No files at all. -/
def empty : Files := ⟨[]⟩

/-- What is stored at a place. -/
def entry? (f : Files) (place : List String) : Option Entry :=
  (f.entries.find? (·.1 == place)).map Prod.snd

/-- The content of the file at a place. -/
def content? (f : Files) (place : List String) : Option ByteArray :=
  match f.entry? place with
  | some (.file content) => some content
  | _ => none

/-- Is there a file at the place? -/
def isFile (f : Files) (place : List String) : Bool := (f.content? place).isSome

/-- Is there a directory at the place? -/
def isDirectory (f : Files) (place : List String) : Bool :=
  !f.isFile place && (place.isEmpty || f.entries.any fun e => place.isPrefixOf e.1)

/-- Set what is stored at a place. -/
def store (f : Files) (place : List String) (e : Entry) : Files :=
  ⟨(place, e) :: f.entries.filter (·.1 != place)⟩

/-! ### Paths -/

/-- Follow the components of a path from the place `here`, whose names are given last
first. -/
def follow (f : Files) (here : List String) : List Path.Component → Except FileProblem (List String)
  | [] => .ok here.reverse
  | c :: cs =>
      if f.isDirectory here.reverse then
        match c with
        | .root => .error .notFound
        | .current => follow f here cs
        | .parent =>
            match here with
            | [] => .error .notFound
            | _ :: above => follow f above cs
        | .named name => follow f (name :: here) cs
      else if f.isFile here.reverse then .error .notDirectory
      else .error .notFound

/-- The place the components of a path lead to. -/
def placeOf (f : Files) (path : String) : Except FileProblem (List String) :=
  if path.isEmpty then .error .notFound else f.follow [] (Path.components path)

/-- The place a path leads to. A path that ends in a slash or in `.` leads to no file. -/
def resolve (f : Files) (path : String) : Except FileProblem (List String) := do
  let place ← f.placeOf path
  if Path.ending path ≠ .plain && f.isFile place then .error .notDirectory
  else return place

/-- Is there a file or directory at the path? -/
def exists? (f : Files) (path : String) : Bool :=
  match f.resolve path with
  | .ok place => f.isFile place || f.isDirectory place
  | .error _ => false

/-- The bytes of the file at a path. -/
def readBytes (f : Files) (path : String) : Except FileProblem ByteArray := do
  let place ← f.resolve path
  match f.content? place with
  | some content => return content
  | none => .error (if f.isDirectory place then .isDirectory else .notFound)

/-- The text of the file at a path. -/
def readText (f : Files) (path : String) : Except FileProblem String := do
  match String.fromUTF8? (← f.readBytes path) with
  | some text => return text
  | none => .error .notText

/-- The files after a text was written to a path. The directory of the file has to
exist, and no file is made at a path that asks for a directory. -/
def write (f : Files) (path : String) (text : String) : Except FileProblem Files := do
  let place ← f.placeOf path
  if f.isDirectory place || Path.ending path = .slash then .error .isDirectory
  else if Path.ending path = .dot then
    .error (if f.isFile place then .notDirectory else .notFound)
  else if f.isFile place.dropLast then .error .notDirectory
  else if !f.isDirectory place.dropLast then .error .notFound
  else return f.store place (.file text.toUTF8)

end Files

end NameBinding
