import NameBinding.Toml.Basic

/-!
# Assembling TOML tables

Headers and dotted keys reach into tables that may exist already. What may be
reached, and what may be defined again, depends on how a table came about.

* `Origin` — a table has a header of its own, lies on the way of a header, or comes
  from a dotted key.
* `Section.insert?` — a key and value below a dotted path.
* `Section.openTable?`, `Section.openElement?` — the headers `[path]`, `[[path]]`.
* `Section.toToml` — the assembled table as a value.
-/

namespace NameBinding
namespace Toml

/-- How a table came about. -/
inductive Origin where
  /-- By a header of its own, or as an element of an array of tables. -/
  | header
  /-- On the way of a header to a table further inside. -/
  | implied
  /-- On the way of a dotted key. -/
  | dotted
  deriving DecidableEq, Repr

/-- What stands at a key while a document is read. -/
inductive Item where
  | value (v : Toml)
  | table (origin : Origin) (entries : List (String × Item))
  | tables (elements : List (List (String × Item)))

/-- The entries of a table that is being read, in order. -/
abbrev Section := List (String × Item)

namespace Section

/-- What stands at a key. -/
def find? (s : Section) (key : String) : Option Item :=
  (List.find? (·.1 == key) s).map Prod.snd

/-- Replace what stands at a key. -/
def replace (s : Section) (key : String) (item : Item) : Section :=
  s.map fun e => if e.1 == key then (key, item) else e

/-- Change the table at the end of a path. Missing tables on the way are made, with the
origin `made`; a dotted path must not enter a table that has a header. -/
def modify? (made : Origin) (change : Origin → Section → Option Section) :
    List String → Origin → Section → Option Section
  | [], origin, s => change origin s
  | key :: path, _, s =>
      match s.find? key with
      | none => do
          let inner ← modify? made change path made []
          return s ++ [(key, .table made inner)]
      | some (.value _) => none
      | some (.table origin inner) =>
          if made = .dotted && origin = .header then none
          else do return s.replace key (.table origin (← modify? made change path origin inner))
      | some (.tables elements) => do
          let last ← elements.getLast?
          let last' ← modify? made change path .header last
          return s.replace key (.tables (elements.dropLast ++ [last']))

/-- Put a value at a key below a dotted path. The table at the end of the path has to
come from dotted keys too, and the key has to be new. -/
def insert? (path : List String) (key : String) (value : Toml) (s : Section) : Option Section :=
  modify? .dotted
    (fun origin t =>
      if !path.isEmpty && origin != .dotted then none
      else if (t.find? key).isSome then none
      else some (t ++ [(key, .value value)]))
    path .header s

/-- Put a value below the table that the last header opened. -/
def insertBelow? (header path : List String) (key : String) (value : Toml) (s : Section) :
    Option Section :=
  modify? .implied (fun _ t => t.insert? path key value) header .header s

/-- Open the table of a header. A table can be opened once, and not if dotted keys
made it. -/
def openTable? (path : List String) (key : String) (s : Section) : Option Section :=
  modify? .implied
    (fun _ t =>
      match t.find? key with
      | none => some (t ++ [(key, .table .header [])])
      | some (.table .implied inner) => some (t.replace key (.table .header inner))
      | some _ => none)
    path .header s

/-- Open a new element of an array of tables. -/
def openElement? (path : List String) (key : String) (s : Section) : Option Section :=
  modify? .implied
    (fun _ t =>
      match t.find? key with
      | none => some (t ++ [(key, .tables [[]])])
      | some (.tables elements) => some (t.replace key (.tables (elements ++ [[]])))
      | some _ => none)
    path .header s

end Section

mutual

/-- The value that stands at a key. -/
def Item.toToml : Item → Toml
  | .value v => v
  | .table _ entries => .table (Section.toEntries entries)
  | .tables elements => .array (Section.toTables elements)

/-- The entries of a table as values. -/
def Section.toEntries : List (String × Item) → List (String × Toml)
  | [] => []
  | (key, item) :: rest => (key, item.toToml) :: Section.toEntries rest

/-- The elements of an array of tables as values. -/
def Section.toTables : List (List (String × Item)) → List Toml
  | [] => []
  | entries :: rest => .table (Section.toEntries entries) :: Section.toTables rest

end

/-- A table that has been read, as a value. -/
def Section.toToml (s : Section) : Toml := .table (Section.toEntries s)

end Toml
end NameBinding
