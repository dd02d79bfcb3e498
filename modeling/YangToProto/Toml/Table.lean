import YangToProto.Toml.Value

/-!
# Tables under construction

A table is built from headers and from keys with several parts, and what comes later may only add
to what was there: a table has at most one header, a table that has one cannot be reached by the
parts of a key, and a value stays what it is. A table that only lies on the way to a header may
still get its own.
-/

namespace YangToProto

inductive TableOrigin where
  /-- It has a header of its own, or is the outermost table. -/
  | header
  /-- It lies on the way to a header. -/
  | passed
  /-- It lies on the way to the last part of a key. -/
  | dotted
deriving DecidableEq, Repr

/-- What stands behind a key of a table under construction. -/
inductive TomlItem where
  | value (value : Toml)
  | table (origin : TableOrigin) (entries : List (String × TomlItem))
  /-- Tables with one header each. Those in front of the last one are complete and given in
  reverse. -/
  | tables (complete : List (List (String × TomlItem))) (last : List (String × TomlItem))

abbrev TomlEntries := List (String × TomlItem)

namespace TomlEntries

def replace (key : String) (item : TomlItem) (entries : TomlEntries) : TomlEntries :=
  entries.map fun entry => if entry.1 == key then (key, item) else entry

/-- Changes the entries of the table that a path leads to and makes the tables on the way that are
missing. Of several tables under one key the path leads into the last. -/
def descend (isKey : Bool)
    (change : TableOrigin → TomlEntries → Except TomlFault TomlEntries) :
    List String → TableOrigin → TomlEntries → Except TomlFault TomlEntries
  | [], origin, entries => change origin entries
  | key :: path, _, entries =>
    match entries.lookup key with
    | none => do
      let origin : TableOrigin := if isKey then .dotted else .passed
      return entries ++ [(key, .table origin (← descend isKey change path origin []))]
    | some (.value _) => .error (.noTable key)
    | some (.table origin inner) => do
      if isKey && origin == .header then throw (.duplicate key)
      return entries.replace key (.table origin (← descend isKey change path origin inner))
    | some (.tables complete last) => do
      return entries.replace key (.tables complete (← descend isKey change path .header last))

/-- The parts of a path in front of the last one, and the last one. -/
def unsnoc : List String → List String × String
  | [] => ([], "")
  | [key] => ([], key)
  | key :: rest => (key :: (unsnoc rest).1, (unsnoc rest).2)

/-- Adds a value behind a key with one or more parts. A key of one part stands in the table
itself, any other in a table that only keys have led to. -/
def addValue (path : List String) (value : Toml) (origin : TableOrigin) (entries : TomlEntries) :
    Except TomlFault TomlEntries :=
  let (front, key) := unsnoc path
  let add (origin : TableOrigin) (entries : TomlEntries) : Except TomlFault TomlEntries :=
    if (origin == .dotted) == front.isEmpty || (entries.lookup key).isSome then
      .error (.duplicate key)
    else .ok (entries ++ [(key, .value value)])
  descend true add front origin entries

def addBelow (header path : List String) (value : Toml) (entries : TomlEntries) :
    Except TomlFault TomlEntries :=
  descend false (addValue path value) header .header entries

def addTable (path : List String) (entries : TomlEntries) : Except TomlFault TomlEntries :=
  let (front, key) := unsnoc path
  let add (_ : TableOrigin) (entries : TomlEntries) : Except TomlFault TomlEntries :=
    match entries.lookup key with
    | none => .ok (entries ++ [(key, .table .header [])])
    | some (.table .passed inner) => .ok (entries.replace key (.table .header inner))
    | some _ => .error (.duplicate key)
  descend false add front .header entries

def addOneOfTables (path : List String) (entries : TomlEntries) : Except TomlFault TomlEntries :=
  let (front, key) := unsnoc path
  let add (_ : TableOrigin) (entries : TomlEntries) : Except TomlFault TomlEntries :=
    match entries.lookup key with
    | none => .ok (entries ++ [(key, .tables [] [])])
    | some (.tables complete last) => .ok (entries.replace key (.tables (last :: complete) []))
    | some _ => .error (.duplicate key)
  descend false add front .header entries

end TomlEntries

mutual

def TomlItem.finish : TomlItem → Toml
  | .value found => found
  | .table _ entries => .table (finishEntries entries)
  | .tables complete last =>
    .array ((finishTables complete).reverse ++ [.table (finishEntries last)])

def TomlItem.finishEntries : List (String × TomlItem) → List (String × Toml)
  | [] => []
  | (key, item) :: rest => (key, item.finish) :: finishEntries rest

def TomlItem.finishTables : List (List (String × TomlItem)) → List Toml
  | [] => []
  | entries :: rest => .table (finishEntries entries) :: finishTables rest

end

end YangToProto
