import DotLayout.Data.Value

/-! # Tables of settings files

    The tables of a file grow while it is read, and a `Node` remembers how it came to be: a table
    that only the header of an inner table has implied may still get a header of its own, one
    with a header or with dotted keys may not, and dotted keys stay out of tables with a header.

    `addTable?`, `addItem?` and `addValue?` add to the tables what a header, a header in double
    brackets and an assignment say; `values` gives the tables as they are in the end. -/

namespace DotLayout.Data.Toml

/-- How a table came to be. -/
inductive Origin where
  /-- By a header of its own. -/
  | header
  /-- By the header of a table inside it. -/
  | implied
  /-- By a dotted key. -/
  | dotted
  deriving DecidableEq

/-- What is found under a key while a file is read. -/
inductive Node where
  | value (v : Value)
  | table (origin : Origin) (fields : List (String × Node))
  /-- The tables of a header in double brackets, the last of which can still grow. -/
  | tables (earlier : List Value) (last : List (String × Node))

/-- The entries of a table, in order. -/
abbrev Fields := List (String × Node)

mutual

/-- The value that a node of the tree stands for. -/
def Node.toValue : Node → Value
  | .value v => v
  | .table _ fields => .table (values fields)
  | .tables earlier last => .list (earlier ++ [.table (values last)])

/-- The values that the entries of a table stand for. -/
def values : List (String × Node) → List (String × Value)
  | [] => []
  | (key, node) :: rest => (key, node.toValue) :: values rest

end

/-- A table with something under a key, in place of what was there. -/
def put (key : String) (node : Node) : Fields → Fields
  | [] => [(key, node)]
  | field :: rest => if field.1 = key then (key, node) :: rest else field :: put key node rest

/-- Changes the table under a path.  Tables that are missing on the way are opened; a dotted key
    neither passes through a table with a header nor ends in one. -/
def changeAt? (opens : Origin) (change : Fields → Option Fields) :
    List String → Fields → Option Fields
  | [], fields => change fields
  | key :: path, fields =>
    match fields.lookup key with
    | none => do
      return put key (.table opens (← changeAt? opens change path [])) fields
    | some (.table origin inner) =>
      if opens = .dotted ∧ origin = .header then none
      else do return put key (.table origin (← changeAt? opens change path inner)) fields
    | some (.tables earlier last) =>
      if opens = .dotted ∧ path = [] then none
      else do return put key (.tables earlier (← changeAt? opens change path last)) fields
    | some (.value _) => none

/-- Changes what is under the last key of a path; the change sees what is there. -/
def changeLast? (opens : Origin) (change : Option Node → Option Node) (path : List String)
    (fields : Fields) : Option Fields := do
  let key ← path.getLast?
  changeAt? opens (fun inner => (change (inner.lookup key)).map (put key · inner)) path.dropLast
    fields

/-- Adds the table of a header, which must not have one already. -/
def addTable? : List String → Fields → Option Fields :=
  changeLast? .implied fun
    | none => some (.table .header [])
    | some (.table .implied inner) => some (.table .header inner)
    | some _ => none

/-- Adds a table to those under a header in double brackets. -/
def addItem? : List String → Fields → Option Fields :=
  changeLast? .implied fun
    | none => some (.tables [] [])
    | some (.tables earlier last) => some (.tables (earlier ++ [.table (values last)]) [])
    | some _ => none

/-- Adds a value under a key that is not in use. -/
def addValue? (path : List String) (v : Value) : Fields → Option Fields :=
  changeLast? .dotted
    (fun
      | none => some (.value v)
      | some _ => none)
    path

end DotLayout.Data.Toml
