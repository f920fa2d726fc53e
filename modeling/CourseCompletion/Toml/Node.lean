import CourseCompletion.Toml.Basic
import CourseCompletion.Toml.Moment

/-!
# Tables of TOML

A `Node` is what stands under a key, with dotted keys taken apart, and `Entries` are what a table
holds.  A key is never given a second meaning: `insert`, `openTable` and `openNext` fail where one
would have two values, a table two headers, or a table that dotted keys made entries from elsewhere.

A table remembers how it came to be (`Origin`).  Only a table that nothing but the headers of its
inner tables implied may still get a header of its own, and only one that dotted keys made may get
entries by dotted keys.  A list of tables grows by its headers; what is written under its name
belongs to its last table.

A table whose first key is `momentKey` stands for the moment that this key holds as text, and for
nothing else (`Node.settled?`).
-/

namespace CourseCompletion.Toml

/-- How a table came to be: by its header, by headers of inner tables, or by dotted keys. -/
inductive Origin where
  | opened
  | implied
  | dotted
deriving DecidableEq

/-- What stands under a key: a value without parts, a list, a table between braces, which nothing
can be added to, a table, or the tables of one name. -/
inductive Node where
  | scalar (s : Scalar)
  | list (items : List Node)
  | braced (entries : List (List Char × Node))
  | table (origin : Origin) (entries : List (List Char × Node))
  | tables (earlier : List (List (List Char × Node))) (last : List (List Char × Node))

/-- The entries of a table, in the order in which they were first named. -/
abbrev Entries := List (List Char × Node)

namespace Entries

def get? (key : List Char) (es : Entries) : Option Node := (es.find? (·.1 = key)).map (·.2)

/-- the node of a key that is there, replaced -/
def replace (key : List Char) (node : Node) (es : Entries) : Entries :=
  es.map fun e => if e.1 = key then (key, node) else e

def erase (key : List Char) (es : Entries) : Entries := es.filter (·.1 ≠ key)

/-- a change to the table at the end of a path; the tables on the way are made where they are
missing, by dotted keys or by headers -/
def change (byDots : Bool) (f : Origin → Entries → Option Entries) :
    Path → Origin → Entries → Option Entries
  | [], origin, es => f origin es
  | key :: path, _, es =>
    match es.get? key with
    | none => do
      let origin := if byDots then .dotted else .implied
      let inner ← change byDots f path origin []
      some (es ++ [(key, .table origin inner)])
    | some (.tables earlier last) => do
      let inner ← change byDots f path .opened last
      some (es.replace key (.tables earlier inner))
    | some (.table origin entries) =>
      if byDots && origin = .opened then none
      else do
        let inner ← change byDots f path origin entries
        some (es.replace key (.table origin inner))
    | some _ => none

/-- a node under a new key of the table at the end of a dotted path -/
def insert (path : Path) (node : Node) (origin : Origin) (es : Entries) : Option Entries :=
  match path.getLast? with
  | none => none
  | some key =>
    change true
      (fun origin es =>
        if (origin = .dotted ↔ path.dropLast = []) ∨ (es.get? key).isSome then none
        else some (es ++ [(key, node)]))
      path.dropLast origin es

/-- a table with a header of its own, which is its place -/
def openTable (key : List Char) (es : Entries) : Option Entries :=
  match es.get? key with
  | none => some (es ++ [(key, .table .opened [])])
  | some (.table .implied entries) => some (es.erase key ++ [(key, .table .opened entries)])
  | _ => none

/-- one more table of a name -/
def openNext (key : List Char) (es : Entries) : Option Entries :=
  match es.get? key with
  | none => some (es ++ [(key, .tables [] [])])
  | some (.tables earlier last) => some (es.replace key (.tables (earlier ++ [last]) []))
  | _ => none

end Entries

/-! ## values -/

mutual

/-- a value with dotted keys taken apart, if no table of it defines a thing twice -/
def node? : Toml → Option Node
  | .scalar s => some (.scalar s)
  | .list items => (nodes? items).map .list
  | .table entries => (bracedEntries? [] entries).map .braced

def nodes? : List Toml → Option (List Node)
  | [] => some []
  | item :: items => do
    let node ← node? item
    let nodes ← nodes? items
    some (node :: nodes)

/-- the entries of a table between braces, behind those that it has -/
def bracedEntries? (es : Entries) : List (Path × Toml) → Option Entries
  | [] => some es
  | (path, value) :: rest => do
    let node ← node? value
    let es ← es.insert path node .opened
    bracedEntries? es rest

end

/-! ## tables that stand for moments -/

/-- the first key of a table that stands for a moment -/
def momentKey : List Char := "$__toml_private_datetime".toList

mutual

/-- the same node, with a moment for every table in it that stands for one; none if one of these
tables holds no moment -/
def Node.settled? : Node → Option Node
  | .scalar s => some (.scalar s)
  | .list items => (settledNodes? items).map .list
  | .braced entries => settledTable? .braced entries
  | .table origin entries => settledTable? (.table origin) entries
  | .tables earlier last => do
    let earlier ← settledTables? earlier
    let last ← settledTable? .braced last
    some (.list (earlier ++ [last]))

def settledNodes? : List Node → Option (List Node)
  | [] => some []
  | node :: nodes => do
    let node ← node.settled?
    let nodes ← settledNodes? nodes
    some (node :: nodes)

def settledTables? : List (List (List Char × Node)) → Option (List Node)
  | [] => some []
  | entries :: tables => do
    let node ← settledTable? .braced entries
    let nodes ← settledTables? tables
    some (node :: nodes)

/-- a table of some entries, or the moment that it stands for; what follows the text of a moment
does not matter -/
def settledTable? (table : List (List Char × Node) → Node) :
    List (List Char × Node) → Option Node
  | [] => some (table [])
  | (key, node) :: entries =>
    if key = momentKey then
      match node with
      | .scalar (.text s) => (momentText? s).map fun shown => .scalar (.moment shown)
      | _ => none
    else do
      let node ← node.settled?
      let entries ← settledEntries? entries
      some (table ((key, node) :: entries))

def settledEntries? : List (List Char × Node) → Option (List (List Char × Node))
  | [] => some []
  | (key, node) :: entries => do
    let node ← node.settled?
    let entries ← settledEntries? entries
    some ((key, node) :: entries)

end

end CourseCompletion.Toml
