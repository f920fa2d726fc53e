import CourseCompletion.Toml.Node
import CourseCompletion.Toml.Reader

/-!
# Documents of TOML

`Toml.document?` puts the statements of a document together, and refuses those that define a thing
twice.  A document is a table, so it may not be one that stands for a moment.
-/

namespace CourseCompletion.Toml

/-- A document while it is put together: what it holds, and the header above the next entry. -/
structure Draft where
  entries : Entries
  header : Path

namespace Draft

/-- a change to the table that the last part of a path names, under the others -/
def openAt (d : Draft) (path : Path) (f : List Char → Entries → Option Entries) : Option Draft := do
  let key ← path.getLast?
  let entries ← Entries.change false (fun _ => f key) path.dropLast .opened d.entries
  some ⟨entries, path⟩

def add (d : Draft) : Statement → Option Draft
  | .entry path value => do
    let node ← node? value
    let entries ← Entries.change false (Entries.insert path node) d.header .opened d.entries
    some { d with entries }
  | .header path => d.openAt path Entries.openTable
  | .arrayHeader path => d.openAt path Entries.openNext

end Draft

/-- what statements define -/
def ofStatements? (statements : List Statement) : Option Entries :=
  (statements.foldlM Draft.add ⟨[], []⟩).map Draft.entries

def document? (s : List Char) : Option Entries := do
  let entries ← ofStatements? (← statements? s)
  match ← (Node.table .opened entries).settled? with
  | .table _ entries => some entries
  | _ => none

end CourseCompletion.Toml
