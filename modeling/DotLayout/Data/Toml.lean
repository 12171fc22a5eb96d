import DotLayout.Data.Toml.Entry

/-! # Settings files

    A settings file holds at most one entry per line, after spaces and before a comment.
    `read?` gives the table that a file stands for, or nothing when an entry is malformed, a key
    is assigned twice, a table is opened twice, or a value and a table share a name. -/

namespace DotLayout.Data.Toml

/-- What has been read so far. -/
structure Draft where
  /-- The table that assignments belong to. -/
  current : List String := []
  fields : Fields := []

/-- Adds what a line says: a header for a table, one for an item of a list, or a value under a
    path. -/
def Draft.add? (d : Draft) : Entry → Option Draft
  | .table path => do return ⟨path, ← addTable? path d.fields⟩
  | .item path => do return ⟨path, ← addItem? path d.fields⟩
  | .value path v => do
    return { d with fields := ← changeAt? .implied (addValue? path v) d.current d.fields }

/-- Adds at most so many lines to what has been read. -/
def Draft.addLines? : Nat → Draft → List Char → Option Draft
  | _, d, [] => some d
  | 0, _, _ => none
  | lines + 1, d, text =>
    match endLine? text with
    | some rest => d.addLines? lines rest
    | none => do
      let (entry, after) ← readEntry (skipSpaces text)
      let d ← d.add? entry
      d.addLines? lines (← endLine? after)

/-- Reads a document, in front of which a byte order mark may stand. -/
def read? (text : String) : Option Value := do
  let text := match text.toList with
    | '\ufeff' :: rest => rest
    | text => text
  let draft ← Draft.addLines? text.length {} text
  return .table (values draft.fields)

end DotLayout.Data.Toml
