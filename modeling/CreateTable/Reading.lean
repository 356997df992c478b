import CreateTable.Encoding
import CreateTable.Session
import CreateTable.Table

/-!
# Reading tables and columns

The library turns the text of one MySQL statement `CREATE TABLE`, as a dump contains it, into a
description: the name of the table, its columns and keys in the order in which they are written,
and its comment. This module reads a whole text, or the contents of a file, in one go.

## Main definitions

* `Table.ofText`: the table that a text describes.
* `Column.ofText`: the column that a text describes.
* `Table.ofFile`: the table that a file describes.
* `Table.roundTrip`, `RoundTrip.returns`: a table printed and read again.
-/

namespace CreateTable

/-- The table that the statement at the start of `text` describes. What follows the statement is
searched for the comment and not read otherwise. -/
def Table.ofText (text : String) (options : Options) : Except Error Table :=
  (Session.ofText text options).table.1

/-- The column that `text` describes. Nothing may follow the definition. -/
def Column.ofText (text : String) : Except Error Column :=
  ((Session.ofText text {}).run Column.wholeRule).1

/-- The table that a file with the given contents describes. -/
def Table.ofFile (path : String) (contents : Except FileFault ByteArray) : Except Error Table :=
  match contents with
  | .error fault => .error (.unreadable path fault)
  | .ok bytes =>
    match Encoding.fileText? bytes with
    | none => .error (.undecodable path)
    | some text => Table.ofText text {}

/-- A table printed and read again. -/
structure RoundTrip where
  printed : String
  again : Except Error Table

/-- The table `table` printed and read again. -/
def Table.roundTrip (table : Table) : RoundTrip :=
  ⟨table.render, Table.ofText table.render {}⟩

/-- The second reading gave the table `table`. -/
def RoundTrip.returns (r : RoundTrip) (table : Table) : Bool :=
  match r.again with
  | .ok again => again = table
  | .error _ => false

end CreateTable
