/-!
# Configuration files

A configuration file is a list of statements: headers, which open a table, and
assignments to keys of the table that is open.  Keys may be dotted, and go
through tables inside that one.  Values are texts, arrays and tables.

Nothing is given twice.  While statements are added, each table remembers how
it came about, since that decides what may still be added to it:

* a table on the way of a header may get a header of its own later;
* a table on the way of a dotted key may get more dotted keys, but no header;
* a table with a header gets no second one, and no dotted keys from outside;
* a table that is a value gets nothing.
-/

namespace Schemata
namespace Toml

/-- A key, with the tables on the way to it. -/
abbrev Key := List String

/-- A value. -/
inductive Value where
  | text (text : String)
  | array (items : List Value)
  | table (entries : List (String × Value))
deriving Repr

/-- A statement. -/
inductive Statement where
  | header (table : Key)
  /-- The header of one more table in an array of tables. -/
  | itemHeader (tables : Key)
  | assign (key : Key) (value : Value)
deriving Repr

/-- How a table came about. -/
inductive Origin where
  | header
  /-- On the way of a header. -/
  | implied
  /-- On the way of a dotted key. -/
  | dotted
deriving DecidableEq, Repr

/-- What a name in a table stands for. -/
inductive Item where
  | value (value : Value)
  | table (origin : Origin) (entries : List (String × Item))
  | tables (items : List (List (String × Item)))
deriving Repr

/-- The names in a table, and what they stand for. -/
abbrev Entries := List (String × Item)

section Values

mutual

/-- The value of an item. -/
def Item.toValue : Item → Value
  | .value value => value
  | .table _ entries => .table (entryValues entries)
  | .tables items => .array (tableValues items)

/-- The values in a table. -/
def entryValues : List (String × Item) → List (String × Value)
  | [] => []
  | (name, item) :: rest => (name, item.toValue) :: entryValues rest

/-- The values in an array of tables. -/
def tableValues : List (List (String × Item)) → List Value
  | [] => []
  | entries :: rest => .table (entryValues entries) :: tableValues rest

end

end Values

section Statements

/-- Let a name stand for an item. -/
def put
    (entries : Entries)
    (name : String)
    (item : Item) :
    Entries :=
  if (entries.lookup name).isSome then
    entries.map fun entry => if entry.1 = name then (name, item) else entry
  else entries ++ [(name, item)]

/-- Give a value to a key.  The tables on the way are those of dotted keys; only above them may
there be tables on the way of headers. -/
def assign?
    (value : Value) :
    Key → Entries → Option Entries
  | [], _ => none
  | [name], entries =>
      match entries.lookup name with
      | none => some (put entries name (.value value))
      | some _ => none
  | name :: next :: rest, entries =>
      match entries.lookup name with
      | none =>
          (assign? value (next :: rest) []).map fun inner =>
            put entries name (.table .dotted inner)
      | some (.table .dotted inner) =>
          (assign? value (next :: rest) inner).map fun inner =>
            put entries name (.table .dotted inner)
      | some (.table .implied inner) =>
          if rest.isEmpty then none
          else
            (assign? value (next :: rest) inner).map fun inner =>
              put entries name (.table .implied inner)
      | some _ => none

/-- Change the table at the end of a key.  Missing tables are made on the way, and of an array of
tables the last one is meant. -/
def change?
    (f : Entries → Option Entries) :
    Key → Entries → Option Entries
  | [], entries => f entries
  | name :: rest, entries =>
      match entries.lookup name with
      | none =>
          (change? f rest []).map fun inner => put entries name (.table .implied inner)
      | some (.table origin inner) =>
          (change? f rest inner).map fun inner => put entries name (.table origin inner)
      | some (.tables items) =>
          (change? f rest (items.getLast?.getD [])).map fun inner =>
            put entries name (.tables (items.dropLast ++ [inner]))
      | some (.value _) => none

/-- Open a table by a header. -/
def openTable?
    (name : String)
    (entries : Entries) :
    Option Entries :=
  match entries.lookup name with
  | none => some (put entries name (.table .header []))
  | some (.table .implied inner) => some (put entries name (.table .header inner))
  | some _ => none

/-- Open one more table of an array of tables. -/
def openItem?
    (name : String)
    (entries : Entries) :
    Option Entries :=
  match entries.lookup name with
  | none => some (put entries name (.tables [[]]))
  | some (.tables items) => some (put entries name (.tables (items ++ [[]])))
  | some _ => none

/-- Do something with the last name of a key, in the table that the rest of the key leads to. -/
def atLast?
    (f : String → Entries → Option Entries)
    (key : Key)
    (entries : Entries) :
    Option Entries :=
  match key.getLast? with
  | some name => change? (f name) key.dropLast entries
  | none => none

/-- Add statements, where `opened` is the table that is open. -/
def addAll?
    (opened : Key) :
    List Statement → Entries → Option Entries
  | [], entries => some entries
  | .header table :: rest, entries =>
      (atLast? openTable? table entries).bind (addAll? table rest)
  | .itemHeader tables :: rest, entries =>
      (atLast? openItem? tables entries).bind (addAll? tables rest)
  | .assign key value :: rest, entries =>
      (change? (assign? value key) opened entries).bind (addAll? opened rest)

/-- The values that a list of statements gives, if nothing is given twice. -/
def ofStatements?
    (statements : List Statement) :
    Option (List (String × Value)) :=
  (addAll? [] statements []).map entryValues

/-- The table that is written as a value, if nothing is given twice. -/
def tableOf?
    (assignments : List (Key × Value)) :
    Option Value :=
  (ofStatements? (assignments.map fun (key, value) => .assign key value)).map .table

end Statements

end Toml
end Schemata
