import VersionedQueue.Record.Document

/-!
# The tables of a TOML document

Headers and dotted keys build a tree of tables.  A table that was named by a header or by a dotted key
cannot be named so again, but a table that only lies on the way to another may still get its own
header.  The tables of one inline table are built in the same way, and a table that was written as a
value is closed to all keys.
-/

set_option autoImplicit false
set_option relaxedAutoImplicit false

namespace VersionedQueue.Toml

/-- How a table came to be. -/
inductive Origin
  /-- By a header of its own, or as the table of the whole document. -/
  | header
  /-- On the way to the table of a header. -/
  | passage
  /-- On the way to the value of a dotted key. -/
  | dotted
  deriving DecidableEq, Repr

/-- A table or value in the tree of a document. -/
inductive Node
  | leaf (value : Document)
  | table (origin : Origin) (entries : List (String × Node))
  /-- An array of tables, the newest first. -/
  | tables (elements : List Node)
  deriving Repr, Inhabited

namespace Node

/-- Replace the node under a name, or put it behind the others. -/
def assign (name : String) (node : Node) : List (String × Node) → List (String × Node)
  | [] => [(name, node)]
  | entry :: rest =>
      if entry.1 = name then (name, node) :: rest else entry :: assign name node rest

/-- Change the table at the end of a path.  Missing tables on the way are made.  An array of tables
stands for its newest table.  A path of a dotted key does not enter a table that has a header. -/
def descend (dotted : Bool) (change : Node → Option Node) : List String → Node → Option Node
  | [], node => change node
  | step :: path, table origin entries =>
      match entries.lookup step with
      | none => do
          let child ← descend dotted change path
            (table (if dotted then .dotted else .passage) [])
          return table origin (assign step child entries)
      | some (leaf _) => none
      | some (tables []) => none
      | some (tables (newest :: older)) => do
          let child ← descend dotted change path newest
          return table origin (assign step (tables (child :: older)) entries)
      | some (table inner children) =>
          if dotted && inner == .header then none
          else do
            let child ← descend dotted change path (table inner children)
            return table origin (assign step child entries)
  | _ :: _, _ => none

/-- Give a name in a table a value, if the name is free.  By a dotted key only tables get values that
dotted keys have made, and by a plain key only tables that they have not made. -/
def define (isDotted : Bool) (name : String) (value : Document) : Node → Option Node
  | table origin entries =>
      if (origin == .dotted) != isDotted then none
      else
        match entries.lookup name with
        | some _ => none
        | none => some (table origin (assign name (leaf value) entries))
  | _ => none

/-- Give a key a value: the path leads from a table to the one in which the name is. -/
def put (path : List String) (name : String) (value : Document) : Node → Option Node :=
  descend true (define (!path.isEmpty) name value) path

/-- Give a name in a table a table of its own by a header. -/
def openTable (name : String) : Node → Option Node
  | table origin entries =>
      match entries.lookup name with
      | none => some (table origin (assign name (table .header []) entries))
      | some (table .passage children) =>
          some (table origin (assign name (table .header children) entries))
      | some _ => none
  | _ => none

/-- Give a name in a table one more table of an array by a header. -/
def openElement (name : String) : Node → Option Node
  | table origin entries =>
      match entries.lookup name with
      | none => some (table origin (assign name (tables [table .header []]) entries))
      | some (tables elements) =>
          some (table origin (assign name (tables (table .header [] :: elements)) entries))
      | some _ => none
  | _ => none

mutual

def toDocument : Node → Document
  | leaf value => value
  | table _ entries => .fields (fieldsOf entries)
  | tables elements => .list (itemsOf elements).reverse

def fieldsOf : List (String × Node) → List (String × Document)
  | [] => []
  | (name, node) :: rest => (name, node.toDocument) :: fieldsOf rest

def itemsOf : List Node → List Document
  | [] => []
  | node :: rest => node.toDocument :: itemsOf rest

end

end Node

end VersionedQueue.Toml
