/-!
# TOML values

The value that a document writes, and the tree in which it is put together. The tree remembers for
every table whether it was only implied by the path of another one, and whether a dotted key made
it: what a header or a key may still add to a table depends on both.
-/

namespace WebBundle

inductive Toml where
  | string (value : String)
  | integer (value : Int)
  | real
  | bool (value : Bool)
  | moment (text : String)
  | array (items : List Toml)
  | table (fields : List (String × Toml))

namespace Toml

/-- A table under construction, a finished value, or a series of tables with its last one apart. -/
inductive Node where
  | value (value : Toml)
  | table (implied dotted : Bool) (fields : List (String × Node))
  | series (earlier : List Node) (last : Node)

namespace Node

def empty : Node := .table false false []

def child? (key : String) : List (String × Node) → Option Node
  | [] => none
  | (name, node) :: fields => if name = key then some node else child? key fields

/-- Puts a child in the place of the one of its name, or at the end. -/
def setChild (key : String) (node : Node) : List (String × Node) → List (String × Node)
  | [] => [(key, node)]
  | (name, old) :: fields =>
      if name = key then (name, node) :: fields else (name, old) :: setChild key node fields

/-- Changes the table at the end of a path. Missing tables are made on the way, and of a series the
last table is taken. A path of a dotted key does not lead through a table that has a header. -/
def changeAt (dotted : Bool) (change : Node → Option Node) : (path : List String) → Node → Option Node
  | [], node => change node
  | key :: path, .table implied isDotted fields => do
      let node ←
        match child? key fields with
        | none => changeAt dotted change path (.table true dotted [])
        | some (.value _) => none
        | some (.series earlier last) =>
            (changeAt dotted change path last).map (Node.series earlier)
        | some (.table childImplied childDotted childFields) =>
            if dotted && !childImplied then none
            else changeAt dotted change path (.table childImplied childDotted childFields)
      return .table implied isDotted (setChild key node fields)
  | _ :: _, _ => none

/-- Adds a value under a key that is not taken. A key with a path belongs into a table that dotted
keys made, and a key without one into any other. -/
def insert (path : List String) (key : String) (value : Toml) (node : Node) : Option Node :=
  changeAt true (fun
    | .table implied dotted fields =>
        if dotted = path.isEmpty || (child? key fields).isSome then none
        else some (.table implied dotted (fields ++ [(key, .value value)]))
    | _ => none) path node

/-- A header: the table may exist only as an implied one that no dotted key made. -/
def openTable (path : List String) (key : String) (node : Node) : Option Node :=
  changeAt false (fun
    | .table implied dotted fields =>
        match child? key fields with
        | none => some (.table implied dotted (fields ++ [(key, empty)]))
        | some (.table true false childFields) =>
            some (.table implied dotted (setChild key (.table false false childFields) fields))
        | some _ => none
    | _ => none) path node

/-- A header of a series: a new last table. -/
def openElement (path : List String) (key : String) (node : Node) : Option Node :=
  changeAt false (fun
    | .table implied dotted fields =>
        match child? key fields with
        | none => some (.table implied dotted (fields ++ [(key, .series [] empty)]))
        | some (.series earlier last) =>
            some (.table implied dotted (setChild key (.series (earlier ++ [last]) empty) fields))
        | some _ => none
    | _ => none) path node

mutual

def toToml : Node → Toml
  | .value finished => finished
  | .table _ _ fields => .table (fieldsToToml fields)
  | .series earlier last => .array (itemsToToml earlier ++ [toToml last])

def fieldsToToml : List (String × Node) → List (String × Toml)
  | [] => []
  | (key, node) :: fields => (key, toToml node) :: fieldsToToml fields

def itemsToToml : List Node → List Toml
  | [] => []
  | node :: nodes => toToml node :: itemsToToml nodes

end

end Node

def string? : Toml → Option String
  | .string value => some value
  | _ => none

def strings? : Toml → Option (List String)
  | .array items => items.mapM string?
  | _ => none

def bool? : Toml → Option Bool
  | .bool value => some value
  | _ => none

/-- An integer of a range whose upper end is not part of it. -/
def integerIn? (low high : Int) : Toml → Option Int
  | .integer value => if low ≤ value ∧ value < high then some value else none
  | _ => none

def natBelow? (bound : Nat) (value : Toml) : Option Nat := (integerIn? 0 bound value).map Int.toNat

/-- A name that stands alone, or the only key of a table whose value is empty. -/
def unitName? : Toml → Option String
  | .string name => some name
  | .table [(name, .table [])] => some name
  | .table [(name, .array [])] => some name
  | _ => none

/-- The name of the one field that a moment has as a table. -/
def momentField : String := "$__toml_private_datetime"

/-- The parts of a record by the names of its fields. A record may also be written as a list of its
first parts. A moment is a record with none of the names. -/
def parts? (names : List String) : Toml → Option (List (Option Toml))
  | .table fields => some (names.map fun name => fields.lookup name)
  | .array items =>
      some ((items.take names.length).map some ++
        List.replicate (names.length - items.length) none)
  | .moment _ => some (names.map fun _ => none)
  | _ => none

/-- A part with a default. -/
def partOr? {α : Type} (default : α) (read : Toml → Option α) : Option Toml → Option α
  | none => some default
  | some value => read value

end Toml

end WebBundle
