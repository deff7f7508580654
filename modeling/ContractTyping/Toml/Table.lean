import ContractTyping.Toml.Value

/-!
Tables under construction. Headers pass through every table, and a table that headers only passed
through may still be defined by a header of its own, once. A dotted key passes through tables that
no header has defined, and puts its value into the section's own table or into one that dotted keys
made. Values are closed from the start.
-/

namespace ContractTyping.Toml

inductive Item where
  | value (v : Value)
  /-- `implicit`: no header has defined the table. `dotted`: dotted keys made it. -/
  | table (implicit dotted : Bool) (entries : List (String × Item))
  | tables (elements : List (List (String × Item)))

abbrev Items := List (String × Item)

namespace Items

/-- Puts an item under a key that is there. -/
def replace (key : String) (item : Item) : Items → Items
  | [] => []
  | (k, i) :: rest => if k = key then (k, item) :: rest else (k, i) :: replace key item rest

def erase (key : String) (items : Items) : Items := items.filter (·.1 != key)

/-- Changes the last of several tables. -/
def modifyLast (f : Items → Option Items) : List Items → Option (List Items)
  | [] => none
  | [items] => return [← f items]
  | items :: more => return items :: (← modifyLast f more)

/-- Adds a value under a dotted key. -/
def put (key : String) (v : Value) : List String → Items → Option Items
  | [], items =>
    match items.lookup key with
    | none => some (items ++ [(key, .value v)])
    | some _ => none
  | p :: path, items =>
    match items.lookup p with
    | none => return items ++ [(p, .table true true (← put key v path []))]
    | some (.table true dotted inner) =>
      if path.isEmpty && !dotted then none
      else return replace p (.table true dotted (← put key v path inner)) items
    | some (.tables elements) =>
      if path.isEmpty then none
      else return replace p (.tables (← modifyLast (put key v path) elements)) items
    | some (.table false _ _) => none
    | some (.value _) => none

/-- Changes the table that a header's path leads to, and makes the tables on the way. Of several
tables under one key, the last is meant. -/
def within (f : Items → Option Items) : List String → Items → Option Items
  | [], items => f items
  | p :: path, items =>
    match items.lookup p with
    | none => return items ++ [(p, .table true false (← within f path []))]
    | some (.table implicit dotted inner) =>
      return replace p (.table implicit dotted (← within f path inner)) items
    | some (.tables elements) =>
      return replace p (.tables (← modifyLast (within f path) elements)) items
    | some (.value _) => none

end Items

mutual

def Item.freeze : Item → Value
  | .value v => v
  | .table _ _ entries => .table (freezeItems entries)
  | .tables elements => .array (freezeTables elements)

def freezeItems : List (String × Item) → List (String × Value)
  | [] => []
  | (k, i) :: rest => (k, i.freeze) :: freezeItems rest

def freezeTables : List (List (String × Item)) → List Value
  | [] => []
  | items :: more => .table (freezeItems items) :: freezeTables more

end

/-- A key with the path before it, and its value. -/
structure Assignment where
  path : List String
  key : String
  value : Value

namespace Items

def putAll (as : List Assignment) (items : Items) : Option Items :=
  as.foldlM (fun items a => put a.key a.value a.path items) items

end Items

/-- A table written inline, closed to further changes. -/
def inlineTable? (as : List Assignment) : Option Value :=
  (Items.putAll as []).map fun items => .table (freezeItems items)

/-- The head of a section. -/
structure Header where
  path : List String
  key : String
  /-- Adds one of several tables under the key. -/
  repeated : Bool

structure Section where
  header : Header
  body : List Assignment

namespace Section

/-- A section that defines one table, which no header defined before. -/
def define (key : String) (body : List Assignment) (items : Items) : Option Items :=
  match items.lookup key with
  | none => return items ++ [(key, .table false false (← Items.putAll body []))]
  | some (.table true false inner) =>
    return items.erase key ++ [(key, .table false false (← Items.putAll body inner))]
  | some _ => none

/-- A section that adds one of several tables. -/
def append (key : String) (body : List Assignment) (items : Items) : Option Items :=
  match items.lookup key with
  | none => return items ++ [(key, .tables [← Items.putAll body []])]
  | some (.tables elements) =>
    return items.replace key (.tables (elements ++ [← Items.putAll body []]))
  | some _ => none

def add (items : Items) (s : Section) : Option Items :=
  let change := if s.header.repeated then append else define
  items.within (change s.header.key s.body) s.header.path

end Section

/-- The document of the assignments before the first header and the sections after it. -/
def document? (top : List Assignment) (sections : List Section) :
    Option (List (String × Value)) := do
  let items ← Items.putAll top []
  let items ← sections.foldlM Section.add items
  return freezeItems items

end ContractTyping.Toml
