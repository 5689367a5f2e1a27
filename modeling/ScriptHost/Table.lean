/-!
# Tables

A table holds entries under names, each name once, in the order in which the names first came. To
put an entry under a name that is there keeps the name's place.
-/

set_option autoImplicit false

namespace ScriptHost

/-- Entries under names, in the order in which the names first came. -/
structure Table (α : Type) where
  entries : List (String × α) := []
deriving Inhabited

namespace Table

variable {α : Type}

/-- The entry under a name. -/
def get? (t : Table α) (name : String) : Option α :=
  (t.entries.find? (·.1 == name)).map (·.2)

/-- Whether there is an entry under a name. -/
def contains (t : Table α) (name : String) : Bool :=
  t.entries.any (·.1 == name)

/-- Puts an entry into a list of entries: in the place of the one under its name, or last. -/
def put (name : String) (a : α) : List (String × α) → List (String × α)
  | [] => [(name, a)]
  | entry :: rest => if entry.1 == name then (name, a) :: rest else entry :: put name a rest

/-- The table with an entry put under a name. -/
def insert (t : Table α) (name : String) (a : α) : Table α :=
  ⟨put name a t.entries⟩

/-- The names, in order. -/
def names (t : Table α) : List String :=
  t.entries.map (·.1)

/-- The number of names. -/
def size (t : Table α) : Nat :=
  t.entries.length

/-- The table with several entries put into it, one after the other. -/
def insertAll (t : Table α) (entries : List (String × α)) : Table α :=
  entries.foldl (fun t entry => t.insert entry.1 entry.2) t

/-- The table of these entries, put in one after the other. -/
def ofList (entries : List (String × α)) : Table α :=
  Table.insertAll {} entries

end Table

end ScriptHost
