import GoService.Data.Struct

/-!
# The table of structs

Structs by key in the order in which their keys were entered. A key is entered before the fields of
its struct are known, so that references to it can end there. A mark is a length: rewinding to it
drops every entry made since.
-/

namespace GoService.Data

/-- What is known of a struct. -/
inductive StructState where
  /-- The fields are being worked out. -/
  | inProgress
  | resolved (struct : Struct)
  deriving DecidableEq, Inhabited

/-- Structs by key, finished or not. -/
structure StructTable where
  states : Dict StructState
  deriving DecidableEq, Inhabited

namespace StructTable

/-- The table without entries. -/
def empty : StructTable := ⟨.empty⟩

/-- The number of entries. -/
def size (t : StructTable) : Nat :=
  t.states.size

/-- Whether there is no entry. -/
def isEmpty (t : StructTable) : Bool :=
  t.states.isEmpty

/-- What is known of the struct at a key. -/
def state? (t : StructTable) (key : String) : Option StructState :=
  t.states.get? key

/-- The finished struct at a key. -/
def get? (t : StructTable) (key : String) : Option Struct :=
  match t.state? key with
  | some (.resolved s) => some s
  | _ => none

/-- Whether the key is entered. -/
def contains (t : StructTable) (key : String) : Bool :=
  t.states.contains key

/-- The mark to which the table can be rewound. -/
def mark (t : StructTable) : Nat :=
  t.size

/-- Enters a key whose struct is not yet known. -/
def enter (t : StructTable) (key : String) : StructTable :=
  ⟨t.states.insert key .inProgress⟩

/-- Puts the finished struct at a key that is entered. -/
def complete (t : StructTable) (key : String) (s : Struct) : StructTable :=
  if t.contains key then ⟨t.states.insert key (.resolved s)⟩ else t

/-- Drops every entry made since a mark. -/
def rewind (t : StructTable) (mark : Nat) : StructTable :=
  ⟨t.states.take mark⟩

/-- The finished structs with their keys, in order. -/
def finished (t : StructTable) : List (String × Struct) :=
  t.states.entries.filterMap fun
    | (key, .resolved s) => some (key, s)
    | (_, .inProgress) => none

end StructTable

end GoService.Data
