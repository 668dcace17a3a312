import Std.Data.HashMap

/-!
# Interned strings

A symbol table gives each string a number, counted from zero in the order in which the strings first
come; the numbers are 32 bits wide. Strings are found by a 64-bit hash; the table takes any hash
function, and strings whose hashes collide share a bucket and are told apart by comparison.
-/

namespace GoService

/-- Strings by number, and the numbers by the hash of their strings. -/
structure SymbolTable (hash : String → UInt64) where
  names : Array String
  buckets : Std.HashMap UInt64 (List Nat)

namespace SymbolTable

variable {hash : String → UInt64}

/-- How many numbers there are. -/
def symbolLimit : Nat := 4294967296

/-- The table without strings. -/
def empty : SymbolTable hash := ⟨#[], ∅⟩

instance : Inhabited (SymbolTable hash) := ⟨empty⟩

/-- The symbols of the strings with the hash of a string. -/
def bucket (t : SymbolTable hash) (s : String) : List Nat :=
  t.buckets.getD (hash s) []

/-- The number of a string, if it is in the table. -/
def get? (t : SymbolTable hash) (s : String) : Option Nat :=
  (t.bucket s).find? fun n => t.names[n]? == some s

/-- The number of a string, and the table with the string in it. -/
def intern (t : SymbolTable hash) (s : String) : Nat × SymbolTable hash :=
  match t.get? s with
  | some n => (n, t)
  | none =>
    let n := t.names.size % symbolLimit
    (n, ⟨t.names.push s, t.buckets.insert (hash s) (t.bucket s ++ [n])⟩)

/-- The string with a number; a number that was never given belongs to the empty string. -/
def resolve (t : SymbolTable hash) (n : Nat) : String :=
  t.names.getD n ""

/-- The number of strings in the table. -/
def size (t : SymbolTable hash) : Nat :=
  t.names.size

/-- Whether the table has no string. -/
def isEmpty (t : SymbolTable hash) : Bool :=
  t.names.isEmpty

end SymbolTable

end GoService
