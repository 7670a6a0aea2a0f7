/-!
# Sorted lists and dictionaries

Names and entries are kept in ascending order without repetition, so that two
collections with the same members are equal.
-/

namespace Schematic
namespace Sorted

variable {α : Type}

/-- Puts a value in its place.  An equal value that is there already stays. -/
def insert (lt : α → α → Bool) (a : α) : List α → List α
  | [] => [a]
  | b :: rest =>
    if lt a b then a :: b :: rest
    else if lt b a then b :: insert lt a rest
    else b :: rest

def ofList (lt : α → α → Bool) (items : List α) : List α :=
  items.foldl (fun sorted a => insert lt a sorted) []

def nameLt (a b : String) : Bool := decide (a < b)

/-- Distinct names in ascending order. -/
def names (items : List String) : List String :=
  ofList nameLt items

end Sorted

/-- Values under names, in ascending order of the names. -/
structure Dict (β : Type) where
  entries : List (String × β) := []
deriving DecidableEq, Repr

namespace Dict

variable {β : Type}

def insertEntry (key : String) (value : β) : List (String × β) → List (String × β)
  | [] => [(key, value)]
  | (k, v) :: rest =>
    if key < k then (key, value) :: (k, v) :: rest
    else if key = k then (key, value) :: rest
    else (k, v) :: insertEntry key value rest

/-- Puts a value under a name, in place of any that was there. -/
def insert (d : Dict β) (key : String) (value : β) : Dict β :=
  ⟨insertEntry key value d.entries⟩

def get? (d : Dict β) (key : String) : Option β :=
  d.entries.lookup key

def contains (d : Dict β) (key : String) : Bool :=
  (d.get? key).isSome

def keys (d : Dict β) : List String :=
  d.entries.map Prod.fst

def values (d : Dict β) : List β :=
  d.entries.map Prod.snd

def size (d : Dict β) : Nat :=
  d.entries.length

def insertAll (d : Dict β) (entries : List (String × β)) : Dict β :=
  entries.foldl (fun d (k, v) => d.insert k v) d

def ofList (entries : List (String × β)) : Dict β :=
  Dict.insertAll {} entries

end Dict
end Schematic
