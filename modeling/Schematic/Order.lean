import Schematic.Dict

/-!
# Ordering by what blocks what

Each item names the items that must come before it.  `sort` retires items from a
queue: those that nothing blocks come first, in the order given.  Retiring an item
takes away the edges that leave it, again in the order given, and an item into which
no edge leads any more joins the queue.  When the queue runs dry with edges left, they
are reported.
-/

namespace Schematic
namespace Order

structure Item where
  name : String
  blockedBy : List String
deriving DecidableEq, Repr

/-- `source` must come before `target`. -/
structure Edge where
  source : String
  target : String
deriving DecidableEq, Repr

inductive Error where
  | duplicate (name : String)
  | unknown (item blocker : String)
  | cycle (edges : List Edge)
deriving DecidableEq, Repr

def Edge.text (e : Edge) : String :=
  e.source ++ " -> " ++ e.target

def Error.message : Error → String
  | .duplicate name => "node " ++ name ++ " is declared more than once"
  | .unknown item blocker => item ++ " is blocked by unknown node " ++ blocker
  | .cycle edges => "dependency cycle: " ++ ", ".intercalate (edges.map Edge.text)

/-- The first name that an earlier item already bears. -/
def duplicate? : (seen : List String) → List Item → Option String
  | _, [] => none
  | seen, item :: rest =>
    if item.name ∈ seen then some item.name else duplicate? (item.name :: seen) rest

/-- The first item with a blocker that is no item, and that blocker. -/
def unknown? (items : List Item) : Option (String × String) :=
  items.findSome? fun item =>
    (item.blockedBy.find? fun blocker => !(items.map Item.name).contains blocker).map (item.name, ·)

/-- The items that `name` blocks, each once. -/
def targets (items : List Item) (name : String) : List String :=
  (items.filter fun item => item.blockedBy.contains name).map Item.name

/-- All edges, each once, by source and then by target, both in the order given. -/
def edges (items : List Item) : List Edge :=
  items.flatMap fun source => (targets items source.name).map fun target => ⟨source.name, target⟩

/-- How many edges lead into an item. -/
def inDegree (edges : List Edge) (name : String) : Nat :=
  (edges.filter fun e => e.target == name).length

/-- How far sorting has come. -/
structure Progress where
  /-- The items that nothing blocks any more, in the order in which they will be retired. -/
  ready : List String
  /-- The items retired so far. -/
  done : List String := []
  /-- For each item, how many edges still lead into it. -/
  incoming : Dict Nat
  /-- The edges that no retired item has taken away. -/
  edges : List Edge

namespace Progress

def count (p : Progress) (name : String) : Nat :=
  (p.incoming.get? name).getD 0

/-- Takes the edge from `source` to `target` away.  Was it the last one into `target`,
then `target` is ready. -/
def release (source : String) (p : Progress) (target : String) : Progress :=
  let left := p.count target - 1
  { p with
    ready := if left = 0 then p.ready ++ [target] else p.ready
    incoming := p.incoming.insert target left
    edges := p.edges.erase ⟨source, target⟩ }

/-- Moves the item at the head of the queue to the items retired. -/
def pop (p : Progress) (name : String) (rest : List String) : Progress :=
  { p with ready := rest, done := p.done ++ [name] }

/-- Retires the item at the head of the queue, and takes away the edges that leave it. -/
def retire? (items : List Item) (p : Progress) : Option Progress :=
  match p.ready with
  | [] => none
  | name :: rest => some ((targets items name).foldl (release name) (p.pop name rest))

end Progress

def start (items : List Item) : Progress :=
  let edges := edges items
  { ready := (items.map Item.name).filter fun name => inDegree edges name == 0
    incoming := .ofList (items.map fun item => (item.name, inDegree edges item.name))
    edges }

/-- Retires items until the queue is empty.  `fuel` bounds how many. -/
def drain (items : List Item) : (fuel : Nat) → Progress → Progress
  | 0, p => p
  | fuel + 1, p =>
    match p.retire? items with
    | none => p
    | some next => drain items fuel next

/-- No item enters the queue twice, so there are at most as many to retire as items. -/
def drained (items : List Item) : Progress :=
  drain items items.length (start items)

/-- The names in an order in which every blocker precedes what it blocks. -/
def sort (items : List Item) : Except Error (List String) :=
  match duplicate? [] items with
  | some name => .error (.duplicate name)
  | none =>
    match unknown? items with
    | some (item, blocker) => .error (.unknown item blocker)
    | none =>
      match (drained items).edges with
      | [] => .ok (drained items).done
      | edges => .error (.cycle edges)

end Order
end Schematic
