import ForestQuery.Store
/-!
Moving through the rows of a traversal: ancestors, descendants, and how many rows of another table
refer to each node. "Ancestor" and "descendant" mean what the paths of the rows say.
-/

namespace ForestQuery

/-- A row with the number of related rows. -/
structure RelatedCount where
  row : TreeRow
  count : Nat
deriving DecidableEq

/-- Numbers by node. -/
structure Tally where
  entries : List (NodeId × Nat)
deriving DecidableEq

namespace Tally

def empty : Tally := ⟨[]⟩

/-- The number of a node, none if it has no entry. -/
def get (t : Tally) (node : NodeId) : Nat :=
  ((t.entries.find? fun e => e.1 == node).map Prod.snd).getD 0

/-- Entries with another number for a node, in its place. -/
def putIn (node : NodeId) (n : Nat) : List (NodeId × Nat) → List (NodeId × Nat)
  | [] => [(node, n)]
  | (other, m) :: rest => if other = node then (node, n) :: rest else (other, m) :: putIn node n rest

def put (t : Tally) (node : NodeId) (n : Nat) : Tally := ⟨putIn node n t.entries⟩

def add (t : Tally) (node : NodeId) (n : Nat) : Tally := t.put node (t.get node + n)

end Tally

namespace Navigation

/-- The rows above a node, given the rows above the next one; with the node itself on request. -/
def chainOf (node : NodeId) (withSelf : Bool) (chain : List TreeRow) : List TreeRow → List TreeRow
  | [] => []
  | r :: rs =>
    let above := chain.take r.depth
    if r.id = node then above ++ (if withSelf then [r] else [])
    else chainOf node withSelf (above ++ [r]) rs

/-- The rows on the path of a node, the root first; none if the node is not among the rows. -/
def ancestorsIn (node : NodeId) (withSelf : Bool) (rows : List TreeRow) : List TreeRow :=
  chainOf node withSelf [] rows

/-- The rows whose path goes through a node. -/
def descendantsIn (node : NodeId) (withSelf : Bool) (rows : List TreeRow) : List TreeRow :=
  rows.filter fun r => r.path.contains node && (withSelf || r.id != node)

/-- The numbers of groups of related rows by the nodes that their values stand for; of two groups for
one node the later counts. The first value that is no identifier fails. -/
def countsByNode (type : FieldType) (counts : Tally) : List (Value × Nat) → Except Error Tally
  | [] => .ok counts
  | (v, n) :: gs => do
    let id ← NodeId.ofValue type v
    countsByNode type (counts.put id n) gs

/-- Adds the own number of a row for every node on its path. -/
def rollUp (direct totals : Tally) (r : TreeRow) : Tally :=
  r.path.foldl (fun totals id => totals.add id (direct.get r.id)) totals

/-- The numbers that rows are answered with: their own, or those of everything below them as well. -/
def totalsOf (direct : Tally) (cumulative : Bool) (rows : List TreeRow) : Tally :=
  if cumulative then rows.foldl (rollUp direct) .empty
  else rows.foldl (fun totals r => totals.put r.id (direct.get r.id)) .empty

/-- The rows with their numbers. -/
def countsIn (direct : Tally) (cumulative : Bool) (rows : List TreeRow) : List RelatedCount :=
  let totals := totalsOf direct cumulative rows
  rows.map fun r => ⟨r, totals.get r.id⟩

/-- All pairs of rows of which the first lies above the second. -/
def pairsIn (rows : List TreeRow) : List (NodeId × NodeId) :=
  rows.flatMap fun a => (rows.filter a.isAncestorOf).map fun b => (a.id, b.id)

end Navigation

namespace Store

def ancestors (s : Store) (q : Request) (node : NodeId) (withSelf : Bool) : Except Error (List TreeRow) :=
  (s.query q).map (Navigation.ancestorsIn node withSelf)

def descendants (s : Store) (q : Request) (node : NodeId) (withSelf : Bool) : Except Error (List TreeRow) :=
  (s.query q).map (Navigation.descendantsIn node withSelf)

/-- The numbers of rows that refer to each node through a column of another table. -/
def directCounts (s : Store) (table column : String) : Except Error Tally := do
  Identifier.check table
  Identifier.check column
  match s.database.readable? table with
  | none => throw .store
  | some t => Navigation.countsByNode s.relation.keyType .empty (t.groups column)

/-- The rows of a request with the numbers of rows that refer to them; cumulative ones include all
rows below. Names and related rows are looked at before the request. -/
def relatedCounts (s : Store) (q : Request) (table column : String) (cumulative : Bool) :
    Except Error (List RelatedCount) := do
  let direct ← s.directCounts table column
  return Navigation.countsIn direct cumulative (← s.query q)

/-- All pairs of an ancestor and a descendant among the rows of a request. -/
def ancestry (s : Store) (q : Request) : Except Error (List (NodeId × NodeId)) :=
  (s.query q).map Navigation.pairsIn

end Store

end ForestQuery
