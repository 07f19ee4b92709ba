/-
Marc8.Files.Tree — a tree of directories and files.

A location is the list of names from the root. The tree keeps what stands at
each location; the root is always a directory. Nothing is said about links,
owners or times.
-/
import Marc8.Assoc

namespace Marc8.Files

/-- The names from the root to a place in the tree. -/
abbrev Location := List String

/-- What stands at a location. -/
inductive Node
  | file (content : ByteArray)
  | directory

/-- Directories and files, by location. -/
structure Tree where
  nodes : Assoc Location Node

namespace Tree

/-- The root alone. -/
def empty : Tree := ⟨.empty⟩

/-- What stands at a location, if anything. -/
def node? (t : Tree) (place : Location) : Option Node :=
  if place = [] then some .directory else t.nodes.find? place

/-- The tree with a node in place of whatever stood at the location. -/
def set (t : Tree) (place : Location) (node : Node) : Tree := ⟨t.nodes.insert place node⟩

/-- The tree with nothing at the location. -/
def remove (t : Tree) (place : Location) : Tree := ⟨t.nodes.erase place⟩

/-- A new node is found where it was put, and nothing else changes. -/
theorem node?_set (t : Tree) {place : Location} (ne : place ≠ []) (node : Node)
    (other : Location) :
    (t.set place node).node? other = if other = place then some node else t.node? other := by
  unfold node? set
  by_cases h : other = []
  · have : ¬ other = place := fun he => ne (he ▸ h)
    simp [h, ne.symm]
  · simp [h, Assoc.find?_insert]

/-- A removed node is gone, and nothing else changes. -/
theorem node?_remove (t : Tree) {place : Location} (ne : place ≠ []) (other : Location) :
    (t.remove place).node? other = if other = place then none else t.node? other := by
  unfold node? remove
  by_cases h : other = []
  · simp [h, ne.symm]
  · simp [h, Assoc.find?_erase]

/-- The names below a location with what stands there, in the order of the names. The name of a
directory ends in a slash. -/
def below (t : Tree) (place : Location) : List (String × Node) :=
  (t.nodes.entries.filterMap named).mergeSort fun a b => decide (a.1 ≤ b.1)
where
  /-- The name of a node relative to the place, if it lies below it. -/
  named : Location × Node → Option (String × Node)
    | (full, node) =>
      if place.isPrefixOf full && place.length < full.length then
        let name := "/".intercalate (full.drop place.length)
        match node with
        | .directory => some (name ++ "/", node)
        | .file _ => some (name, node)
      else none

end Tree

end Marc8.Files
