/-! A table in order of arrival, with an index that leads from a key to its place in the table. -/
namespace Dalvik

structure Registry (κ α : Type) where
  entries : List (κ × α) := []
  /-- Keys with their positions, the latest first. Nothing but the operations keeps it in step with the
  entries. -/
  index : List (κ × Nat) := []
  deriving DecidableEq

namespace Registry

variable {κ α : Type} [BEq κ]

def empty : Registry κ α := {}

def size (r : Registry κ α) : Nat := r.entries.length

def position? (r : Registry κ α) (key : κ) : Option Nat := r.index.lookup key

def contains (r : Registry κ α) (key : κ) : Bool := (r.position? key).isSome

def find? (r : Registry κ α) (key : κ) : Option α :=
  (r.position? key).bind fun i => r.entries[i]?.map Prod.snd

/-- Adds an entry at the end, under a key that is not there yet. -/
def push (r : Registry κ α) (key : κ) (value : α) : Registry κ α where
  entries := r.entries ++ [(key, value)]
  index := (key, r.size) :: r.index

/-- Replaces the value of a key in its place. -/
def put (r : Registry κ α) (key : κ) (value : α) : Registry κ α :=
  match r.position? key with
  | none => r
  | some i => { r with entries := r.entries.modify i fun entry => (entry.1, value) }

end Registry
end Dalvik
