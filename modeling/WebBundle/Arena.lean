/-!
# Arenas

An arena hands out consecutive numbers for the items put into it. Items are never removed and keep
their number. A number that was never handed out has no item.
-/

namespace WebBundle

/-- A number that an arena has not handed out. -/
structure Unallocated where
  id : Nat
  deriving Repr, DecidableEq

structure Arena (α : Type) where
  items : Array α

namespace Arena

variable {α : Type}

def empty : Arena α := ⟨#[]⟩

def size (arena : Arena α) : Nat := arena.items.size

/-- The number that the next item gets. -/
def next (arena : Arena α) : Nat := arena.items.size

def alloc (arena : Arena α) (item : α) : Nat × Arena α :=
  (arena.next, ⟨arena.items.push item⟩)

def get? (arena : Arena α) (id : Nat) : Option α := arena.items[id]?

def get (arena : Arena α) (id : Nat) : Except Unallocated α :=
  match arena.get? id with
  | some item => .ok item
  | none => .error ⟨id⟩

def modify (arena : Arena α) (id : Nat) (change : α → α) : Arena α :=
  ⟨arena.items.modify id change⟩

def set (arena : Arena α) (id : Nat) (item : α) : Except Unallocated (Arena α) :=
  if id < arena.size then .ok (arena.modify id fun _ => item) else .error ⟨id⟩

def ids (arena : Arena α) : List Nat := List.range arena.size

def toList (arena : Arena α) : List α := arena.items.toList

theorem get?_alloc (arena : Arena α) (item : α) :
    (arena.alloc item).2.get? (arena.alloc item).1 = some item := by
  simp [alloc, next, get?]

theorem get?_alloc_of_lt (arena : Arena α) (item : α) {id : Nat} (h : id < arena.size) :
    (arena.alloc item).2.get? id = arena.get? id := by
  have hne : id ≠ arena.items.size := Nat.ne_of_lt h
  simp [alloc, get?, Array.getElem?_push, hne]

theorem size_alloc (arena : Arena α) (item : α) :
    (arena.alloc item).2.size = arena.size + 1 := by
  simp [alloc, size]

theorem size_modify (arena : Arena α) (id : Nat) (change : α → α) :
    (arena.modify id change).size = arena.size := by
  simp [modify, size]

end Arena

end WebBundle
