import Mathlib.Data.List.Basic

/-!
# Memory

A memory is a row of cells, and what a cell holds is nested by structs. A pointer names a
cell and a path of fields into what the cell holds.
-/

namespace MethodSSA

variable {α : Type}

/-- What is held by a variable, a field or a value at run time. What is neither a pointer
nor put together from fields or results is an atom. -/
inductive Datum (α : Type) where
  /-- a number, a text, an interface or the like -/
  | atom (a : α)
  /-- the pointer to nothing -/
  | nil
  /-- a pointer into a cell -/
  | pointer (cell : Nat) (path : List Nat)
  /-- the fields of a struct -/
  | struct (fields : List (Datum α))
  /-- the results of a call that has none or several -/
  | tuple (results : List (Datum α))

namespace Datum

/-- What a path of fields leads to. -/
def select : List Nat → Datum α → Option (Datum α)
  | [], d => some d
  | i :: path, .struct fields => do select path (← fields[i]?)
  | _ :: _, _ => none

/-- Puts something in the place that a path of fields leads to. -/
def replace (new : Datum α) : List Nat → Datum α → Option (Datum α)
  | [], _ => some new
  | i :: path, .struct fields => do
    let d ← replace new path (← fields[i]?)
    return .struct (fields.set i d)
  | _ :: _, _ => none

theorem select_append (path path' : List Nat) (d : Datum α) :
    d.select (path ++ path') = (d.select path).bind (·.select path') := by
  induction path generalizing d with
  | nil => rfl
  | cons i path ih =>
    cases d with
    | struct fields =>
      rcases h : fields[i]? with _ | d
      · simp [select, h]
      · simp [select, h, ih]
    | _ => rfl

end Datum

/-- The cells of a memory, a new one at the end. -/
abbrev Memory (α : Type) := List (Datum α)

namespace Memory

/-- What a pointer leads to. -/
def read (mem : Memory α) (cell : Nat) (path : List Nat) : Option (Datum α) := do
  (← mem[cell]?).select path

/-- Puts something in the place that a pointer leads to. -/
def write (mem : Memory α) (cell : Nat) (path : List Nat) (new : Datum α) : Option (Memory α) := do
  let d ← Datum.replace new path (← mem[cell]?)
  return mem.set cell d

variable {mem : Memory α} {cell : Nat} {path : List Nat} {d : Datum α}

/-- A field of what a pointer leads to is in its place. -/
theorem read_snoc (h : mem.read cell path = some d) (i : Nat) :
    mem.read cell (path ++ [i]) = d.select [i] := by
  obtain ⟨root, hroot, hd⟩ := Option.bind_eq_some_iff.mp h
  change (mem[cell]?.bind fun root => root.select (path ++ [i])) = _
  rw [hroot, Option.bind_some, Datum.select_append, hd, Option.bind_some]

/-- New cells change nothing. -/
theorem read_append (h : mem.read cell path = some d) (more : Memory α) :
    Memory.read (mem ++ more) cell path = some d := by
  obtain ⟨root, hroot, hd⟩ := Option.bind_eq_some_iff.mp h
  refine Option.bind_eq_some_iff.mpr ⟨root, ?_, hd⟩
  rw [List.getElem?_append_left (List.getElem?_eq_some_iff.mp hroot).1, hroot]

theorem read_new (mem : Memory α) (d : Datum α) :
    Memory.read (mem ++ [d]) mem.length [] = some d := by
  simp [read, Datum.select]

theorem write_new (mem : Memory α) (old d : Datum α) :
    Memory.write (mem ++ [old]) mem.length [] d = some (mem ++ [d]) := by
  simp [write, Datum.replace]

end Memory

end MethodSSA
