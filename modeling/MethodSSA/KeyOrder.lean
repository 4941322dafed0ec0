import MethodSSA.Ids

/-!
# Tables in the order of their keys

Answers that list methods or types do so in the order of a key, whatever order
they were found in. Such a table is a list of pairs with increasing keys. Text
keys are compared by code point.
-/

namespace MethodSSA

variable {α : Type}

/-- Enters a pair into a table with increasing keys, in place of an older pair
of the same key. -/
def putKey (key : String) (a : α) : List (String × α) → List (String × α)
  | [] => [(key, a)]
  | (k, b) :: rest =>
    if key < k then (key, a) :: (k, b) :: rest
    else if key = k then (key, a) :: rest
    else (k, b) :: putKey key a rest

/-- The table of the pairs of a list. Where a key occurs twice, its first pair
counts. -/
def keyTable (pairs : List (String × α)) : List (String × α) :=
  pairs.foldr (fun (key, a) table => putKey key a table) []

/-- Enters a type into an increasing list, unless it is there already. -/
def putType (ty : TypeId) : List TypeId → List TypeId
  | [] => [ty]
  | other :: rest =>
    if ty.index < other.index then ty :: other :: rest
    else if ty = other then other :: rest
    else other :: putType ty rest

/-! ## What the tables hold -/

theorem lookup_putKey_self (key : String) (a : α) (table : List (String × α)) :
    (putKey key a table).lookup key = some a := by
  induction table with
  | nil => simp [putKey]
  | cons e rest ih =>
    obtain ⟨k, b⟩ := e
    unfold putKey
    split
    · simp
    · split
      · simp
      · next hne =>
        rw [List.lookup_cons, beq_false_of_ne hne]
        exact ih

theorem lookup_putKey_ne {key k' : String} (h : k' ≠ key) (a : α) (table : List (String × α)) :
    (putKey key a table).lookup k' = table.lookup k' := by
  induction table with
  | nil => simp [putKey, List.lookup_cons, beq_false_of_ne h]
  | cons e rest ih =>
    obtain ⟨k, b⟩ := e
    unfold putKey
    split
    · rw [List.lookup_cons, beq_false_of_ne h]
    · split
      · next heq =>
        subst heq
        simp only [List.lookup_cons, beq_false_of_ne h]
      · simp only [List.lookup_cons]
        rw [ih]

/-- **A table answers like its list.** -/
theorem lookup_keyTable (pairs : List (String × α)) (key : String) :
    (keyTable pairs).lookup key = pairs.lookup key := by
  induction pairs with
  | nil => rfl
  | cons e rest ih =>
    obtain ⟨k, b⟩ := e
    change (putKey k b (keyTable rest)).lookup key = _
    rw [List.lookup_cons]
    by_cases h : key = k
    · subst h
      rw [lookup_putKey_self, beq_self_eq_true]
    · rw [lookup_putKey_ne h, ih, beq_false_of_ne h]

theorem mem_putType {ty other : TypeId} {l : List TypeId} :
    other ∈ putType ty l ↔ other = ty ∨ other ∈ l := by
  induction l with
  | nil => simp [putType]
  | cons first rest ih =>
    unfold putType
    split
    · simp
    · split
      · next heq => subst heq; simp
      · rw [List.mem_cons, ih, List.mem_cons]
        exact or_left_comm

end MethodSSA
