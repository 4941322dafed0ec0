import MethodSSA.Types.Basic

/-!
# Types by identifier, identifiers by type

A `TypeIndex` is a pair of tables. One holds the types in the order in which they came, and a
type's identifier is its place there. The other holds for each type the identifier under which it
was entered, and a type is only entered if this table lacks it. Nothing in the pair itself ties
one table to the other; that they agree (`TypeIndex.Agrees`) is kept by everything that enters
a type.
-/

namespace MethodSSA

/-- The types by identifier, and the identifiers by type. -/
structure TypeIndex where
  /-- the types, each at the place that is its identifier -/
  types : List Ty
  /-- the identifiers, each beside its type; of several beside one type the first counts -/
  ids : List (Ty × TypeId)

namespace TypeIndex

/-- The identifier under which a type was entered. -/
def lookup? (x : TypeIndex) (ty : Ty) : Option TypeId := x.ids.lookup ty

/-- Enters a type in both tables: after the types, and with its place there as the identifier. -/
def enter (x : TypeIndex) (ty : Ty) : TypeIndex :=
  ⟨x.types ++ [ty], (ty, ⟨x.types.length⟩) :: x.ids⟩

/-- The identifier of a type, which is entered if it has none. -/
def intern (x : TypeIndex) (ty : Ty) : TypeId × TypeIndex :=
  match x.lookup? ty with
  | some id => (id, x)
  | none => (⟨x.types.length⟩, x.enter ty)

/-- The index of the given types, entered in their order. -/
def of (types : List Ty) : TypeIndex :=
  ⟨types, (types.zipIdx.map fun (ty, i) => (ty, ⟨i⟩)).reverse⟩

/-- The two tables agree: a type is found under an identifier at which it stands, and every type
that stands somewhere is found. -/
structure Agrees (x : TypeIndex) : Prop where
  found : ∀ {ty id}, x.lookup? ty = some id → x.types[id.index]? = some ty
  known : ∀ {ty}, x.lookup? ty = none → ty ∉ x.types

/-! ## What entering does -/

theorem lookup?_enter_self (x : TypeIndex) (ty : Ty) :
    (x.enter ty).lookup? ty = some ⟨x.types.length⟩ := List.lookup_cons_self

theorem lookup?_enter_of_ne (x : TypeIndex) {ty a : Ty} (h : a ≠ ty) :
    (x.enter ty).lookup? a = x.lookup? a := by
  rw [lookup?, enter, List.lookup_cons, beq_false_of_ne h]
  rfl

/-- **Entering a type keeps the tables in agreement.** -/
theorem Agrees.enter {x : TypeIndex} (h : x.Agrees) (ty : Ty) : (x.enter ty).Agrees where
  found {a id} hid := by
    by_cases ha : a = ty
    · rw [ha, lookup?_enter_self] at hid
      cases hid
      exact ha ▸ List.getElem?_concat_length
    · rw [lookup?_enter_of_ne x ha] at hid
      have hold := h.found hid
      exact (List.getElem?_append_left (List.getElem?_eq_some_iff.mp hold).1).trans hold
  known {a} hnone hmem := by
    by_cases ha : a = ty
    · rw [ha, lookup?_enter_self] at hnone
      cases hnone
    · rw [lookup?_enter_of_ne x ha] at hnone
      rcases List.mem_append.mp hmem with hold | hnew
      · exact h.known hnone hold
      · exact ha (List.mem_singleton.mp hnew)

theorem Agrees.intern {x : TypeIndex} (h : x.Agrees) (ty : Ty) : (x.intern ty).2.Agrees := by
  unfold TypeIndex.intern
  cases x.lookup? ty with
  | some id => exact h
  | none => exact h.enter ty

theorem Agrees.lookup?_eq_none_iff {x : TypeIndex} (h : x.Agrees) {ty : Ty} :
    x.lookup? ty = none ↔ ty ∉ x.types := by
  refine ⟨h.known, fun hmem => ?_⟩
  rcases hl : x.lookup? ty with _ | id
  · rfl
  · exact absurd (List.mem_of_getElem? (h.found hl)) hmem

/-! ## The index of given types -/

theorem of_concat (types : List Ty) (ty : Ty) : of (types ++ [ty]) = (of types).enter ty := by
  simp [of, enter, List.zipIdx_append]

theorem mem_ids_of {types : List Ty} {ty : Ty} {id : TypeId} :
    (ty, id) ∈ (of types).ids ↔ types[id.index]? = some ty := by
  rw [of, List.mem_reverse, List.mem_map, ← List.mk_mem_zipIdx_iff_getElem?]
  constructor
  · rintro ⟨⟨a, i⟩, h, ⟨⟩⟩
    exact h
  · exact fun h => ⟨_, h, rfl⟩

theorem keys_of (types : List Ty) : (of types).ids.map Prod.fst = types.reverse := by
  rw [of, List.map_reverse, List.map_map]
  exact congrArg List.reverse (List.zipIdx_map_fst 0 types)

theorem agrees_of (types : List Ty) : (of types).Agrees where
  found h := by
    obtain ⟨l, r, heq, -⟩ := List.lookup_eq_some_iff.mp h
    exact mem_ids_of.mp (heq ▸ List.mem_append_right l List.mem_cons_self)
  known {ty} h hmem := by
    obtain ⟨i, hi⟩ := List.getElem?_of_mem hmem
    have hne := List.lookup_eq_none_iff.mp h (ty, ⟨i⟩) (mem_ids_of.mpr hi)
    exact absurd hne (by simp)

end TypeIndex

end MethodSSA
