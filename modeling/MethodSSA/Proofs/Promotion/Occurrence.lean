import MethodSSA.Promotion.Walk
import MethodSSA.Proofs.Types.Built

/-!
# What belongs to a method set

The rule for method sets, stated without a walk. From a type lead **paths** of
embedded fields, infinitely many if types embed each other. At the end of a path
stands a type, and what has an identifier there (a declared method, a method of the
underlying interface, a field of the underlying struct) is an **occurrence** of the
identifier, as deep as the path is long. A method is promoted if it is the only
occurrence of its identifier at the least depth at which there is one, and if it can
be called with what the path gives.
-/

namespace MethodSSA

/-- Something that a type has by itself, at its place among its kind. -/
inductive Feature where
  /-- a method attached to a declared type -/
  | method (m : FuncId) (place : Nat)
  /-- a method of the underlying interface -/
  | abstract (m : FuncId) (place : Nat)
  /-- a field of the underlying struct -/
  | field (place : Nat)
  deriving DecidableEq, Repr

namespace TypeTable

/-- Type `a` embeds type `b` in its field number `i`, by a pointer if `ptr`. -/
inductive Embeds (t : TypeTable) (a : TypeId) (i : Nat) (b : TypeId) (ptr : Bool) : Prop
  | intro {fields : List Field} {f : Field} (hstruct : t.underlyingTy a = .ok (.struct fields))
    (hfield : fields[i]? = some f) (hembedded : f.embedded = true)
    (hstrip : t.stripPointer f.ty = .ok (b, ptr))

/-- A path of embedded fields leads from a type to another one, across a pointer if
`ptr`. -/
inductive Leads (t : TypeTable) (a : TypeId) : List Nat → TypeId → Bool → Prop
  /-- a type leads to itself -/
  | nil : Leads t a [] a false
  /-- a path goes on by an embedded field -/
  | snoc {path : List Nat} {b c : TypeId} {ptr ptr' : Bool} {i : Nat}
    (h : Leads t a path b ptr) (he : t.Embeds b i c ptr') : Leads t a (path ++ [i]) c (ptr || ptr')

/-- What a type has under an identifier. -/
inductive Has (t : TypeTable) (ty : TypeId) (key : String) : Feature → Prop
  | method {ms : List FuncId} {place : Nat} {m : FuncId} {f : FuncDecl}
    (hms : t.declaredMethods ty = .ok ms) (hm : ms[place]? = some m) (hf : t.func m = .ok f)
    (hkey : f.id = key) : Has t ty key (.method m place)
  | abstract {ms : List FuncId} {place : Nat} {m : FuncId} {f : FuncDecl}
    (hms : t.underlyingTy ty = .ok (.interface ms)) (hm : ms[place]? = some m)
    (hf : t.func m = .ok f) (hkey : f.id = key) : Has t ty key (.abstract m place)
  | field {fs : List Field} {place : Nat} {f : Field}
    (hfs : t.underlyingTy ty = .ok (.struct fs)) (hf : fs[place]? = some f)
    (hkey : f.id = key) : Has t ty key (.field place)

/-- An occurrence of an identifier below `base`: a feature at the end of a path. -/
def Occurs (t : TypeTable) (base : TypeId) (key : String) (path : List Nat) (x : Feature) : Prop :=
  ∃ b ptr, t.Leads base path b ptr ∧ t.Has b key x

/-- The only occurrence at the least depth at which the identifier occurs. -/
structure Shallowest (t : TypeTable) (base : TypeId) (key : String) (path : List Nat)
    (x : Feature) : Prop where
  occurs : t.Occurs base key path x
  least : ∀ {path' x'}, t.Occurs base key path' x' → path.length ≤ path'.length
  only : ∀ {path' x'}, t.Occurs base key path' x' → path'.length = path.length →
    path' = path ∧ x' = x

/-- A feature is method `m` at a place, callable if `indirect` says whether a pointer
lies on the way. Interface methods count as reached by a pointer. -/
inductive Callable (t : TypeTable) (crossed : Bool) :
    Feature → (m : FuncId) → (place : Nat) → (indirect : Bool) → Prop
  | method {m : FuncId} {place : Nat}
    (h : crossed = true ∨ t.hasPointerReceiver m = .ok false) :
    Callable t crossed (.method m place) m place crossed
  | abstract {m : FuncId} {place : Nat} : Callable t crossed (.abstract m place) m place true

/-- What a method set has to hold: the selections of callable methods that are the
shallowest occurrence of their identifier below the receiver type, or below what it
points to. A pointer to an interface has no methods. -/
inductive Promotes (t : TypeTable) (recv : TypeId) (key : String) : Selection → Prop
  | intro {base b : TypeId} {isPtr ptr indirect : Bool} {path : List Nat} {x : Feature}
    {m : FuncId} {place : Nat} (hbase : t.stripPointer recv = .ok (base, isPtr))
    (hiface : isPtr = true → t.isInterface base = .ok false)
    (hx : t.Shallowest base key path x) (hb : t.Leads base path b ptr)
    (hcall : t.Callable (isPtr || ptr) x m place indirect) :
    Promotes t recv key ⟨recv, m, path ++ [place], indirect⟩

/-- A method that is attached to a declared type or listed in an interface. -/
def IsMethod (t : TypeTable) (m : FuncId) : Prop :=
  (∃ id ms, t.declaredMethods id = .ok ms ∧ m ∈ ms) ∨ ∃ id ty, t.get id = .ok ty ∧ m ∈ ty.listed

/-- Every method has a signature for a type. -/
def MethodsTyped (t : TypeTable) : Prop :=
  ∀ m f, t.IsMethod m → t.func m = .ok f → ∃ sig, t.underlyingTy f.sig = .ok (.signature sig)

theorem methodsTyped_of_forall {t : TypeTable}
    (h : ∀ f ∈ t.funcs, ∃ sig, t.underlyingTy f.sig = .ok (.signature sig)) : t.MethodsTyped := by
  intro m f _ hf
  exact h f (List.mem_of_getElem? (entry_eq_ok_iff.mp hf))

theorem nodeTable_methodsTyped : nodeTable.MethodsTyped := by
  refine methodsTyped_of_forall ?_
  rw [nodeTable, List.forall_mem_cons, List.forall_mem_cons]
  exact ⟨⟨_, rfl⟩, ⟨_, rfl⟩, fun f hf => absurd hf List.not_mem_nil⟩

/-! ## Paths -/

theorem Embeds.unique {t : TypeTable} {a b c : TypeId} {i : Nat} {p q : Bool}
    (h : t.Embeds a i b p) (h' : t.Embeds a i c q) : b = c ∧ p = q := by
  obtain ⟨hu, hf, -, hs⟩ := h
  obtain ⟨hu', hf', -, hs'⟩ := h'
  cases hu.symm.trans hu'
  cases hf.symm.trans hf'
  cases hs.symm.trans hs'
  exact ⟨rfl, rfl⟩

theorem leads_nil_iff {t : TypeTable} {a b : TypeId} {p : Bool} :
    t.Leads a [] b p ↔ b = a ∧ p = false := by
  constructor
  · intro h
    generalize hpath : ([] : List Nat) = path at h
    cases h with
    | nil => exact ⟨rfl, rfl⟩
    | snoc h he => exact absurd hpath (by simp)
  · rintro ⟨rfl, rfl⟩
    exact .nil

theorem leads_snoc_iff {t : TypeTable} {a c : TypeId} {path : List Nat} {i : Nat} {p : Bool} :
    t.Leads a (path ++ [i]) c p ↔
      ∃ b q r, t.Leads a path b q ∧ t.Embeds b i c r ∧ p = (q || r) := by
  constructor
  · intro h
    generalize hpath : path ++ [i] = path' at h
    cases h with
    | nil => exact absurd hpath (by simp)
    | snoc h he =>
      obtain ⟨rfl, hi⟩ := List.append_inj' hpath rfl
      cases hi
      exact ⟨_, _, _, h, he, rfl⟩
  · rintro ⟨b, q, r, h, he, rfl⟩
    exact .snoc h he

/-- **A path leads to one type only**, and in one way. -/
theorem Leads.unique {t : TypeTable} {a b c : TypeId} {path : List Nat} {p q : Bool}
    (h : t.Leads a path b p) (h' : t.Leads a path c q) : b = c ∧ p = q := by
  induction h generalizing c q with
  | nil =>
    obtain ⟨rfl, rfl⟩ := leads_nil_iff.mp h'
    exact ⟨rfl, rfl⟩
  | snoc _ he ih =>
    obtain ⟨b', q', r', hb', he', rfl⟩ := leads_snoc_iff.mp h'
    obtain ⟨rfl, rfl⟩ := ih hb'
    obtain ⟨rfl, rfl⟩ := he.unique he'
    exact ⟨rfl, rfl⟩

theorem Leads.append {t : TypeTable} {a b c : TypeId} {path path' : List Nat} {p q : Bool}
    (h : t.Leads a path b p) (h' : t.Leads b path' c q) : t.Leads a (path ++ path') c (p || q) := by
  induction h' with
  | nil => simpa using h
  | snoc _ he ih =>
    rw [← List.append_assoc, ← Bool.or_assoc]
    exact .snoc ih he

/-- A path can be halted after any number of steps. -/
theorem Leads.split {t : TypeTable} {a c : TypeId} {path : List Nat} {p : Bool}
    (h : t.Leads a path c p) (k : Nat) (hk : k ≤ path.length) :
    ∃ b q r, t.Leads a (path.take k) b q ∧ t.Leads b (path.drop k) c r := by
  induction h with
  | nil =>
    rw [Nat.le_zero.mp hk]
    exact ⟨a, false, false, .nil, .nil⟩
  | @snoc path b c p q i h he ih =>
    rw [List.length_append, List.length_singleton] at hk
    rcases Nat.lt_or_ge path.length k with hlt | hle
    · have hk' : k = (path ++ [i]).length := by simp; omega
      rw [hk', List.take_length, List.drop_length]
      exact ⟨c, p || q, false, .snoc h he, .nil⟩
    · obtain ⟨b', q', r', h₁, h₂⟩ := ih hle
      rw [List.take_append_of_le_length hle, List.drop_append_of_le_length hle]
      exact ⟨b', q', _, h₁, .snoc h₂ he⟩

theorem stripPointer_eq {t : TypeTable} {id : TypeId} {ty : Ty} (h : t.get id = .ok ty) :
    t.stripPointer id = .ok (ty.pointee?.elim (id, false) (·, true)) := by
  rw [stripPointer, h]
  cases ty <;> rfl

/-- What stripping a pointer gives: a pointer's element, or the type itself. -/
theorem stripPointer_eq_ok_iff {t : TypeTable} {id b : TypeId} {p : Bool} :
    t.stripPointer id = .ok (b, p) ↔ ∃ ty, t.get id = .ok ty ∧
      (ty = .pointer b ∧ p = true ∨ ty.pointee? = none ∧ b = id ∧ p = false) := by
  constructor
  · intro h
    obtain ⟨ty, hty, h'⟩ := bind_eq_ok_iff.mp h
    refine ⟨ty, hty, ?_⟩
    rw [stripPointer_eq hty] at h
    rcases hp : ty.pointee? with _ | elem <;> rw [hp] at h <;> cases h
    · exact .inr ⟨rfl, rfl, rfl⟩
    · cases ty <;> cases hp
      exact .inl ⟨rfl, rfl⟩
  · rintro ⟨ty, hty, ⟨rfl, rfl⟩ | ⟨hp, rfl, rfl⟩⟩
    · rw [stripPointer_eq hty]
      rfl
    · rw [stripPointer_eq hty, hp]
      rfl

namespace Sound

variable {t : TypeTable} (hs : Sound t)
include hs

theorem exists_stripPointer {id : TypeId} (h : t.Holds id) :
    ∃ b p, t.stripPointer id = .ok (b, p) ∧ t.Holds b ∧ b.index ≤ id.index := by
  obtain ⟨ty, hty⟩ := exists_get_iff.mpr h
  rcases hp : ty.pointee? with _ | elem
  · exact ⟨id, false, stripPointer_eq_ok_iff.mpr ⟨ty, hty, .inr ⟨hp, rfl, rfl⟩⟩, h, Nat.le_refl _⟩
  · cases ty <;> cases hp
    have hlt := hs.older (get_eq_ok_iff.mp hty) elem (List.mem_singleton_self elem)
    exact ⟨elem, true, stripPointer_eq_ok_iff.mpr ⟨_, hty, .inl ⟨rfl, rfl⟩⟩,
      Nat.lt_trans hlt h, Nat.le_of_lt hlt⟩

theorem holds_stripPointer {id b : TypeId} {p : Bool} (h : t.stripPointer id = .ok (b, p)) :
    t.Holds b ∧ b.index ≤ id.index := by
  obtain ⟨ty, hty, -⟩ := stripPointer_eq_ok_iff.mp h
  obtain ⟨b', p', hb', hholds, hle⟩ := hs.exists_stripPointer (holds_of_get hty)
  cases h.symm.trans hb'
  exact ⟨hholds, hle⟩

/-- The fields of a struct of the table are older than the struct. -/
theorem holds_field {u : TypeId} {fields : List Field} {f : Field}
    (hstruct : t.get u = .ok (.struct fields)) (hf : f ∈ fields) :
    t.Holds f.ty ∧ f.ty.index < u.index := by
  have hmem : f.ty ∈ (Ty.struct fields).components := List.mem_map_of_mem hf
  exact ⟨hs.holds_component hstruct hmem, hs.older (get_eq_ok_iff.mp hstruct) _ hmem⟩

theorem holds_embeds {a b : TypeId} {i : Nat} {p : Bool} (h : t.Embeds a i b p) : t.Holds b := by
  obtain ⟨-, -, -, hs'⟩ := h
  exact (hs.holds_stripPointer hs').1

theorem holds_leads {a b : TypeId} {path : List Nat} {p : Bool} (ha : t.Holds a)
    (h : t.Leads a path b p) : t.Holds b := by
  cases h with
  | nil => exact ha
  | snoc _ he => exact hs.holds_embeds he

end Sound

end TypeTable

end MethodSSA
