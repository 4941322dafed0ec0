import MethodSSA.Proofs.Types.Course

/-!
# Identity of types

A **type expression** is a type written out: its components are expressions in turn, down to basic
kinds and declared types. An expression is **made** by entering its types from the inside out,
at any time, with anything else done to the table in between (`Made`). However that happened,
the table then says of the identifier what the expression says (`Stands`), and there is one
expression for each identifier and one identifier for each expression. So **two identifiers
are equal exactly if they were made for the same expression**, and to compare types it is
enough to compare identifiers.
-/

namespace MethodSSA

/-- A type, written out. -/
inductive TypeExpr where
  /-- a predeclared type -/
  | basic (kind : Kind)
  /-- a declared type -/
  | declared (id : TypeId)
  /-- pointers to a type -/
  | pointer (elem : TypeExpr)
  /-- slices of a type -/
  | slice (elem : TypeExpr)
  /-- arrays of a fixed length -/
  | array (elem : TypeExpr) (length : Nat)
  /-- finite maps -/
  | map (key value : TypeExpr)
  /-- channels -/
  | channel (elem : TypeExpr) (dir : Direction)
  /-- structs; of each field its name, its package, whether it is embedded, and its type -/
  | struct (fields : List (String × Option String × Bool × TypeExpr))
  /-- interfaces -/
  | interface (methods : List FuncId)
  /-- functions; of the receiver, each parameter and each result its name and its type -/
  | signature (recv : Option (String × TypeExpr)) (params results : List (String × TypeExpr))
    (variadic : Bool)
  /-- the results of a call that has several -/
  | tuple (vars : List (String × TypeExpr))

/-- A field, written out: its name, its package, whether it is embedded, and its type. -/
abbrev FieldExpr := String × Option String × Bool × TypeExpr

/-- A variable, written out: its name and its type. -/
abbrev VarExpr := String × TypeExpr

namespace TypeTable

open Relation

variable {t t' : TypeTable}

/-! ## Making expressions -/

mutual

/-- The identifier was given out for the expression, somewhere on the way to the table. -/
inductive Made : TypeTable → TypeExpr → TypeId → Prop
  | basic {t : TypeTable} (h : Course .initial t) (k : Kind) : Made t (.basic k) (basic k)
  | declared {t : TypeTable} (h : Course .initial t) {id : TypeId} {n : TypeName}
    (hid : t.get id = .ok (.named n)) : Made t (.declared id) id
  | pointer {t : TypeTable} {e : TypeExpr} {c : TypeId} (h : Made t e c) :
    Made (t.intern (.pointer c)).2 (.pointer e) (t.intern (.pointer c)).1
  | slice {t : TypeTable} {e : TypeExpr} {c : TypeId} (h : Made t e c) :
    Made (t.intern (.slice c)).2 (.slice e) (t.intern (.slice c)).1
  | array {t : TypeTable} {e : TypeExpr} {c : TypeId} (h : Made t e c) (n : Nat) :
    Made (t.intern (.array c n)).2 (.array e n) (t.intern (.array c n)).1
  | map {t : TypeTable} {k v : TypeExpr} {a b : TypeId} (hk : Made t k a) (hv : Made t v b) :
    Made (t.intern (.map a b)).2 (.map k v) (t.intern (.map a b)).1
  | channel {t : TypeTable} {e : TypeExpr} {c : TypeId} (h : Made t e c) (dir : Direction) :
    Made (t.intern (.channel c dir)).2 (.channel e dir) (t.intern (.channel c dir)).1
  | struct {t : TypeTable} {es : List FieldExpr}
    {fields : List Field} (h : MadeFields t es fields) :
    Made (t.intern (.struct fields)).2 (.struct es) (t.intern (.struct fields)).1
  | interface {t : TypeTable} (h : Course .initial t) (methods : List FuncId) :
    Made (t.intern (.interface methods)).2 (.interface methods) (t.intern (.interface methods)).1
  | function {t : TypeTable} {ps rs : List VarExpr} {params results : List Var}
    (hps : MadeVars t ps params) (hrs : MadeVars t rs results) (variadic : Bool) :
    Made (t.intern (.signature ⟨none, params, results, variadic⟩)).2
      (.signature none ps rs variadic) (t.intern (.signature ⟨none, params, results, variadic⟩)).1
  | method {t : TypeTable} {e : TypeExpr} {c : TypeId} (h : Made t e c) (name : String)
    {ps rs : List VarExpr} {params results : List Var}
    (hps : MadeVars t ps params) (hrs : MadeVars t rs results) (variadic : Bool) :
    Made (t.intern (.signature ⟨some ⟨name, c⟩, params, results, variadic⟩)).2
      (.signature (some (name, e)) ps rs variadic)
      (t.intern (.signature ⟨some ⟨name, c⟩, params, results, variadic⟩)).1
  | tuple {t : TypeTable} {es : List VarExpr} {vars : List Var}
    (h : MadeVars t es vars) :
    Made (t.intern (.tuple vars)).2 (.tuple es) (t.intern (.tuple vars)).1
  /-- anything else is done with the table -/
  | later {t t' : TypeTable} {e : TypeExpr} {id : TypeId} (h : Made t e id) (hstep : Change t t') :
    Made t' e id

/-- The types of the fields were given out for the expressions. -/
inductive MadeFields : TypeTable → List FieldExpr → List Field → Prop
  | nil {t : TypeTable} (h : Course .initial t) : MadeFields t [] []
  | cons {t : TypeTable} {e : TypeExpr} {c : TypeId} (h : Made t e c) (name : String)
    (pkg : Option String) (embedded : Bool) {es : List FieldExpr} {fields : List Field}
    (hs : MadeFields t es fields) :
    MadeFields t ((name, pkg, embedded, e) :: es) (⟨name, pkg, c, embedded⟩ :: fields)

/-- The types of the variables were given out for the expressions. -/
inductive MadeVars : TypeTable → List VarExpr → List Var → Prop
  | nil {t : TypeTable} (h : Course .initial t) : MadeVars t [] []
  | cons {t : TypeTable} {e : TypeExpr} {c : TypeId} (h : Made t e c) (name : String)
    {es : List VarExpr} {vars : List Var} (hs : MadeVars t es vars) :
    MadeVars t ((name, e) :: es) (⟨name, c⟩ :: vars)

end

/-! ## What an identifier stands for -/

mutual

/-- The identifier stands for what the expression says. -/
inductive Stands (t : TypeTable) : TypeId → TypeExpr → Prop
  | declared {id : TypeId} {n : TypeName} (hid : t.get id = .ok (.named n)) :
    Stands t id (.declared id)
  | plain {id : TypeId} {ty : Ty} {e : TypeExpr} (hid : t.get id = .ok ty) (h : Spells t ty e) :
    Stands t id e

/-- The type, its components written out, is the expression. -/
inductive Spells (t : TypeTable) : Ty → TypeExpr → Prop
  | basic (k : Kind) : Spells t (.basic k) (.basic k)
  | pointer {c : TypeId} {e : TypeExpr} (h : Stands t c e) : Spells t (.pointer c) (.pointer e)
  | slice {c : TypeId} {e : TypeExpr} (h : Stands t c e) : Spells t (.slice c) (.slice e)
  | array {c : TypeId} {e : TypeExpr} (h : Stands t c e) (n : Nat) :
    Spells t (.array c n) (.array e n)
  | map {a b : TypeId} {k v : TypeExpr} (hk : Stands t a k) (hv : Stands t b v) :
    Spells t (.map a b) (.map k v)
  | channel {c : TypeId} {e : TypeExpr} (h : Stands t c e) (dir : Direction) :
    Spells t (.channel c dir) (.channel e dir)
  | struct {fields : List Field} {es : List FieldExpr}
    (h : SpellsFields t fields es) : Spells t (.struct fields) (.struct es)
  | interface (methods : List FuncId) : Spells t (.interface methods) (.interface methods)
  | function {params results : List Var} {ps rs : List VarExpr}
    (hps : SpellsVars t params ps) (hrs : SpellsVars t results rs) (variadic : Bool) :
    Spells t (.signature ⟨none, params, results, variadic⟩) (.signature none ps rs variadic)
  | method {c : TypeId} {e : TypeExpr} (h : Stands t c e) (name : String)
    {params results : List Var} {ps rs : List VarExpr}
    (hps : SpellsVars t params ps) (hrs : SpellsVars t results rs) (variadic : Bool) :
    Spells t (.signature ⟨some ⟨name, c⟩, params, results, variadic⟩)
      (.signature (some (name, e)) ps rs variadic)
  | tuple {vars : List Var} {es : List VarExpr} (h : SpellsVars t vars es) :
    Spells t (.tuple vars) (.tuple es)

/-- The same for fields. -/
inductive SpellsFields (t : TypeTable) : List Field → List FieldExpr → Prop
  | nil : SpellsFields t [] []
  | cons {c : TypeId} {e : TypeExpr} (h : Stands t c e) (name : String) (pkg : Option String)
    (embedded : Bool) {fields : List Field} {es : List FieldExpr}
    (hs : SpellsFields t fields es) :
    SpellsFields t (⟨name, pkg, c, embedded⟩ :: fields) ((name, pkg, embedded, e) :: es)

/-- The same for variables. -/
inductive SpellsVars (t : TypeTable) : List Var → List VarExpr → Prop
  | nil : SpellsVars t [] []
  | cons {c : TypeId} {e : TypeExpr} (h : Stands t c e) (name : String) {vars : List Var}
    {es : List VarExpr} (hs : SpellsVars t vars es) :
    SpellsVars t (⟨name, c⟩ :: vars) ((name, e) :: es)

end

/-! ### Later tables -/

mutual

/-- An identifier stands for the same as long as it keeps its meaning. -/
theorem Stands.later (hc : Course t t') {id : TypeId} {e : TypeExpr} :
    Stands t id e → Stands t' id e
  | .declared hid => .declared (hc.get hid)
  | .plain hid h => .plain (hc.get hid) (h.later hc)

theorem Spells.later (hc : Course t t') {ty : Ty} {e : TypeExpr} : Spells t ty e → Spells t' ty e
  | .basic k => .basic k
  | .pointer h => .pointer (h.later hc)
  | .slice h => .slice (h.later hc)
  | .array h n => .array (h.later hc) n
  | .map hk hv => .map (hk.later hc) (hv.later hc)
  | .channel h dir => .channel (h.later hc) dir
  | .struct h => .struct (h.later hc)
  | .interface methods => .interface methods
  | .function hps hrs variadic => .function (hps.later hc) (hrs.later hc) variadic
  | .method h name hps hrs variadic =>
    .method (h.later hc) name (hps.later hc) (hrs.later hc) variadic
  | .tuple h => .tuple (h.later hc)

theorem SpellsFields.later (hc : Course t t') {fields : List Field} {es : List FieldExpr} :
    SpellsFields t fields es → SpellsFields t' fields es
  | .nil => .nil
  | .cons h name pkg embedded hs => .cons (h.later hc) name pkg embedded (hs.later hc)

theorem SpellsVars.later (hc : Course t t') {vars : List Var} {es : List VarExpr} :
    SpellsVars t vars es → SpellsVars t' vars es
  | .nil => .nil
  | .cons h name hs => .cons (h.later hc) name (hs.later hc)

end

/-! ### One expression for each identifier -/

mutual

/-- What an identifier stands for has one spelling. -/
theorem Stands.expr_eq {id : TypeId} {e e' : TypeExpr} : Stands t id e → Stands t id e' → e = e'
  | .declared _, .declared _ => rfl
  | .declared hid, .plain hid' h' => by
    cases hid.symm.trans hid'
    cases h'
  | .plain hid h, .declared hid' => by
    cases hid.symm.trans hid'
    cases h
  | .plain hid h, .plain hid' h' => by
    cases hid.symm.trans hid'
    exact h.expr_eq h'

theorem Spells.expr_eq {ty : Ty} {e e' : TypeExpr} : Spells t ty e → Spells t ty e' → e = e'
  | .basic _, .basic _ => rfl
  | .pointer h, .pointer h' => by rw [h.expr_eq h']
  | .slice h, .slice h' => by rw [h.expr_eq h']
  | .array h _, .array h' _ => by rw [h.expr_eq h']
  | .map hk hv, .map hk' hv' => by rw [hk.expr_eq hk', hv.expr_eq hv']
  | .channel h _, .channel h' _ => by rw [h.expr_eq h']
  | .struct h, .struct h' => by rw [h.expr_eq h']
  | .interface _, .interface _ => rfl
  | .function hps hrs _, .function hps' hrs' _ => by rw [hps.expr_eq hps', hrs.expr_eq hrs']
  | .method h _ hps hrs _, .method h' _ hps' hrs' _ => by
    rw [h.expr_eq h', hps.expr_eq hps', hrs.expr_eq hrs']
  | .tuple h, .tuple h' => by rw [h.expr_eq h']

theorem SpellsFields.expr_eq {fields : List Field} {es es' : List FieldExpr} :
    SpellsFields t fields es → SpellsFields t fields es' → es = es'
  | .nil, .nil => rfl
  | .cons h _ _ _ hs, .cons h' _ _ _ hs' => by rw [h.expr_eq h', hs.expr_eq hs']

theorem SpellsVars.expr_eq {vars : List Var} {es es' : List VarExpr} :
    SpellsVars t vars es → SpellsVars t vars es' → es = es'
  | .nil, .nil => rfl
  | .cons h _ hs, .cons h' _ hs' => by rw [h.expr_eq h', hs.expr_eq hs']

end

/-! ### One identifier for each expression -/

mutual

/-- What is spelled the same has one identifier. -/
theorem Stands.id_eq (hn : t.types.Nodup) {id id' : TypeId} {e : TypeExpr} :
    Stands t id e → Stands t id' e → id = id'
  | .declared _, h' => by
    cases h' with
    | declared => rfl
    | plain _ h' => cases h'
  | .plain hid h, h' => by
    cases h' with
    | declared => cases h
    | plain hid' h' =>
      rw [h.ty_eq hn h'] at hid
      exact get_inj_of_nodup hn hid hid'

theorem Spells.ty_eq (hn : t.types.Nodup) {ty ty' : Ty} {e : TypeExpr} :
    Spells t ty e → Spells t ty' e → ty = ty'
  | .basic _, .basic _ => rfl
  | .pointer h, .pointer h' => by rw [h.id_eq hn h']
  | .slice h, .slice h' => by rw [h.id_eq hn h']
  | .array h _, .array h' _ => by rw [h.id_eq hn h']
  | .map hk hv, .map hk' hv' => by rw [hk.id_eq hn hk', hv.id_eq hn hv']
  | .channel h _, .channel h' _ => by rw [h.id_eq hn h']
  | .struct h, .struct h' => by rw [h.fields_eq hn h']
  | .interface _, .interface _ => rfl
  | .function hps hrs _, .function hps' hrs' _ => by rw [hps.vars_eq hn hps', hrs.vars_eq hn hrs']
  | .method h _ hps hrs _, .method h' _ hps' hrs' _ => by
    rw [h.id_eq hn h', hps.vars_eq hn hps', hrs.vars_eq hn hrs']
  | .tuple h, .tuple h' => by rw [h.vars_eq hn h']

theorem SpellsFields.fields_eq (hn : t.types.Nodup) {fields fields' : List Field}
    {es : List FieldExpr} : SpellsFields t fields es → SpellsFields t fields' es → fields = fields'
  | .nil, .nil => rfl
  | .cons h _ _ _ hs, .cons h' _ _ _ hs' => by rw [h.id_eq hn h', hs.fields_eq hn hs']

theorem SpellsVars.vars_eq (hn : t.types.Nodup) {vars vars' : List Var} {es : List VarExpr} :
    SpellsVars t vars es → SpellsVars t vars' es → vars = vars'
  | .nil, .nil => rfl
  | .cons h _ hs, .cons h' _ hs' => by rw [h.id_eq hn h', hs.vars_eq hn hs']

end

/-! ### What was made stands -/

mutual

/-- Identifiers are made in tables of some course. -/
theorem Made.course {t : TypeTable} {e : TypeExpr} {id : TypeId} : Made t e id → Course .initial t
  | .basic h _ | .declared h _ => h
  | .pointer h | .slice h | .array h _ | .channel h _ => h.course.tail (.intern _ nofun)
  | .map hk _ => hk.course.tail (.intern _ nofun)
  | .struct h => h.course.tail (.intern _ nofun)
  | .interface h _ => h.tail (.intern _ nofun)
  | .function hps _ _ => hps.course.tail (.intern _ nofun)
  | .method h _ _ _ _ => h.course.tail (.intern _ nofun)
  | .tuple h => h.course.tail (.intern _ nofun)
  | .later h hstep => h.course.tail hstep

theorem MadeFields.course {t : TypeTable} {es : List FieldExpr} {fields : List Field} :
    MadeFields t es fields → Course .initial t
  | .nil h => h
  | .cons h _ _ _ _ => h.course

theorem MadeVars.course {t : TypeTable} {es : List VarExpr} {vars : List Var} :
    MadeVars t es vars → Course .initial t
  | .nil h => h
  | .cons h _ _ => h.course

end

/-- What is entered stands for its spelling. -/
theorem Spells.entered {ty : Ty} {e : TypeExpr} (h : Spells t ty e) (hty : ty.isNamed = false) :
    Stands (t.intern ty).2 (t.intern ty).1 e := by
  refine .plain (get_intern t ty) (h.later (.single (.intern ty fun hn => ?_)))
  rw [hty] at hn
  cases hn

mutual

/-- **An identifier stands for what it was made for**, whatever was done in between. -/
theorem Made.stands {t : TypeTable} {e : TypeExpr} {id : TypeId} : Made t e id → Stands t id e
  | .basic h k => .plain ((indexed_initial.course h).basics k) (.basic k)
  | .declared _ hid => .declared hid
  | .pointer h => (Spells.pointer h.stands).entered rfl
  | .slice h => (Spells.slice h.stands).entered rfl
  | .array h n => (Spells.array h.stands n).entered rfl
  | .map hk hv => (Spells.map hk.stands hv.stands).entered rfl
  | .channel h dir => (Spells.channel h.stands dir).entered rfl
  | .struct h => (Spells.struct h.spells).entered rfl
  | .interface _ methods => (Spells.interface methods).entered rfl
  | .function hps hrs variadic => (Spells.function hps.spells hrs.spells variadic).entered rfl
  | .method h name hps hrs variadic =>
    (Spells.method h.stands name hps.spells hrs.spells variadic).entered rfl
  | .tuple h => (Spells.tuple h.spells).entered rfl
  | .later h hstep => h.stands.later (.single hstep)

theorem MadeFields.spells {t : TypeTable} {es : List FieldExpr} {fields : List Field} :
    MadeFields t es fields → SpellsFields t fields es
  | .nil _ => .nil
  | .cons h name pkg embedded hs => .cons h.stands name pkg embedded hs.spells

theorem MadeVars.spells {t : TypeTable} {es : List VarExpr} {vars : List Var} :
    MadeVars t es vars → SpellsVars t vars es
  | .nil _ => .nil
  | .cons h name hs => .cons h.stands name hs.spells

end

/-! ## Types and identifiers -/

theorem lookup?_eq_of_get (hn : t.types.Nodup) {id : TypeId} {ty : Ty} (h : t.get id = .ok ty) :
    t.lookup? ty = some id := by
  rcases hl : t.lookup? ty with _ | id'
  · exact absurd (List.mem_of_getElem? (get_eq_ok_iff.mp h)) (lookup?_eq_none_iff.mp hl)
  · rw [get_inj_of_nodup hn h (get_eq_ok_iff.mpr (getElem?_of_lookup? hl))]

theorem nodup_intern (hn : t.types.Nodup) (ty : Ty) : (t.intern ty).2.types.Nodup := by
  rw [types_intern]
  split
  · exact hn
  · next hfresh => exact List.nodup_append.mpr ⟨hn, List.pairwise_singleton _ ty, by
      rintro a ha b hb rfl
      exact hfresh (List.mem_singleton.mp hb ▸ ha)⟩

theorem fault_of_get {id : TypeId} {e : Fault} (h : t.get id = .error e) :
    ¬ t.Holds id ∧ e = .foreignType := by
  obtain ⟨hle, he⟩ := entry_eq_error_iff.mp h
  exact ⟨Nat.not_lt.mpr hle, he⟩

/-- Types and identifiers of a table lead to each other, and a declared type to its
declaration. -/
structure Mirrored (t : TypeTable) : Prop where
  /-- beside a type stands its identifier, and nothing else is in the table of identifiers -/
  entries : ∀ ty id, (ty, id) ∈ t.ids ↔ t.get id = .ok ty
  /-- no type has two entries in the table of identifiers -/
  keys : (t.ids.map Prod.fst).Nodup
  /-- an identifier is found by the type that it stands for -/
  lookup? : ∀ id ty, t.get id = .ok ty ↔ t.lookup? ty = some id
  /-- a type that is there is not entered again -/
  intern_of_get : ∀ id ty, t.get id = .ok ty → t.intern ty = (id, t)
  /-- a type that is entered is found by its identifier, and its identifier by it -/
  get_intern : ∀ ty, (t.intern ty).2.get (t.intern ty).1 = .ok ty ∧
    (t.intern ty).2.lookup? ty = some (t.intern ty).1
  /-- a declared type leads to its declaration, which records it -/
  recorded : ∀ id n, t.get id = .ok (.named n) → ∃ d, t.decl n.decl = .ok d ∧ d.id = id
  /-- every type of the table has an underlying type and methods -/
  answers : ∀ id, t.Holds id →
    (∃ u, t.underlying id = .ok u) ∧ ∃ ms, t.declaredMethods id = .ok ms
  /-- every declared type can be completed by every type of the table -/
  completes : ∀ id n u, t.get id = .ok (.named n) → t.Holds u → ∃ t', t.setUnderlying id u = .ok t'
  /-- nothing else can be wrong with a question than the identifier -/
  faults : ∀ id e, t.underlying id = .error e ∨ t.declaredMethods id = .error e →
    ¬ t.Holds id ∧ e = .foreignType
  /-- nothing else can be wrong with a completion than the identifiers -/
  completionFaults : ∀ id u e, t.setUnderlying id u = .error e →
    e = .foreignType ∨ ∃ ty, t.get id = .ok ty ∧ e = .notNamed ty

namespace Indexed

variable (hx : t.Indexed)
include hx

theorem exists_declaredMethods {id : TypeId} (h : t.Holds id) :
    ∃ ms, t.declaredMethods id = .ok ms := by
  obtain ⟨ty, hty⟩ := exists_get_iff.mpr h
  rcases hn : ty.isNamed with _ | _
  · exact ⟨[], declaredMethods_plain hty hn⟩
  · cases ty <;> cases hn
    obtain ⟨d, hd, -⟩ := hx.recorded hty
    exact ⟨d.methods, declaredMethods_named hty (entry_eq_ok_iff.mp hd)⟩

theorem setUnderlying_eq {id u v : TypeId} {n : TypeName} (hid : t.get id = .ok (.named n))
    (hu : t.underlying u = .ok v) :
    t.setUnderlying id u = .ok (t.updateDecl n.decl fun d => { d with underlying := v }) := by
  obtain ⟨d, hd, -⟩ := hx.recorded hid
  simp [setUnderlying, declNumber, hu, hid, hd]

theorem faults {id : TypeId} {e : Fault}
    (h : t.underlying id = .error e ∨ t.declaredMethods id = .error e) :
    ¬ t.Holds id ∧ e = .foreignType := by
  rcases hget : t.get id with f | ty
  · obtain ⟨hid, rfl⟩ := fault_of_get hget
    refine ⟨hid, ?_⟩
    rcases h with h | h
    · rw [TypeTable.underlying, hget] at h
      cases h
      rfl
    · rw [declaredMethods, hget] at h
      cases h
      rfl
  · obtain ⟨u, hu, -⟩ := hx.exists_underlying (holds_of_get hget)
    obtain ⟨ms, hms⟩ := hx.exists_declaredMethods (holds_of_get hget)
    rw [hu, hms] at h
    rcases h with h | h <;> cases h

theorem completionFaults {id u : TypeId} {e : Fault} (h : t.setUnderlying id u = .error e) :
    e = .foreignType ∨ ∃ ty, t.get id = .ok ty ∧ e = .notNamed ty := by
  rcases hu : t.underlying u with f | v
  · rw [setUnderlying, hu] at h
    cases h
    exact .inl (hx.faults (.inl hu)).2
  rcases hget : t.get id with f | ty
  · rw [setUnderlying, hu, ok_bind, declNumber, hget] at h
    cases h
    exact .inl (fault_of_get hget).2
  by_cases hn : ∃ n, ty = .named n
  · obtain ⟨n, rfl⟩ := hn
    rw [hx.setUnderlying_eq hget hu] at h
    cases h
  · refine .inr ⟨ty, rfl, ?_⟩
    rw [setUnderlying, hu, ok_bind, declNumber, hget] at h
    cases ty with
    | named n => exact absurd ⟨n, rfl⟩ hn
    | _ =>
      cases h
      rfl

theorem mirrored : t.Mirrored where
  entries ty id := by
    rw [hx.index, TypeIndex.mem_ids_of, get_eq_ok_iff]
  keys := by
    rw [hx.index, TypeIndex.keys_of]
    exact (List.reverse_perm _).nodup_iff.mpr hx.nodup
  lookup? id ty := ⟨lookup?_eq_of_get hx.nodup, fun h => get_eq_ok_iff.mpr (getElem?_of_lookup? h)⟩
  intern_of_get _ _ h := intern_of_lookup? (lookup?_eq_of_get hx.nodup h)
  get_intern ty :=
    ⟨get_intern t ty, lookup?_eq_of_get (nodup_intern hx.nodup ty) (get_intern t ty)⟩
  recorded _ _ h := hx.recorded h
  answers id h := by
    obtain ⟨u, hu, -⟩ := hx.exists_underlying h
    exact ⟨⟨u, hu⟩, hx.exists_declaredMethods h⟩
  completes id n u hid hu := by
    obtain ⟨v, hv, -⟩ := hx.exists_underlying hu
    exact ⟨_, hx.setUnderlying_eq hid hv⟩
  faults _ _ h := hx.faults h
  completionFaults _ _ _ h := hx.completionFaults h

/-- **One expression for each identifier, and one identifier for each expression.** -/
theorem stands_iff {id id' : TypeId} {e e' : TypeExpr} (h : Stands t id e) (h' : Stands t id' e') :
    id = id' ↔ e = e' := by
  constructor
  · rintro rfl
    exact h.expr_eq h'
  · rintro rfl
    exact h.id_eq hx.nodup h'

/-- A declaration is another one than all before it. -/
theorem declareType_ne {id : TypeId} {n : TypeName} (h : t.get id = .ok (.named n)) (name : String)
    (pkg : Option String) : (t.declareType name pkg).1 ≠ id := by
  rintro rfl
  have hfresh := hx.fresh name pkg
  have hlt := holds_of_get h
  change (t.intern _).1.index < _ at hlt
  rw [(intern_of_not_mem hfresh).1] at hlt
  exact Nat.lt_irrefl _ hlt

end Indexed

/-- **Identity of types is structural and lasts.** Whatever was done with a table before, the
list of its types and the index of their identifiers are inverse to each other, and no later change
alters what an identifier stands for. Identifiers that were made for type expressions, at whatever times, are equal exactly if
the expressions are; and a declared type is another one than any that is declared later, under
whatever name. -/
theorem Course.identity (h : Course .initial t) :
    t.Mirrored ∧
    (∀ t', Course t t' → ∀ id ty, t.get id = .ok ty → t'.get id = .ok ty) ∧
    (∀ e e' id id', Made t e id → Made t e' id' → (id = id' ↔ e = e')) ∧
    (∀ name pkg t', Course (t.declareType name pkg).2 t' → ∀ name' pkg',
      (t'.declareType name' pkg').1 ≠ (t.declareType name pkg).1) := by
  have hx := indexed_initial.course h
  refine ⟨hx.mirrored, fun t' hc id ty => hc.get, ?_, ?_⟩
  · intro e e' id id' he he'
    exact hx.stands_iff he.stands he'.stands
  · intro name pkg t' hc name' pkg'
    have hdeclared : (t.declareType name pkg).2.get (t.declareType name pkg).1 =
      .ok (.named ⟨name, pkg, t.decls.length⟩) := get_intern t _
    have hx' := (hx.change (.declareType name pkg)).course hc
    exact hx'.declareType_ne (hc.get hdeclared) name' pkg'

/-- Two types declared under one name. -/
def declaredTwice : TypeTable :=
  ((initial.declareType "Celsius" (some "p")).2.declareType "Celsius" (some "p")).2

/-- Two types declared under one name, and pointers to both. -/
def twins : TypeTable := ((declaredTwice.intern (.pointer ⟨25⟩)).2.intern (.pointer ⟨26⟩)).2

/-- Pointers to types of one name are different types. -/
theorem Course.identity_twins :
    Course .initial twins ∧
      Made twins (.pointer (.declared ⟨25⟩)) ⟨27⟩ ∧ Made twins (.pointer (.declared ⟨26⟩)) ⟨28⟩ ∧
      TypeExpr.pointer (.declared ⟨25⟩) ≠ .pointer (.declared ⟨26⟩) := by
  have first := Change.declareType (t := .initial) "Celsius" (some "p")
  have second := Change.declareType (t := (TypeTable.initial.declareType "Celsius" (some "p")).2)
    "Celsius" (some "p")
  have hdeclared : Course .initial declaredTwice := .tail (.single first) second
  have hp : Made declaredTwice (.declared ⟨25⟩) ⟨25⟩ := .declared hdeclared rfl
  have hq : Made declaredTwice (.declared ⟨26⟩) ⟨26⟩ := .declared hdeclared rfl
  have hpp := Made.pointer hp
  have hqp := Made.pointer (hq.later (.intern (.pointer ⟨25⟩) nofun))
  have hpp := hpp.later (.intern (.pointer ⟨26⟩) nofun)
  have hcourse : Course .initial twins := hpp.course
  refine ⟨hcourse, hpp, hqp, fun he => ?_⟩
  have heq := (hcourse.identity.2.2.1 _ _ _ _ hpp hqp).mpr he
  exact absurd heq (by decide)

end TypeTable

end MethodSSA
