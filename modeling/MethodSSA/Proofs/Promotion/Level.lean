import MethodSSA.Proofs.Promotion.Occurrence

/-!
# One level of the walk

What the walk of a level gives, in closed form. In a sound table no step of the walk
faults, so the walk can be read as plain folds (`enter`): a type is passed over if it
is declared and was walked before, and of every other one the walk notes the methods
(`marks`), the identifiers of the fields, and what is embedded (`children`). Of the
notes of one identifier the first is kept as long as no other one, and no field,
follows it (`lookup_offers`).
-/

namespace MethodSSA

/-- A fold of steps that succeed is the fold of their results. -/
theorem foldlM_eq_ok {ε α β : Type} {f : β → α → Except ε β} {g : β → α → β} :
    ∀ (l : List α) (b : β), (∀ b, ∀ a ∈ l, f b a = .ok (g b a)) → l.foldlM f b = .ok (l.foldl g b)
  | [], _, _ => rfl
  | a :: l, b, h => by
    rw [List.foldlM_cons, h b a (List.mem_cons_self ..)]
    exact foldlM_eq_ok l (g b a) fun b a ha => h b a (List.mem_cons_of_mem _ ha)

/-- What the walk notes of a method that it meets. -/
structure Mark where
  /-- the embedded fields on the way to the method's type -/
  path : List Nat
  /-- the method, at its place -/
  feature : Feature
  /-- the identifier of the method -/
  key : String
  /-- what is offered, if nothing else has the identifier -/
  sel : Option Selection

/-- Takes note of a mark: it offers nothing if something has its identifier already. -/
def Mark.note (found : Offers) (o : Mark) : Offers :=
  (o.key, if (found.lookup o.key).isSome then none else o.sel) :: found

namespace TypeTable

variable (t : TypeTable)

/-! ## Readings without faults

A foreign identifier reads as nothing. -/

/-- Whether a type is a declared type. -/
def isDeclared (ty : TypeId) : Bool := (t.get ty).toOption.any Ty.isNamed

/-- The methods attached to a type. -/
def attachedTo (ty : TypeId) : List FuncId := (t.declaredMethods ty).toOption.getD []

/-- The methods of the interface underlying a type. -/
def listedBy (ty : TypeId) : List FuncId := (t.underlyingTy ty).toOption.elim [] Ty.listed

/-- The fields of the struct underlying a type. -/
def fieldsOf (ty : TypeId) : List Field := ((t.underlyingTy ty).toOption.bind Ty.fields?).getD []

/-- The identifier of a method. -/
def idOf (m : FuncId) : String := (t.func m).toOption.elim "" FuncDecl.id

/-- Whether a method takes its receiver by pointer. -/
def byPointer (m : FuncId) : Bool := (t.hasPointerReceiver m).toOption.getD false

/-- A type without the pointer around it, and whether there was one. -/
def stripped (ty : TypeId) : TypeId × Bool := (t.stripPointer ty).toOption.getD (ty, false)

/-! ## What a reach gives -/

variable (recv : TypeId)

/-- The mark of a method met at `r`. -/
def mark (r : Reach) (x : Feature) (m : FuncId) (place : Nat) : Mark where
  path := r.path
  feature := x
  key := t.idOf m
  sel :=
    if r.ambiguous || !r.indirect && t.byPointer m then none
    else some ⟨recv, m, r.path ++ [place], r.indirect⟩

/-- The marks of all methods met at `r`. -/
def marks (r : Reach) : List Mark :=
  (t.attachedTo r.ty).zipIdx.map (fun (m, place) => t.mark recv r (.method m place) m place) ++
    (t.listedBy r.ty).zipIdx.map fun (m, place) =>
      t.mark recv { r with indirect := true } (.abstract m place) m place

/-- The types embedded at `r`. -/
def children (r : Reach) : List Reach :=
  (t.fieldsOf r.ty).zipIdx.filterMap fun (f, place) =>
    if f.embedded then
      some ⟨(t.stripped f.ty).1, r.path ++ [place], r.indirect || (t.stripped f.ty).2, r.ambiguous⟩
    else none

/-- Walks a type that is not passed over. -/
def enter (l : Level) (r : Reach) : Level where
  seen := if t.isDeclared r.ty then r.ty :: l.seen else l.seen
  found := (t.marks recv r).foldl Mark.note l.found
  fields := ((t.fieldsOf r.ty).map Field.id).reverse ++ l.fields
  next := l.next ++ t.children r

/-- Walks a type, unless it is declared and was walked before. -/
def visit (l : Level) (r : Reach) : Level :=
  if t.isDeclared r.ty && decide (r.ty ∈ l.seen) then l else t.enter recv l r

/-- The types of a level that are not passed over. -/
def entered (seen : List TypeId) (level : List Reach) : List Reach :=
  level.filter fun (r : Reach) => !(t.isDeclared r.ty && decide (r.ty ∈ seen))

variable {t recv}

/-! ## No step faults -/

/-- A method of a type has a receiver mode. -/
theorem Sound.hasPointerReceiver_eq (hs : t.Sound) (hm : t.MethodsTyped) {m : FuncId}
    (h : t.HoldsFunc m) (hmeth : t.IsMethod m) : t.hasPointerReceiver m = .ok (t.byPointer m) := by
  suffices ∃ b, t.hasPointerReceiver m = .ok b by
    obtain ⟨b, hb⟩ := this
    simp [byPointer, hb, Except.toOption]
  obtain ⟨f, hf, hsig⟩ := hs.exists_func h
  obtain ⟨sig, hu⟩ := hm m f hmeth hf
  have hrecv := receiver?_eq hf (signatureOf_eq hu)
  rcases hr : sig.recv with _ | v
  · exact ⟨false, by simp [hasPointerReceiver, hrecv, hr]⟩
  · obtain ⟨u, hu', hty⟩ := bind_eq_ok_iff.mp hu
    have hv : v.ty ∈ (Ty.signature sig).components := by
      refine List.mem_map_of_mem ?_
      rw [Signature.vars, hr]
      simp
    obtain ⟨ty, hty'⟩ := hs.exists_underlyingTy (hs.holds_component hty hv)
    rw [hr] at hrecv
    exact ⟨_, (TypeTable.hasPointerReceiver_eq hrecv).trans (isPointer_eq hty')⟩

theorem idOf_eq {m : FuncId} {f : FuncDecl} (h : t.func m = .ok f) : t.idOf m = f.id := by
  simp [idOf, h, Except.toOption]

theorem Sound.func_eq (hs : t.Sound) {m : FuncId} (h : t.HoldsFunc m) :
    ∃ f, t.func m = .ok f ∧ f.id = t.idOf m := by
  obtain ⟨f, hf, -⟩ := hs.exists_func h
  exact ⟨f, hf, (idOf_eq hf).symm⟩

theorem Sound.stripPointer_eq_stripped (hs : t.Sound) {id : TypeId} (h : t.Holds id) :
    t.stripPointer id = .ok (t.stripped id) := by
  obtain ⟨b, p, hb, -⟩ := hs.exists_stripPointer h
  simp [stripped, hb, Except.toOption]

theorem isDeclared_eq {ty : TypeId} {a : Ty} (h : t.get ty = .ok a) :
    t.isDeclared ty = a.isNamed := by
  simp [isDeclared, h, Except.toOption]

theorem attachedTo_eq {ty : TypeId} {ms : List FuncId} (h : t.declaredMethods ty = .ok ms) :
    t.attachedTo ty = ms := by
  simp [attachedTo, h, Except.toOption]

theorem listedBy_eq {ty : TypeId} {u : Ty} (h : t.underlyingTy ty = .ok u) :
    t.listedBy ty = u.listed := by
  simp [listedBy, h, Except.toOption]

theorem fieldsOf_eq {ty : TypeId} {u : Ty} (h : t.underlyingTy ty = .ok u) :
    t.fieldsOf ty = u.fields?.getD [] := by
  simp [fieldsOf, h, Except.toOption]

theorem Sound.offerMethod_eq (hs : t.Sound) (hm : t.MethodsTyped) {m : FuncId}
    (h : t.HoldsFunc m) (hmeth : t.IsMethod m) (r : Reach) (x : Feature) (found : Offers)
    (place : Nat) :
    t.offerMethod recv r found m place = .ok (Mark.note found (t.mark recv r x m place)) := by
  obtain ⟨f, hf, hid⟩ := hs.func_eq h
  rw [offerMethod, hf]
  change (if r.ambiguous || (found.lookup f.id).isSome then _ else _) = _
  rw [hs.hasPointerReceiver_eq hm h hmeth, Mark.note, mark, hid]
  rcases r.ambiguous <;> rcases (found.lookup (t.idOf m)).isSome <;> rcases r.indirect <;>
    rcases t.byPointer m <;> rfl

theorem Sound.offerMethods_eq (hs : t.Sound) (hm : t.MethodsTyped) {ms : List FuncId}
    (h : ∀ m ∈ ms, t.HoldsFunc m ∧ t.IsMethod m) (r : Reach) (x : FuncId → Nat → Feature)
    (found : Offers) :
    t.offerMethods recv r found ms =
      .ok ((ms.zipIdx.map fun (m, place) => t.mark recv r (x m place) m place).foldl
        Mark.note found) := by
  rw [List.foldl_map]
  refine foldlM_eq_ok ms.zipIdx found fun found a ha => ?_
  obtain ⟨hheld, hmeth⟩ := h a.1 (List.fst_mem_of_mem_zipIdx ha)
  exact hs.offerMethod_eq hm hheld hmeth r (x a.1 a.2) found a.2

theorem Sound.walkField_eq (hs : t.Sound) {f : Field} (h : t.Holds f.ty) (r : Reach) (l : Level)
    (place : Nat) :
    t.walkField r l f place = .ok
      { l with
        fields := f.id :: l.fields
        next := l.next ++ (if f.embedded then
          some (⟨(t.stripped f.ty).1, r.path ++ [place], r.indirect || (t.stripped f.ty).2,
            r.ambiguous⟩ : Reach) else none).toList } := by
  unfold walkField
  rcases f.embedded with _ | _
  · simp [pure, Except.pure]
  · rw [if_pos rfl, hs.stripPointer_eq_stripped h]
    rfl

/-- The walk of a struct's fields, one by one. -/
theorem Sound.walkFields_eq (hs : t.Sound) (r : Reach) :
    ∀ (fields : List (Field × Nat)) (l : Level), (∀ f ∈ fields, t.Holds f.1.ty) →
      fields.foldlM (fun l (f, place) => t.walkField r l f place) l = .ok
        { l with
          fields := (fields.map (·.1.id)).reverse ++ l.fields
          next := l.next ++ fields.filterMap fun (f, place) =>
            if f.embedded then
              some ⟨(t.stripped f.ty).1, r.path ++ [place], r.indirect || (t.stripped f.ty).2,
                r.ambiguous⟩
            else none }
  | [], l, _ => by simp [pure, Except.pure]
  | (f, place) :: fields, l, h => by
    rw [List.foldlM_cons]
    change (t.walkField r l f place >>= _) = _
    rw [hs.walkField_eq (h _ (List.mem_cons_self ..))]
    change List.foldlM _ _ _ = _
    rw [hs.walkFields_eq r fields _ fun f hf => h f (List.mem_cons_of_mem _ hf)]
    rcases hf : f.embedded with _ | _ <;> simp [hf]

theorem isMethod_of_listed {id : TypeId} {u : Ty} {m : FuncId} (h : t.get id = .ok u)
    (hm : m ∈ u.listed) : t.IsMethod m :=
  .inr ⟨id, u, h, hm⟩

theorem Sound.isMethod_of_attached (hs : t.Sound) {id : TypeId} {ms : List FuncId} {m : FuncId}
    (h : t.declaredMethods id = .ok ms) (hm : m ∈ ms) : t.HoldsFunc m ∧ t.IsMethod m := by
  obtain ⟨ty, hty, -⟩ := bind_eq_ok_iff.mp h
  obtain ⟨ms', hms', hheld⟩ := hs.exists_declaredMethods (holds_of_get hty)
  cases h.symm.trans hms'
  exact ⟨hheld m hm, .inl ⟨id, ms, h, hm⟩⟩

/-- The walk of the structure underlying the type of `r`. -/
theorem Sound.walkStructure_eq (hs : t.Sound) (hm : t.MethodsTyped) {id : TypeId} {u : Ty}
    (hid : t.get id = .ok u) (r : Reach) (hu : t.underlyingTy r.ty = .ok u) (l : Level) :
    t.walkStructure recv r id l = .ok
      { l with
        found := ((t.listedBy r.ty).zipIdx.map fun (m, place) =>
          t.mark recv { r with indirect := true } (.abstract m place) m place).foldl
            Mark.note l.found
        fields := ((t.fieldsOf r.ty).map Field.id).reverse ++ l.fields
        next := l.next ++ t.children r } := by
  rw [walkStructure, hid, children, fieldsOf_eq hu, listedBy_eq hu]
  cases u with
  | struct fields =>
    change List.foldlM _ _ _ = _
    rw [hs.walkFields_eq r]
    · have hmap : fields.zipIdx.map (fun p => p.1.id) = fields.map Field.id := by
        change fields.zipIdx.map (Field.id ∘ Prod.fst) = _
        rw [← List.map_map, List.zipIdx_map_fst]
      rw [hmap]
      rfl
    · intro f hf
      exact (hs.holds_field hid (List.fst_mem_of_mem_zipIdx hf)).1
  | interface methods =>
    have hms : ∀ m ∈ methods, t.HoldsFunc m ∧ t.IsMethod m := fun m hm' =>
      ⟨hs.holdsFunc_listed hid hm', isMethod_of_listed hid hm'⟩
    change (do return { l with found := ← t.offerMethods recv _ l.found methods }) = _
    rw [hs.offerMethods_eq hm hms _ Feature.abstract]
    simp [Ty.fields?, Ty.listed, Ty.methods?, bind, Except.bind, pure, Except.pure]
  | _ => simp [Ty.fields?, Ty.listed, Ty.methods?, bind, Except.bind, pure, Except.pure]

/-- **The walk of a type never faults**, and does what `visit` says. -/
theorem Sound.walkReach_eq (hs : t.Sound) (hm : t.MethodsTyped) (l : Level) (r : Reach)
    (h : t.Holds r.ty) : t.walkReach recv l r = .ok (t.visit recv l r) := by
  obtain ⟨a, ha⟩ := exists_get_iff.mpr h
  obtain ⟨u, hu, -⟩ := hs.exists_underlying h
  obtain ⟨uty, huty⟩ := hs.exists_underlyingTy h
  obtain ⟨u', hu', hget⟩ := bind_eq_ok_iff.mp huty
  cases hu.symm.trans hu'
  obtain ⟨ms, hms, -⟩ := hs.exists_declaredMethods h
  rw [walkReach, visit, enter, marks, ha, isDeclared_eq ha, attachedTo_eq hms, List.foldl_append]
  change (if a.isNamed = true then _ else _) = _
  rcases hn : a.isNamed with _ | _
  · -- an undeclared type has no methods of its own, and is its own structure
    rw [declaredMethods_plain ha hn] at hms
    rw [underlying_plain ha hn] at hu
    cases hms
    cases hu
    rw [if_neg Bool.false_ne_true, hs.walkStructure_eq hm hget r huty]
    rfl
  · rw [if_pos rfl]
    by_cases hseen : r.ty ∈ l.seen
    · rw [if_pos hseen, decide_eq_true hseen]
      rfl
    · rw [if_neg hseen, decide_eq_false hseen, hms]
      change (do
        let found ← t.offerMethods recv r l.found ms
        t.walkStructure recv r (← t.underlying r.ty)
          { l with seen := r.ty :: l.seen, found := found }) = _
      rw [hs.offerMethods_eq hm (fun m => hs.isMethod_of_attached hms) r Feature.method, hu]
      change t.walkStructure recv r u _ = _
      rw [hs.walkStructure_eq hm hget r huty]
      rfl

/-! ## The whole level -/

/-- Types that stand in a level once are passed over if they were walked on a level
above. -/
theorem foldl_visit (seen : List TypeId) :
    ∀ (level : List Reach) (l : Level), (level.map (·.ty)).Nodup →
      (∀ r ∈ level, r.ty ∈ l.seen ↔ r.ty ∈ seen) →
      level.foldl (t.visit recv) l = (t.entered seen level).foldl (t.enter recv) l
  | [], _, _, _ => rfl
  | r :: level, l, hnodup, hseen => by
    rw [List.map_cons, List.nodup_cons] at hnodup
    obtain ⟨hr, hnodup⟩ := hnodup
    have hrest : ∀ r' ∈ level, r'.ty ≠ r.ty := fun r' hr' heq =>
      hr (heq ▸ List.mem_map_of_mem hr')
    rw [List.foldl_cons, visit, entered, List.filter_cons]
    simp only [hseen r (List.mem_cons_self ..)]
    rcases hpass : t.isDeclared r.ty && decide (r.ty ∈ seen) with _ | _
    · -- entering `r` adds no type of those that follow to what was seen
      refine foldl_visit seen level _ hnodup fun r' hr' => ?_
      rw [← hseen r' (List.mem_cons_of_mem _ hr'), enter]
      rcases t.isDeclared r.ty with _ | _
      · rfl
      · simp [hrest r' hr']
    · exact foldl_visit seen level l hnodup fun r' hr' => hseen r' (List.mem_cons_of_mem _ hr')

/-- Walking types that are not passed over, in closed form. -/
theorem foldl_enter :
    ∀ (level : List Reach) (l : Level), level.foldl (t.enter recv) l =
      { seen := ((level.filter fun r => t.isDeclared r.ty).map (·.ty)).reverse ++ l.seen
        found := (level.flatMap (t.marks recv)).foldl Mark.note l.found
        fields := (level.flatMap fun r => (t.fieldsOf r.ty).map Field.id).reverse ++ l.fields
        next := l.next ++ level.flatMap t.children }
  | [], l => by simp
  | r :: level, l => by
    rw [List.foldl_cons, foldl_enter level, enter]
    rcases hd : t.isDeclared r.ty with _ | _ <;> simp [hd, List.foldl_append]

/-- **The walk of a level never faults**: it enters the types that it does not pass over. -/
theorem Sound.walkLevel_eq (hs : t.Sound) (hm : t.MethodsTyped) {seen : List TypeId}
    {level : List Reach} (h : ∀ r ∈ level, t.Holds r.ty) (hnodup : (level.map (·.ty)).Nodup) :
    t.walkLevel recv seen level = .ok
      ((t.entered seen level).foldl (t.enter recv) ⟨seen, [], [], []⟩) := by
  rw [walkLevel, foldlM_eq_ok level _ fun l r hr => hs.walkReach_eq hm l r (h r hr),
    foldl_visit seen level _ hnodup fun r _ => Iff.rfl]

/-! ## What a level offers -/

theorem lookup_note (found : Offers) (o : Mark) (key : String) :
    (Mark.note found o).lookup key =
      if key = o.key then some (if (found.lookup key).isSome then none else o.sel)
      else found.lookup key := by
  rw [Mark.note, List.lookup_cons]
  by_cases h : key = o.key
  · subst h
    simp
  · rw [beq_false_of_ne h, if_neg h]

/-- What is noted of one identifier: the only mark's offer, or a collision. -/
theorem lookup_foldl_note (key : String) :
    ∀ (os : List Mark) (found : Offers), (os.foldl Mark.note found).lookup key =
      match found.lookup key, os.filter (·.key = key) with
      | none, [] => none
      | none, [o] => some o.sel
      | some s, [] => some s
      | _, _ => some none
  | [], found => by
    rw [List.foldl_nil, List.filter_nil]
    cases found.lookup key <;> rfl
  | o :: os, found => by
    rw [List.foldl_cons, lookup_foldl_note key os, lookup_note, List.filter_cons]
    by_cases h : key = o.key
    · rw [if_pos h, if_pos (decide_eq_true h.symm)]
      generalize os.filter (·.key = key) = same
      rcases found.lookup key with _ | s <;> rcases same with _ | ⟨a, _ | _⟩ <;> rfl
    · rw [if_neg h, if_neg (by simpa using Ne.symm h)]

/-- A field hides the methods of its identifier. -/
theorem lookup_hide (fields : List String) (key : String) (found : Offers) :
    (found.map fun (k, s) => (k, if k ∈ fields then none else s)).lookup key =
      (found.lookup key).map fun s => if key ∈ fields then none else s := by
  induction found with
  | nil => rfl
  | cons e rest ih =>
    obtain ⟨k, s⟩ := e
    rw [List.map_cons, List.lookup_cons, List.lookup_cons, ih]
    by_cases h : key = k
    · subst h
      simp
    · rw [beq_false_of_ne h]

/-- A field counts as a collision, also where it is alone. -/
theorem lookup_fields (fields : List String) (key : String) :
    (fields.map (·, (none : Option Selection))).lookup key =
      if key ∈ fields then some none else none := by
  induction fields with
  | nil => rfl
  | cons k rest ih =>
    rw [List.map_cons, List.lookup_cons, ih]
    by_cases h : key = k
    · subst h
      simp
    · rw [beq_false_of_ne h]
      simp [h]

/-- What a level offers under an identifier. -/
theorem lookup_offers (l : Level) (os : List Mark) (hfound : l.found = os.foldl Mark.note [])
    (key : String) :
    l.offers.lookup key =
      match os.filter (·.key = key) with
      | [] => if key ∈ l.fields then some none else none
      | [o] => some (if key ∈ l.fields then none else o.sel)
      | _ => some none := by
  rw [Level.offers, List.lookup_append, lookup_hide, lookup_fields, hfound, lookup_foldl_note]
  generalize os.filter (·.key = key) = same
  rcases same with _ | ⟨o, _ | _⟩ <;> by_cases hk : key ∈ l.fields <;> simp [hk]

end TypeTable

end MethodSSA
