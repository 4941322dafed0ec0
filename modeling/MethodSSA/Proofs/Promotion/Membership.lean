import MethodSSA.Proofs.KeyOrder
import MethodSSA.Proofs.Promotion.Covering

/-!
# The walk finds the method set

The walk goes down level by level, each covering the paths of its length (`Covers`), and
the offers it gathers say what the levels above it know (`Knows`): whether an identifier
occurs there, and what is promoted from there. It comes to an end, for on the way down
either a new declared type is walked or the types get older (`Fits`). At the end every
occurrence is known, so that **the method set holds what is promoted**, sorted by
identifier.
-/

namespace MethodSSA

namespace TypeTable

variable {t : TypeTable} {recv base : TypeId} {isPtr : Bool} {k : Nat} {seen : List TypeId}
  {level : List Reach} {above : Offers} {key : String} {sel : Selection}

/-- What is promoted to a receiver type from `base`, the type itself or what it points
to. -/
inductive Chosen (t : TypeTable) (recv base : TypeId) (isPtr : Bool) (key : String) :
    Selection → Prop
  | intro {b : TypeId} {ptr indirect : Bool} {path : List Nat} {x : Feature} {m : FuncId}
    {place : Nat} (hx : t.Shallowest base key path x) (hb : t.Leads base path b ptr)
    (hcall : t.Callable (isPtr || ptr) x m place indirect) :
    Chosen t recv base isPtr key ⟨recv, m, path ++ [place], indirect⟩

theorem promotes_iff :
    t.Promotes recv key sel ↔ ∃ base isPtr, t.stripPointer recv = .ok (base, isPtr) ∧
      (isPtr = true → t.isInterface base = .ok false) ∧ t.Chosen recv base isPtr key sel := by
  constructor
  · rintro ⟨hbase, hiface, hx, hb, hcall⟩
    exact ⟨_, _, hbase, hiface, .intro hx hb hcall⟩
  · rintro ⟨base, isPtr, hbase, hiface, ⟨hx, hb, hcall⟩⟩
    exact .intro hbase hiface hx hb hcall

/-- A chosen method lies where its identifier occurs first. -/
theorem Chosen.depth_le (h : t.Chosen recv base isPtr key sel) {path : List Nat} {x : Feature}
    (hx : t.Occurs base key path x) : sel.fieldPath.length ≤ path.length := by
  obtain ⟨hs, -, -⟩ := h
  rw [Selection.fieldPath, List.dropLast_concat]
  exact hs.least hx

theorem Chosen.exists_occurs (h : t.Chosen recv base isPtr key sel) :
    ∃ x, t.Occurs base key sel.fieldPath x := by
  obtain ⟨hs, -, -⟩ := h
  rw [Selection.fieldPath, List.dropLast_concat]
  exact ⟨_, hs.occurs⟩

/-- The identifier of a chosen method. -/
theorem Chosen.idOf_method (h : t.Chosen recv base isPtr key sel) : t.idOf sel.method = key := by
  obtain ⟨hs, -, hcall⟩ := h
  obtain ⟨b, ptr, -, hhas⟩ := hs.occurs
  cases hcall with
  | method =>
    cases hhas with
    | method hms hm hf hkey =>
      rw [idOf_eq hf, hkey]
  | abstract =>
    cases hhas with
    | abstract hms hm hf hkey =>
      rw [idOf_eq hf, hkey]

/-! ## What a level offers -/

/-- Nothing has the identifier on the levels above level `k`. -/
def Fresh (t : TypeTable) (base : TypeId) (k : Nat) (key : String) : Prop :=
  ∀ path x, t.Occurs base key path x → k ≤ path.length

/-- The marks of a level. -/
def levelMarks (t : TypeTable) (recv : TypeId) (seen : List TypeId) (level : List Reach) :
    List Mark :=
  (t.entered seen level).flatMap (t.marks recv)

/-- The identifiers of the fields of a level. -/
def levelFields (t : TypeTable) (seen : List TypeId) (level : List Reach) : List String :=
  ((t.entered seen level).flatMap fun r => (t.fieldsOf r.ty).map Field.id).reverse

namespace Covers

variable (c : t.Covers base isPtr k seen level)
include c

/-- A marked method is an occurrence on its level. -/
theorem occurs_of_mark (hs : t.Sound) (hbase : t.Holds base) {o : Mark}
    (ho : o ∈ t.levelMarks recv seen level) :
    t.Occurs base o.key o.path o.feature ∧ o.path.length = k := by
  obtain ⟨r, hr, ho⟩ := List.mem_flatMap.mp ho
  have hmem := List.mem_of_mem_filter hr
  obtain ⟨hhas, hpath⟩ := has_of_mem_marks hs (c.holds hs hbase hmem) ho
  obtain ⟨hlen, ptr, hlead, -⟩ := c.leads r hmem
  rw [hpath]
  exact ⟨⟨r.ty, ptr, hlead, hhas⟩, hlen⟩

/-- A field of a level is an occurrence on the level. -/
theorem occurs_of_field (hs : t.Sound) (hbase : t.Holds base)
    (h : key ∈ t.levelFields seen level) :
    ∃ path place, t.Occurs base key path (.field place) ∧ path.length = k := by
  obtain ⟨r, hr, hkey⟩ := List.mem_flatMap.mp (List.mem_reverse.mp h)
  have hmem := List.mem_of_mem_filter hr
  obtain ⟨place, hhas⟩ := (mem_fieldIds_iff hs (c.holds hs hbase hmem)).mp hkey
  obtain ⟨hlen, ptr, hlead, -⟩ := c.leads r hmem
  exact ⟨r.path, place, ⟨r.ty, ptr, hlead, hhas⟩, hlen⟩

/-- The end of the path of a new occurrence is entered. -/
theorem exists_entered (hfresh : t.Fresh base k key) {path : List Nat} {x : Feature}
    (hx : t.Occurs base key path x) (hlen : path.length = k) :
    ∃ r ∈ t.entered seen level, r ∈ level ∧ t.Has r.ty key x ∧
      (r.path = path ∨ r.ambiguous = true) := by
  obtain ⟨b, ptr, hlead, hhas⟩ := hx
  have hnear : ¬ t.Nearer base k b := by
    rintro ⟨short, ptr', hlt, hshort⟩
    exact absurd (hfresh _ _ ⟨b, ptr', hshort, hhas⟩) (Nat.not_le_of_lt hlt)
  obtain ⟨r, hr, rfl, hway⟩ := (c.complete hlead hlen).resolve_right hnear
  exact ⟨r, c.mem_entered hr hnear, hr, hhas, hway⟩

/-- A new occurrence is a field of the level or is marked there. -/
theorem field_or_mark (recv : TypeId) (hs : t.Sound) (hbase : t.Holds base)
    (hfresh : t.Fresh base k key) {path : List Nat} {x : Feature} (hx : t.Occurs base key path x)
    (hlen : path.length = k) :
    key ∈ t.levelFields seen level ∨
      ∃ o ∈ t.levelMarks recv seen level, o.key = key ∧ o.feature = x ∧
        ∃ r ∈ level, o ∈ t.marks recv r ∧ o.path = r.path ∧
          (r.path = path ∨ r.ambiguous = true) := by
  obtain ⟨r, hr, hmem, hhas, hway⟩ := c.exists_entered hfresh hx hlen
  have hheld := c.holds hs hbase hmem
  rcases exists_mem_marks recv hhas with ⟨place, rfl⟩ | ⟨o, ho, rfl, hkey⟩
  · refine .inl (List.mem_reverse.mpr (List.mem_flatMap.mpr ⟨r, hr, ?_⟩))
    exact (mem_fieldIds_iff hs hheld).mpr ⟨place, hhas⟩
  · exact .inr ⟨o, List.mem_flatMap.mpr ⟨r, hr, ho⟩, hkey, rfl, r, hmem, ho,
      (has_of_mem_marks hs hheld ho).2, hway⟩

/-- No two marks of a level stand for one occurrence. -/
theorem nodup_levelMarks (recv : TypeId) (hs : t.Sound) (hbase : t.Holds base) :
    (t.levelMarks recv seen level).Pairwise fun o o' => (o.path, o.feature) ≠ (o'.path, o'.feature)
      := by
  rw [levelMarks, List.pairwise_flatMap]
  constructor
  · intro r _
    have h := nodup_marks t recv r
    rw [List.Nodup, List.pairwise_map] at h
    exact h.imp fun hne heq => hne (Prod.mk.inj heq).2
  · have hnodup : (t.entered seen level).Nodup := (List.Nodup.of_map _ c.distinct).filter _
    refine hnodup.imp_of_mem ?_
    intro r r' hr hr' hne o ho o' ho' heq
    have hmem := List.mem_of_mem_filter hr
    have hmem' := List.mem_of_mem_filter hr'
    have hpath := (has_of_mem_marks hs (c.holds hs hbase hmem) ho).2
    have hpath' := (has_of_mem_marks hs (c.holds hs hbase hmem') ho').2
    exact hne (c.path_injective hmem hmem' (hpath ▸ hpath' ▸ (Prod.mk.inj heq).1))

/-- An identifier that is new on a level is marked once there if it occurs once. -/
theorem filter_marks_eq (hs : t.Sound) (hbase : t.Holds base) {path : List Nat} {x : Feature}
    (hx : t.Shallowest base key path x) (hlen : path.length = k) {o : Mark}
    (ho : o ∈ t.levelMarks recv seen level) (hkey : o.key = key) :
    (t.levelMarks recv seen level).filter (·.key = key) = [o] := by
  have hall : ∀ o' ∈ (t.levelMarks recv seen level).filter (·.key = key),
      (o'.path, o'.feature) = (path, x) := by
    intro o' ho'
    rw [List.mem_filter, decide_eq_true_eq] at ho'
    obtain ⟨hocc, hlen'⟩ := c.occurs_of_mark hs hbase ho'.1
    rw [ho'.2] at hocc
    obtain ⟨hpath, hfeature⟩ := hx.only hocc (hlen'.trans hlen.symm)
    rw [hpath, hfeature]
  have hpair := (c.nodup_levelMarks recv hs hbase).filter (·.key = key)
  have hmem : o ∈ (t.levelMarks recv seen level).filter (·.key = key) :=
    List.mem_filter.mpr ⟨ho, decide_eq_true hkey⟩
  generalize (t.levelMarks recv seen level).filter (·.key = key) = same at hall hpair hmem
  rcases same with _ | ⟨a, _ | ⟨b, rest⟩⟩
  · exact absurd hmem List.not_mem_nil
  · rw [List.mem_singleton.mp hmem]
  · have hne := (List.pairwise_cons.mp hpair).1 b (List.mem_cons_self ..)
    rw [hall a (List.mem_cons_self ..), hall b (by simp)] at hne
    exact absurd rfl hne

end Covers

/-- The level that the walk makes of the reaches of a level. -/
def walked (t : TypeTable) (recv : TypeId) (seen : List TypeId) (level : List Reach) : Level :=
  (t.entered seen level).foldl (t.enter recv) ⟨seen, [], [], []⟩

theorem walked_eq : t.walked recv seen level =
    { seen :=
        (((t.entered seen level).filter fun r => t.isDeclared r.ty).map (·.ty)).reverse ++ seen
      found := (t.levelMarks recv seen level).foldl Mark.note []
      fields := t.levelFields seen level
      next := (t.entered seen level).flatMap t.children } := by
  rw [walked, foldl_enter, List.append_nil, List.nil_append]
  rfl

namespace Covers

variable (c : t.Covers base isPtr k seen level)
include c

/-- A level offers nothing under an identifier that does not occur on it. -/
theorem lookup_offers_eq_none_iff (hs : t.Sound) (hbase : t.Holds base)
    (hfresh : t.Fresh base k key) :
    (t.walked recv seen level).offers.lookup key = none ↔ t.Fresh base (k + 1) key := by
  have hlookup := lookup_offers (t.walked recv seen level) (t.levelMarks recv seen level)
    (by rw [walked_eq]) key
  have hfields : (t.walked recv seen level).fields = t.levelFields seen level := by rw [walked_eq]
  rw [hfields] at hlookup
  rw [hlookup]
  constructor
  · -- an occurrence on the level would be a field or a mark, and either is offered
    intro h path x hx
    refine Nat.lt_of_le_of_ne (hfresh path x hx) fun hlen => ?_
    rcases c.field_or_mark recv hs hbase hfresh hx hlen.symm with hmem | ⟨o, ho, hkey, -⟩
    · generalize (t.levelMarks recv seen level).filter (·.key = key) = same at h
      rcases same with _ | ⟨a, _ | _⟩ <;> simp [hmem] at h
    · have hmem : o ∈ (t.levelMarks recv seen level).filter (·.key = key) :=
        List.mem_filter.mpr ⟨ho, decide_eq_true hkey⟩
      generalize (t.levelMarks recv seen level).filter (·.key = key) = same at h hmem
      rcases same with _ | ⟨a, _ | _⟩
      · exact absurd hmem List.not_mem_nil
      · cases h
      · cases h
  · intro h
    have hnone : (t.levelMarks recv seen level).filter (·.key = key) = [] := by
      rw [List.filter_eq_nil_iff]
      intro o ho hkey
      obtain ⟨hocc, hlen⟩ := c.occurs_of_mark hs hbase ho
      rw [of_decide_eq_true hkey] at hocc
      exact absurd (h _ _ hocc) (by omega)
    have hnot : key ∉ t.levelFields seen level := by
      intro hmem
      obtain ⟨path, place, hocc, hlen⟩ := c.occurs_of_field hs hbase hmem
      exact absurd (h _ _ hocc) (by omega)
    rw [hnone]
    exact if_neg hnot

/-- A level offers what is chosen on it. -/
theorem lookup_offers_of_chosen (hs : t.Sound) (hm : t.MethodsTyped) (hbase : t.Holds base)
    (hfresh : t.Fresh base k key) (h : t.Chosen recv base isPtr key sel)
    (hlen : sel.fieldPath.length = k) :
    (t.walked recv seen level).offers.lookup key = some (some sel) := by
  rw [lookup_offers (t.walked recv seen level) (t.levelMarks recv seen level) (by rw [walked_eq])]
  obtain ⟨hx, hb, hcall⟩ := h
  rw [Selection.fieldPath, List.dropLast_concat] at hlen
  have hnot : key ∉ t.levelFields seen level := by
    intro hmem
    obtain ⟨path', place', hocc, hlen'⟩ := c.occurs_of_field hs hbase hmem
    obtain ⟨-, rfl⟩ := hx.only hocc (hlen'.trans hlen.symm)
    cases hcall
  obtain ⟨o, ho, hkey, rfl, r, hr, hmark, hpath, hway⟩ :=
    (c.field_or_mark recv hs hbase hfresh hx.occurs hlen).resolve_left hnot
  have hheld := c.holds hs hbase hr
  obtain ⟨hlenr, ptr', hleadr, hind⟩ := c.leads r hr
  have hhas : t.Has r.ty key o.feature := hkey ▸ (has_of_mem_marks hs hheld hmark).1
  -- another path to the type would make for another occurrence
  have hamb : r.ambiguous = false := by
    rcases ha : r.ambiguous with _ | _
    · rfl
    · obtain ⟨path', q, hne, hlen', hlead'⟩ := c.twice r hr ha
      have h₁ := (hx.only ⟨r.ty, q, hlead', hhas⟩ (hlen'.trans hlen.symm)).1
      have h₂ := (hx.only ⟨r.ty, ptr', hleadr, hhas⟩ (hlenr.trans hlen.symm)).1
      exact absurd (h₁.trans h₂.symm) hne
  obtain rfl := hway.resolve_right (by rw [hamb]; exact Bool.false_ne_true)
  obtain ⟨rfl, rfl⟩ := hb.unique hleadr
  have hsel := (sel_of_mem_marks hs hm hheld hmark).mpr ⟨hamb, _, _, _, hind ▸ hcall, rfl⟩
  have hfields : (t.walked recv seen level).fields = t.levelFields seen level := by rw [walked_eq]
  rw [c.filter_marks_eq hs hbase hx hlen ho hkey, hfields]
  change some (if key ∈ t.levelFields seen level then none else o.sel) = _
  rw [if_neg hnot, hsel]

/-- What a level offers is chosen on it. -/
theorem chosen_of_lookup_offers (hs : t.Sound) (hm : t.MethodsTyped) (hbase : t.Holds base)
    (hfresh : t.Fresh base k key)
    (h : (t.walked recv seen level).offers.lookup key = some (some sel)) :
    t.Chosen recv base isPtr key sel ∧ sel.fieldPath.length = k := by
  rw [lookup_offers (t.walked recv seen level) (t.levelMarks recv seen level)
    (by rw [walked_eq])] at h
  have hfields : (t.walked recv seen level).fields = t.levelFields seen level := by rw [walked_eq]
  rw [hfields] at h
  obtain ⟨o, hsame, hnot, hsel⟩ : ∃ o, (t.levelMarks recv seen level).filter (·.key = key) = [o] ∧
      key ∉ t.levelFields seen level ∧ o.sel = some sel := by
    generalize (t.levelMarks recv seen level).filter (·.key = key) = same at h
    rcases same with _ | ⟨o, _ | _⟩
    · by_cases hk : key ∈ t.levelFields seen level <;> simp [hk] at h
    · by_cases hk : key ∈ t.levelFields seen level
      · simp [hk] at h
      · exact ⟨o, rfl, hk, by simpa [hk] using h⟩
    · simp at h
  have hmem : o ∈ (t.levelMarks recv seen level).filter (·.key = key) :=
    hsame ▸ List.mem_singleton_self o
  rw [List.mem_filter, decide_eq_true_eq] at hmem
  obtain ⟨ho, rfl⟩ := hmem
  obtain ⟨hocc, hlen⟩ := c.occurs_of_mark hs hbase ho
  obtain ⟨r, hr, hmark⟩ := List.mem_flatMap.mp ho
  have hr := List.mem_of_mem_filter hr
  have hheld := c.holds hs hbase hr
  obtain ⟨hlenr, ptr, hlead, hind⟩ := c.leads r hr
  obtain ⟨hhas, hpath⟩ := has_of_mem_marks hs hheld hmark
  obtain ⟨hamb, m, place, indirect, hcall, rfl⟩ := (sel_of_mem_marks hs hm hheld hmark).mp hsel
  have hshallow : t.Shallowest base o.key r.path o.feature := by
    refine ⟨hpath ▸ hocc, fun hx => hlenr ▸ hfresh _ _ hx, fun {path' x'} hx hlen' => ?_⟩
    obtain ⟨o', ho', hkey', rfl, r', hr', -, hpath', hway⟩ := (c.field_or_mark recv
      hs hbase hfresh hx (hlen'.trans hlenr)).resolve_left hnot
    -- the mark of the other occurrence is the same one
    have hmem' : o' ∈ (t.levelMarks recv seen level).filter (·.key = o.key) :=
      List.mem_filter.mpr ⟨ho', decide_eq_true hkey'⟩
    rw [hsame] at hmem'
    obtain rfl := List.mem_singleton.mp hmem'
    obtain rfl := c.path_injective hr' hr (hpath'.symm.trans hpath)
    refine ⟨(hway.resolve_right ?_).symm, rfl⟩
    rw [hamb]
    exact Bool.false_ne_true
  refine ⟨.intro hshallow hlead (hind ▸ hcall), ?_⟩
  rw [Selection.fieldPath, List.dropLast_concat, hlenr]

end Covers

/-! ## What is known of the levels above -/

/-- What the offers of the levels above level `k` say: which identifiers occur there, and
what is chosen there. -/
structure Knows (t : TypeTable) (recv base : TypeId) (isPtr : Bool) (k : Nat) (above : Offers) :
    Prop where
  none_iff : ∀ key, above.lookup key = none ↔ t.Fresh base k key
  some_iff : ∀ key sel, above.lookup key = some (some sel) ↔
    t.Chosen recv base isPtr key sel ∧ sel.fieldPath.length < k

theorem knows_start : t.Knows recv base isPtr 0 [] where
  none_iff _ := ⟨fun _ _ _ _ => Nat.zero_le _, fun _ => rfl⟩
  some_iff _ _ := by
    constructor
    · rintro ⟨⟩
    · rintro ⟨-, hlt⟩
      exact absurd hlt (Nat.not_lt_zero _)

/-- **The offers of a level complete what is known of those above.** -/
theorem Knows.next (n : t.Knows recv base isPtr k above) (hs : t.Sound) (hm : t.MethodsTyped)
    (hbase : t.Holds base) (c : t.Covers base isPtr k seen level) :
    t.Knows recv base isPtr (k + 1) (above ++ (t.walked recv seen level).offers) where
  none_iff key := by
    rw [List.lookup_append, Option.or_eq_none_iff, n.none_iff]
    constructor
    · rintro ⟨hfresh, hnone⟩
      exact (c.lookup_offers_eq_none_iff hs hbase hfresh).mp hnone
    · intro h
      have hfresh : t.Fresh base k key := fun path x hx => Nat.le_of_succ_le (h path x hx)
      exact ⟨hfresh, (c.lookup_offers_eq_none_iff hs hbase hfresh).mpr h⟩
  some_iff key sel := by
    rw [List.lookup_append]
    rcases ha : above.lookup key with _ | s
    · -- the identifier is new, and the level decides
      have hfresh := (n.none_iff key).mp ha
      rw [Option.none_or]
      constructor
      · intro h
        obtain ⟨hsel, hlen⟩ := c.chosen_of_lookup_offers hs hm hbase hfresh h
        exact ⟨hsel, hlen ▸ Nat.lt_succ_self _⟩
      · rintro ⟨hsel, hlt⟩
        obtain ⟨x, hx⟩ := hsel.exists_occurs
        have hge := hfresh _ x hx
        exact c.lookup_offers_of_chosen hs hm hbase hfresh hsel (by omega)
    · -- the identifier occurs above, even if as a collision only, and shadows the level
      have hseen : ∃ path x, t.Occurs base key path x ∧ path.length < k := by
        have hne : ¬ t.Fresh base k key := fun hfresh => by
          rw [(n.none_iff key).mpr hfresh] at ha
          cases ha
        simpa [Fresh] using hne
      rw [Option.some_or, ← ha, n.some_iff]
      refine and_congr_right fun hsel => ⟨Nat.lt_succ_of_lt, fun _ => ?_⟩
      obtain ⟨path, x, hx, hlt⟩ := hseen
      exact Nat.lt_of_le_of_lt (hsel.depth_le hx) hlt

/-- Where no level is left everything is known. -/
theorem Knows.done (n : t.Knows recv base isPtr k above) (c : t.Covers base isPtr k seen [])
    (key : String) (sel : Selection) :
    above.lookup key = some (some sel) ↔ t.Chosen recv base isPtr key sel := by
  rw [n.some_iff]
  refine and_iff_left_of_imp fun hsel => ?_
  obtain ⟨x, b, ptr, hlead, hhas⟩ := hsel.exists_occurs
  obtain ⟨short, ptr', hlt, hshort⟩ := c.nearer_of_nil rfl hlead
  exact Nat.lt_of_le_of_lt (hsel.depth_le ⟨b, ptr', hshort, hhas⟩) hlt

/-! ## The walk ends -/

/-- A bound on the levels still to be walked. Each level walks a new declared type or
goes on to types that are older. -/
structure Fits (t : TypeTable) (depth : Nat) (seen : List TypeId) (level : List Reach) : Prop where
  nodup : seen.Nodup
  declared : ∀ ty ∈ seen, t.isDeclared ty = true
  bound : ∀ r ∈ level,
    (t.decls.length - seen.length) * (t.types.length + 1) + r.ty.index < depth

/-- There are no more declared types than declarations. -/
theorem Sound.length_declared_le (hs : t.Sound) {tys : List TypeId} (hnodup : tys.Nodup)
    (h : ∀ ty ∈ tys, t.isDeclared ty = true) : tys.length ≤ t.decls.length := by
  have hname : ∀ ty ∈ tys, ∃ n, t.types[ty.index]? = some (.named n) := by
    intro ty hty
    have hd := h ty hty
    rcases hget : t.get ty with e | a
    · rw [isDeclared, hget] at hd
      cases hd
    · rw [isDeclared_eq hget] at hd
      cases a <;> first | exact ⟨_, get_eq_ok_iff.mp hget⟩ | cases hd
  -- the numbers of their declarations are all different
  let number : TypeId → Nat := fun ty => ((t.declNumber ty).toOption).getD 0
  have hnumber : ∀ {ty n}, t.types[ty.index]? = some (.named n) → number ty = n.decl := by
    intro ty n hn
    change ((t.declNumber ty).toOption).getD 0 = n.decl
    rw [declNumber, get_eq_ok_iff.mpr hn]
    rfl
  have hmap : (tys.map number).Nodup := by
    refine hnodup.map_on fun a ha b hb heq => ?_
    obtain ⟨n, hn⟩ := hname a ha
    obtain ⟨n', hn'⟩ := hname b hb
    rw [hnumber hn, hnumber hn'] at heq
    have hindex := hs.distinct hn hn' heq
    cases a
    cases b
    exact congrArg TypeId.mk hindex
  have hsub : tys.map number ⊆ List.range t.decls.length := by
    intro i hi
    obtain ⟨ty, hty, rfl⟩ := List.mem_map.mp hi
    obtain ⟨n, hn⟩ := hname ty hty
    rw [hnumber hn, List.mem_range]
    exact hs.declared hn
  have hle := hmap.length_le_of_subset hsub
  rwa [List.length_map, List.length_range] at hle

/-- What an undeclared type embeds is older. -/
theorem Sound.index_lt_of_embeds (hs : t.Sound) {a b : TypeId} {i : Nat} {p : Bool}
    (h : t.Embeds a i b p) (ha : t.isDeclared a = false) : b.index < a.index := by
  obtain ⟨hu, hf, -, hb⟩ := h
  obtain ⟨u, hu', hget⟩ := bind_eq_ok_iff.mp hu
  obtain ⟨ty, hty, -⟩ := bind_eq_ok_iff.mp hu'
  rw [isDeclared_eq hty] at ha
  cases hu'.symm.trans (underlying_plain hty ha)
  have hlt := (hs.holds_field hget (List.mem_of_getElem? hf)).2
  exact Nat.lt_of_le_of_lt (hs.holds_stripPointer hb).2 hlt

/-- The declared types that were seen are different ones, also after a level. -/
theorem Fits.seen_next {depth : Nat} (f : t.Fits depth seen level) (recv : TypeId)
    (c : t.Covers base isPtr k seen level) :
    (t.walked recv seen level).seen.Nodup ∧
      ∀ ty ∈ (t.walked recv seen level).seen, t.isDeclared ty = true := by
  have hnew : (((t.entered seen level).filter fun r => t.isDeclared r.ty).map (·.ty)).Nodup :=
    c.distinct.sublist ((List.filter_sublist.trans List.filter_sublist).map _)
  have hdecl : ∀ r ∈ (t.entered seen level).filter fun r => t.isDeclared r.ty,
      t.isDeclared r.ty = true ∧ r.ty ∉ seen := by
    intro r hr
    obtain ⟨hr, hd⟩ := List.mem_filter.mp hr
    have hpass := (List.mem_filter.mp hr).2
    rw [hd] at hpass
    exact ⟨hd, by simpa using hpass⟩
  rw [walked_eq]
  constructor
  · rw [List.nodup_append]
    refine ⟨List.nodup_reverse.mpr hnew, f.nodup, ?_⟩
    rintro ty hty _ hseen rfl
    obtain ⟨r, hr, rfl⟩ := List.mem_map.mp (List.mem_reverse.mp hty)
    exact (hdecl r hr).2 hseen
  · intro ty hty
    rcases List.mem_append.mp hty with hty | hty
    · obtain ⟨r, hr, rfl⟩ := List.mem_map.mp (List.mem_reverse.mp hty)
      exact (hdecl r hr).1
    · exact f.declared ty hty

/-- **The bound falls with every level.** -/
theorem Fits.next (hs : t.Sound) (hbase : t.Holds base) (c : t.Covers base isPtr k seen level)
    {depth : Nat} (f : t.Fits (depth + 1) seen level) :
    t.Fits depth (t.walked recv seen level).seen
      (mergeReaches (t.walked recv seen level).next) := by
  obtain ⟨hnodup, hdeclared⟩ := f.seen_next recv c
  refine ⟨hnodup, hdeclared, fun r' hr' => ?_⟩
  have hle := hs.length_declared_le hnodup hdeclared
  rw [walked_eq] at hr' hle ⊢
  simp only [List.length_append, List.length_reverse, List.length_map] at hle ⊢
  obtain ⟨r₀, hr₀, hty, -⟩ := (merged_mergeReaches c.nodup_next).source r' hr'
  rw [← hty]
  obtain ⟨r, hr, hchild⟩ := List.mem_flatMap.mp hr₀
  have hmem := List.mem_of_mem_filter hr
  obtain ⟨i, b, p, he, rfl⟩ := (mem_children_iff hs (c.holds hs hbase hmem)).mp hchild
  have hbound := f.bound r hmem
  have hheld : b.index < t.types.length := hs.holds_embeds he
  change _ + b.index < depth
  rcases hd : t.isDeclared r.ty with _ | _
  · -- the way goes on to an older type
    have hlt := hs.index_lt_of_embeds he hd
    have hmul := Nat.mul_le_mul_right (t.types.length + 1) (Nat.sub_le_sub_left (Nat.le_add_left
      seen.length ((t.entered seen level).filter fun r => t.isDeclared r.ty).length)
      t.decls.length)
    omega
  · -- a new declared type was walked, which outweighs any place in the table
    have hpos : 0 < ((t.entered seen level).filter fun r => t.isDeclared r.ty).length :=
      List.length_pos_of_mem (List.mem_filter.mpr ⟨hr, hd⟩)
    have hmul := Nat.mul_le_mul_right (t.types.length + 1) (show t.decls.length -
      (((t.entered seen level).filter fun r => t.isDeclared r.ty).length + seen.length) + 1 ≤
        t.decls.length - seen.length by omega)
    rw [Nat.succ_mul] at hmul
    omega

/-! ## The whole walk -/

section Walked

variable (c : t.Covers base isPtr k seen level) (hs : t.Sound) (hbase : t.Holds base)
include c hs hbase

/-- No level of the walk is a fault. -/
theorem Covers.walkLevel_eq (recv : TypeId) (hm : t.MethodsTyped) :
    t.walkLevel recv seen level = .ok (t.walked recv seen level) :=
  hs.walkLevel_eq hm (fun _ hr => c.holds hs hbase hr) c.distinct

/-- The level that the walk goes on to covers the paths that are longer by one. -/
theorem Covers.walked_next (recv : TypeId) :
    t.Covers base isPtr (k + 1) (t.walked recv seen level).seen
      (mergeReaches (t.walked recv seen level).next) := by
  rw [walked_eq]
  refine c.next hs hbase fun ty hty => ?_
  rcases List.mem_append.mp hty with hty | hty
  · obtain ⟨r, hr, rfl⟩ := List.mem_map.mp (List.mem_reverse.mp hty)
    exact .inr ⟨r, List.mem_of_mem_filter (List.mem_of_mem_filter hr), rfl⟩
  · exact .inl hty

end Walked

/-- **The walk finds what is chosen.** -/
theorem Sound.exists_walk (hs : t.Sound) (recv : TypeId) (hm : t.MethodsTyped)
    (hbase : t.Holds base) :
    ∀ (depth k : Nat) (seen : List TypeId) (level : List Reach) (above : Offers),
      t.Covers base isPtr k seen level → t.Knows recv base isPtr k above →
      t.Fits depth seen level →
      ∃ offers, t.walk recv depth seen level above = .ok offers ∧
        ∀ key sel, offers.lookup key = some (some sel) ↔ t.Chosen recv base isPtr key sel
  | depth, k, seen, [], above, c, n, _ => by
    refine ⟨above, ?_, n.done c⟩
    rw [walk]
    rfl
  | 0, k, seen, r :: level, above, _, _, f =>
    -- a level with a type on it does not fit
    absurd (f.bound r (List.mem_cons_self ..)) (Nat.not_lt_zero _)
  | depth + 1, k, seen, r :: level, above, c, n, f => by
    rw [walk, c.walkLevel_eq hs hbase recv hm]
    exact exists_walk hs recv hm hbase depth (k + 1) _ _ _ (c.walked_next hs hbase recv)
      (n.next hs hm hbase c) (f.next hs hbase c)

/-- The methods of a table of offers. -/
theorem mem_filterMap_keyTable {offers : Offers} :
    sel ∈ (keyTable offers).filterMap (·.2) ↔ ∃ key, offers.lookup key = some (some sel) := by
  rw [List.mem_filterMap]
  constructor
  · rintro ⟨⟨key, s⟩, hmem, rfl⟩
    exact ⟨key, mem_keyTable.mp hmem⟩
  · rintro ⟨key, h⟩
    exact ⟨(key, some sel), mem_keyTable.mpr h, rfl⟩

theorem fits_start (hbase : t.Holds base) :
    t.Fits t.walkDepth [] [⟨base, [], isPtr, false⟩] := by
  refine ⟨List.nodup_nil, fun ty hty => absurd hty List.not_mem_nil, fun r hr => ?_⟩
  rw [List.mem_singleton.mp hr, walkDepth, Nat.succ_mul]
  have hlt : base.index < t.types.length := hbase
  change (t.decls.length - 0) * _ + base.index < _
  rw [Nat.sub_zero]
  omega

/-- A pointer to an interface has no methods, and every other type those that the walk
finds. -/
theorem methodSet_eq (hstrip : t.stripPointer recv = .ok (base, isPtr)) {u : Ty}
    (hu : t.underlyingTy base = .ok u) :
    t.methodSet recv = if isPtr = true ∧ u.methods?.isSome = true then .ok [] else do
      let offers ← t.walk recv t.walkDepth [] [⟨base, [], isPtr, false⟩] []
      return (keyTable offers).filterMap (·.2) := by
  rw [methodSet, hstrip, ok_bind]
  rcases isPtr with _ | _
  · simp
  · rcases hi : u.methods?.isSome with _ | _ <;> simp [isInterface_eq hu, hi]

theorem promotes_iff_chosen (hstrip : t.stripPointer recv = .ok (base, isPtr)) {u : Ty}
    (hu : t.underlyingTy base = .ok u) : t.Promotes recv key sel ↔
      ¬ (isPtr = true ∧ u.methods?.isSome = true) ∧ t.Chosen recv base isPtr key sel := by
  have hiface := isInterface_eq hu
  rw [promotes_iff]
  constructor
  · rintro ⟨base', isPtr', hstrip', hi, hsel⟩
    cases hstrip.symm.trans hstrip'
    refine ⟨fun ⟨hp, hsome⟩ => ?_, hsel⟩
    rw [hi hp, hsome] at hiface
    cases hiface
  · rintro ⟨hi, hsel⟩
    refine ⟨base, isPtr, hstrip, fun hp => hiface.trans ?_, hsel⟩
    rw [Bool.eq_false_iff.mpr fun hsome => hi ⟨hp, hsome⟩]

/-- **The method set of a type holds what is promoted to it**, in the order of
identifiers, and is always found. -/
theorem Sound.exists_methodSet (hs : t.Sound) (hm : t.MethodsTyped) (hrecv : t.Holds recv) :
    ∃ sels, t.methodSet recv = .ok sels ∧
      sels.Pairwise (fun a b => t.idOf a.method < t.idOf b.method) ∧
      ∀ sel, sel ∈ sels ↔ ∃ key, t.Promotes recv key sel := by
  obtain ⟨base, isPtr, hstrip, hbase, -⟩ := hs.exists_stripPointer hrecv
  obtain ⟨u, hu⟩ := hs.exists_underlyingTy hbase
  rw [methodSet_eq hstrip hu]
  by_cases hptr : isPtr = true ∧ u.methods?.isSome = true
  · -- a pointer to an interface: nothing is promoted
    rw [if_pos hptr]
    refine ⟨[], rfl, List.Pairwise.nil, fun sel => ⟨fun h => absurd h List.not_mem_nil, ?_⟩⟩
    rintro ⟨key, h⟩
    exact absurd hptr ((promotes_iff_chosen hstrip hu).mp h).1
  · obtain ⟨offers, hwalk, hoffers⟩ := hs.exists_walk recv hm hbase t.walkDepth 0 [] _ []
      covers_start knows_start (fits_start hbase)
    rw [if_neg hptr, hwalk]
    refine ⟨(keyTable offers).filterMap (·.2), rfl, ?_, fun sel => ?_⟩
    · rw [List.pairwise_filterMap]
      refine (increasing_keyTable offers).imp_of_mem ?_
      rintro ⟨key, s⟩ ⟨key', s'⟩ hmem hmem' hlt a rfl b rfl
      have ha := (hoffers key a).mp (mem_keyTable.mp hmem)
      have hb := (hoffers key' b).mp (mem_keyTable.mp hmem')
      rw [ha.idOf_method, hb.idOf_method]
      exact hlt
    · rw [mem_filterMap_keyTable]
      refine exists_congr fun key => ?_
      rw [hoffers, promotes_iff_chosen hstrip hu, and_iff_right hptr]

theorem Promotes.idOf_method (h : t.Promotes recv key sel) : t.idOf sel.method = key := by
  obtain ⟨base, isPtr, -, -, hsel⟩ := promotes_iff.mp h
  exact hsel.idOf_method

/-- **The method set of a type is found, and it is what the rule of the shallowest
occurrence promotes**: a selection stands in it under an identifier if and only if it is
promoted under the identifier, once, and in the order of identifiers. -/
theorem methodSet_iff_promotes (h : t.Built) (hm : t.MethodsTyped) (hrecv : t.Holds recv) :
    ∃ sels, t.methodSet recv = .ok sels ∧
      (∀ key sel, sel ∈ sels ∧ t.idOf sel.method = key ↔ t.Promotes recv key sel) ∧
      sels.Pairwise fun a b => t.idOf a.method < t.idOf b.method := by
  obtain ⟨sels, hsels, hsorted, hmem⟩ := h.sound.exists_methodSet hm hrecv
  refine ⟨sels, hsels, fun key sel => ?_, hsorted⟩
  rw [hmem]
  constructor
  · rintro ⟨⟨key', hsel⟩, rfl⟩
    rw [hsel.idOf_method]
    exact hsel
  · intro hsel
    exact ⟨⟨key, hsel⟩, hsel.idOf_method⟩

/-- A pointer to a type that embeds a pointer to itself. -/
theorem methodSet_iff_promotes_node :
    nodeTable.Built ∧ nodeTable.MethodsTyped ∧ nodeTable.Holds ⟨31⟩ ∧
      ∃ sels, nodeTable.methodSet ⟨31⟩ = .ok sels ∧
        (∀ key sel, sel ∈ sels ∧ nodeTable.idOf sel.method = key ↔
          nodeTable.Promotes ⟨31⟩ key sel) ∧
        sels.Pairwise fun a b => nodeTable.idOf a.method < nodeTable.idOf b.method :=
  ⟨nodeTable_built, nodeTable_methodsTyped, by decide,
    methodSet_iff_promotes nodeTable_built nodeTable_methodsTyped (by decide)⟩

-- through a node one gets to a leaf, by pointer if the node is one
example : nodeTable.methodSet ⟨30⟩ = .ok [⟨⟨30⟩, ⟨0⟩, [1, 0], false⟩] := by cbv

example : nodeTable.methodSet ⟨31⟩ =
    .ok [⟨⟨31⟩, ⟨0⟩, [1, 0], true⟩, ⟨⟨31⟩, ⟨1⟩, [1, 1], true⟩] := by cbv

end TypeTable

end MethodSSA
