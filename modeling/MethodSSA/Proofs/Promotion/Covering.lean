import Mathlib.Data.List.Nodup
import MethodSSA.Proofs.Promotion.Level

/-!
# What the levels of the walk cover

The walk follows some paths only: it passes over declared types that it walked before,
and it walks a type that one level reaches twice once. `Covers` says that nothing is
lost by that: a path of the length of the level ends in a type of the level, as its only
path or as one of several, or its end is reached by a shorter path as well. One level
leads to the next (`Covers.next`), by the pairs of a path and its last step.
-/

namespace MethodSSA

/-- Only structs have fields. -/
theorem Ty.eq_struct_of_field {u : Ty} {f : Field} (h : f ∈ u.fields?.getD []) :
    u = .struct (u.fields?.getD []) := by
  cases u <;> first | rfl | exact absurd h List.not_mem_nil

/-- Only interfaces list methods. -/
theorem Ty.eq_interface_of_listed {u : Ty} {m : FuncId} (h : m ∈ u.listed) :
    u = .interface u.listed := by
  cases u <;> first | rfl | exact absurd h List.not_mem_nil

namespace TypeTable

variable {t : TypeTable} {recv base : TypeId} {isPtr : Bool}

/-! ## Marks and children, as the rule has them -/

theorem mem_children_iff (hs : t.Sound) {r c : Reach} (h : t.Holds r.ty) :
    c ∈ t.children r ↔ ∃ i b p, t.Embeds r.ty i b p ∧
      c = ⟨b, r.path ++ [i], r.indirect || p, r.ambiguous⟩ := by
  obtain ⟨u, hu⟩ := hs.exists_underlyingTy h
  obtain ⟨v, -, hget⟩ := bind_eq_ok_iff.mp hu
  have hstrip : ∀ {f : Field}, f ∈ u.fields?.getD [] →
      t.stripPointer f.ty = .ok (t.stripped f.ty) := by
    intro f hf
    rw [Ty.eq_struct_of_field hf] at hget
    exact hs.stripPointer_eq_stripped (hs.holds_field hget hf).1
  rw [children, fieldsOf_eq hu, List.mem_filterMap]
  constructor
  · rintro ⟨⟨f, i⟩, hf, hc⟩
    rw [List.mem_zipIdx_iff_getElem?] at hf
    have hmem := List.mem_of_getElem? hf
    rcases hemb : f.embedded with _ | _
    · simp [hemb] at hc
    · simp only [hemb, if_true, Option.some.injEq] at hc
      rw [Ty.eq_struct_of_field hmem] at hu
      exact ⟨i, _, _, ⟨hu, hf, hemb, hstrip hmem⟩, hc.symm⟩
  · rintro ⟨i, b, p, ⟨hu', hf, hemb, hb⟩, rfl⟩
    cases hu.symm.trans hu'
    rw [hstrip (List.mem_of_getElem? hf), Except.ok.injEq] at hb
    refine ⟨(_, i), List.mem_zipIdx_iff_getElem?.mpr hf, ?_⟩
    simp [hemb, hb]

theorem mem_fieldIds_iff (hs : t.Sound) {ty : TypeId} {key : String} (h : t.Holds ty) :
    key ∈ (t.fieldsOf ty).map Field.id ↔ ∃ place, t.Has ty key (.field place) := by
  obtain ⟨u, hu⟩ := hs.exists_underlyingTy h
  rw [fieldsOf_eq hu, List.mem_map]
  constructor
  · rintro ⟨f, hf, hkey⟩
    rw [Ty.eq_struct_of_field hf] at hu
    obtain ⟨i, hi⟩ := List.mem_iff_getElem?.mp hf
    exact ⟨i, .field hu hi hkey⟩
  · rintro ⟨place, hhas⟩
    cases hhas with
    | field hfs hf hkey =>
      cases hu.symm.trans hfs
      exact ⟨_, List.mem_of_getElem? hf, hkey⟩

/-- A mark stands for a method that the type has, at the end of the path to it. -/
theorem has_of_mem_marks (hs : t.Sound) {r : Reach} {o : Mark} (h : t.Holds r.ty)
    (ho : o ∈ t.marks recv r) : t.Has r.ty o.key o.feature ∧ o.path = r.path := by
  obtain ⟨ms, hms, hheld⟩ := hs.exists_declaredMethods h
  obtain ⟨u, hu⟩ := hs.exists_underlyingTy h
  obtain ⟨v, -, hget⟩ := bind_eq_ok_iff.mp hu
  rw [marks, attachedTo_eq hms, listedBy_eq hu] at ho
  rcases List.mem_append.mp ho with ho | ho
  · obtain ⟨⟨m, place⟩, hm, rfl⟩ := List.mem_map.mp ho
    rw [List.mem_zipIdx_iff_getElem?] at hm
    obtain ⟨f, hf, hid⟩ := hs.func_eq (hheld m (List.mem_of_getElem? hm))
    exact ⟨.method hms hm hf hid, rfl⟩
  · obtain ⟨⟨m, place⟩, hm, rfl⟩ := List.mem_map.mp ho
    rw [List.mem_zipIdx_iff_getElem?] at hm
    obtain ⟨f, hf, hid⟩ := hs.func_eq (hs.holdsFunc_listed hget (List.mem_of_getElem? hm))
    rw [Ty.eq_interface_of_listed (List.mem_of_getElem? hm)] at hu
    exact ⟨.abstract hu hm hf hid, rfl⟩

/-- A method that a type has is marked there. -/
theorem exists_mem_marks (recv : TypeId) {r : Reach} {key : String} {x : Feature}
    (hx : t.Has r.ty key x) :
    (∃ place, x = .field place) ∨ ∃ o ∈ t.marks recv r, o.feature = x ∧ o.key = key := by
  cases hx with
  | field => exact .inl ⟨_, rfl⟩
  | @method ms place m f hms hm hf hid =>
    refine .inr ⟨t.mark recv r (.method m place) m place, ?_, rfl, (idOf_eq hf).trans hid⟩
    rw [marks, attachedTo_eq hms]
    refine List.mem_append_left _ (List.mem_map.mpr ⟨(m, place), ?_, rfl⟩)
    exact List.mem_zipIdx_iff_getElem?.mpr hm
  | @abstract ms place m f hms hm hf hid =>
    refine .inr ⟨t.mark recv { r with indirect := true } (.abstract m place) m place, ?_, rfl,
      (idOf_eq hf).trans hid⟩
    rw [marks, listedBy_eq hms]
    refine List.mem_append_right _ (List.mem_map.mpr ⟨(m, place), ?_, rfl⟩)
    exact List.mem_zipIdx_iff_getElem?.mpr hm

/-- A type marks no method twice. -/
theorem nodup_marks (t : TypeTable) (recv : TypeId) (r : Reach) :
    ((t.marks recv r).map Mark.feature).Nodup := by
  have hzip : ∀ ms : List FuncId, ms.zipIdx.Nodup := fun ms =>
    List.Nodup.of_map Prod.snd (by rw [List.zipIdx_map_snd]; exact List.nodup_range')
  rw [marks, List.map_append, List.map_map, List.map_map, List.nodup_append]
  refine ⟨(hzip _).map ?_, (hzip _).map ?_, ?_⟩
  · rintro ⟨_, _⟩ ⟨_, _⟩ ⟨⟩
    rfl
  · rintro ⟨_, _⟩ ⟨_, _⟩ ⟨⟩
    rfl
  · intro a ha b hb
    obtain ⟨⟨m, i⟩, -, rfl⟩ := List.mem_map.mp ha
    obtain ⟨⟨m', i'⟩, -, rfl⟩ := List.mem_map.mp hb
    rintro ⟨⟩

/-- A mark offers a selection if the way is the only one and the method can be called. -/
theorem sel_of_mem_marks (hs : t.Sound) (hm : t.MethodsTyped) {r : Reach} {o : Mark}
    (h : t.Holds r.ty) (ho : o ∈ t.marks recv r) {sel : Selection} :
    o.sel = some sel ↔ r.ambiguous = false ∧ ∃ m place indirect,
      t.Callable r.indirect o.feature m place indirect ∧
        sel = ⟨recv, m, r.path ++ [place], indirect⟩ := by
  obtain ⟨ms, hms, -⟩ := hs.exists_declaredMethods h
  rw [marks, attachedTo_eq hms] at ho
  rcases List.mem_append.mp ho with ho | ho
  · obtain ⟨⟨m, place⟩, hmem, rfl⟩ := List.mem_map.mp ho
    obtain ⟨hheld, hmeth⟩ := hs.isMethod_of_attached hms (List.fst_mem_of_mem_zipIdx hmem)
    have hptr := hs.hasPointerReceiver_eq hm hheld hmeth
    have hcall : (r.indirect = true ∨ t.hasPointerReceiver m = .ok false) ↔
        (!r.indirect && t.byPointer m) = false := by
      rw [hptr, Except.ok.injEq]
      cases r.indirect <;> simp
    simp only [mark]
    constructor
    · intro hsel
      rw [Option.ite_none_left_eq_some, Bool.or_eq_true, not_or, Bool.not_eq_true,
        Bool.not_eq_true, ← hcall] at hsel
      exact ⟨hsel.1.1, m, place, r.indirect, .method hsel.1.2, (Option.some.inj hsel.2).symm⟩
    · rintro ⟨hamb, m', place', indirect, hc, rfl⟩
      cases hc with
      | method hc => rw [hamb, hcall.mp hc]; rfl
  · obtain ⟨⟨m, place⟩, -, rfl⟩ := List.mem_map.mp ho
    simp only [mark]
    constructor
    · intro hsel
      rw [Option.ite_none_left_eq_some, Bool.or_eq_true, not_or, Bool.not_eq_true] at hsel
      exact ⟨hsel.1.1, m, place, true, .abstract, (Option.some.inj hsel.2).symm⟩
    · rintro ⟨hamb, m', place', indirect, hc, rfl⟩
      cases hc with
      | abstract => rw [hamb]; rfl

end TypeTable

/-! ## Merging the ways to one type -/

/-- A level in which every type of a list of reaches stands once: in its place stands
one of its reaches, marked if there are others or if it was marked already. -/
structure Merged (rs level : List Reach) : Prop where
  distinct : (level.map (·.ty)).Nodup
  source : ∀ r ∈ level, ∃ r₀ ∈ rs, r₀.ty = r.ty ∧ r₀.path = r.path ∧ r₀.indirect = r.indirect ∧
    (r.ambiguous = true → r₀.ambiguous = true ∨ ∃ r₁ ∈ rs, r₁.ty = r.ty ∧ r₁.path ≠ r.path)
  target : ∀ r₀ ∈ rs, ∃ r ∈ level, r.ty = r₀.ty ∧ (r.path = r₀.path ∨ r.ambiguous = true) ∧
    (r₀.ambiguous = true → r.ambiguous = true)

theorem merged_nil : Merged [] [] :=
  ⟨List.nodup_nil, fun _ hr => absurd hr List.not_mem_nil, fun _ hr => absurd hr List.not_mem_nil⟩

section Adding

variable {rs level : List Reach} (h : Merged rs level) {r : Reach}
include h

/-- A reach of a type that the level lacks is added at the end. -/
theorem Merged.append (hfresh : ∀ s ∈ level, s.ty ≠ r.ty) : Merged (rs ++ [r]) (level ++ [r]) := by
  have hold : ∀ {r₀}, r₀ ∈ rs → r₀ ∈ rs ++ [r] := fun h => List.mem_append_left _ h
  refine ⟨?_, ?_, ?_⟩
  · rw [List.map_append, List.nodup_append]
    refine ⟨h.distinct, List.nodup_singleton _, ?_⟩
    intro a ha b hb
    obtain ⟨s, hs, rfl⟩ := List.mem_map.mp ha
    rw [List.mem_singleton.mp hb]
    exact hfresh s hs
  · intro s hs
    rcases List.mem_append.mp hs with hs | hs
    · obtain ⟨r₀, hr₀, hty, hpath, hind, hamb⟩ := h.source s hs
      refine ⟨r₀, hold hr₀, hty, hpath, hind, fun ha => ?_⟩
      exact (hamb ha).imp_right fun ⟨r₁, hr₁, h₁⟩ => ⟨r₁, hold hr₁, h₁⟩
    · rw [List.mem_singleton.mp hs]
      exact ⟨r, by simp, rfl, rfl, rfl, .inl⟩
  · intro r₀ hr₀
    rcases List.mem_append.mp hr₀ with hr₀ | hr₀
    · obtain ⟨s, hs, hs'⟩ := h.target r₀ hr₀
      exact ⟨s, List.mem_append_left _ hs, hs'⟩
    · rw [List.mem_singleton.mp hr₀]
      exact ⟨r, by simp, rfl, .inl rfl, id⟩

/-- A reach of a type that stands there marks that one, as another way to the type. -/
theorem Merged.mark (hr : ∀ r₀ ∈ rs, r₀.path ≠ r.path) (hold : ∃ s ∈ level, s.ty = r.ty) :
    Merged (rs ++ [r])
      (level.map fun s => if s.ty == r.ty then { s with ambiguous := true } else s) := by
  have hty : ∀ s : Reach,
      (if s.ty == r.ty then { s with ambiguous := true } else s).ty = s.ty := by
    intro s
    split <;> rfl
  refine ⟨?_, ?_, ?_⟩
  · rw [List.map_map]
    have hcomp : (fun s : Reach => s.ty) ∘
        (fun s : Reach => if s.ty == r.ty then { s with ambiguous := true } else s) =
        fun s => s.ty := funext hty
    rw [hcomp]
    exact h.distinct
  · intro s hs
    obtain ⟨s₀, hs₀, rfl⟩ := List.mem_map.mp hs
    obtain ⟨r₀, hr₀, hty₀, hpath, hind, hamb⟩ := h.source s₀ hs₀
    by_cases heq : s₀.ty = r.ty
    · -- the other way is that of the new reach
      rw [if_pos (beq_iff_eq.mpr heq)]
      refine ⟨r₀, by simp [hr₀], hty₀, hpath, hind, fun _ => .inr ⟨r, by simp, heq.symm, ?_⟩⟩
      exact fun hp => hr r₀ hr₀ (hpath.trans hp.symm)
    · rw [if_neg (by simpa using heq)]
      refine ⟨r₀, by simp [hr₀], hty₀, hpath, hind, fun ha => ?_⟩
      exact (hamb ha).imp_right fun ⟨r₁, hr₁, h₁⟩ => ⟨r₁, by simp [hr₁], h₁⟩
  · intro r₀ hr₀
    rcases List.mem_append.mp hr₀ with hr₀ | hr₀
    · obtain ⟨s, hs, hs₁, hs₂, hs₃⟩ := h.target r₀ hr₀
      refine ⟨_, List.mem_map_of_mem hs, (hty s).trans hs₁, ?_⟩
      split
      · exact ⟨.inr rfl, fun _ => rfl⟩
      · exact ⟨hs₂, hs₃⟩
    · rw [List.mem_singleton.mp hr₀]
      obtain ⟨s, hs, heq⟩ := hold
      refine ⟨_, List.mem_map_of_mem hs, (hty s).trans heq, ?_⟩
      rw [if_pos (beq_iff_eq.mpr heq)]
      exact ⟨.inr rfl, fun _ => rfl⟩

theorem Merged.addReach (hr : ∀ r₀ ∈ rs, r₀.path ≠ r.path) :
    Merged (rs ++ [r]) (addReach level r) := by
  unfold MethodSSA.addReach
  split
  · next hany =>
    obtain ⟨s, hs, heq⟩ := List.any_eq_true.mp hany
    exact h.mark hr ⟨s, hs, beq_iff_eq.mp heq⟩
  · next hany =>
    apply h.append
    intro s hs heq
    exact hany (List.any_eq_true.mpr ⟨s, hs, beq_iff_eq.mpr heq⟩)

end Adding

/-- **Merging keeps every type**, if all ways are different. -/
theorem merged_mergeReaches {rs : List Reach} (h : (rs.map (·.path)).Nodup) :
    Merged rs (mergeReaches rs) := by
  suffices ∀ (rest done level : List Reach), Merged done level →
      ((done ++ rest).map (·.path)).Nodup → Merged (done ++ rest) (rest.foldl addReach level) from
    this rs [] [] merged_nil h
  intro rest
  induction rest with
  | nil =>
    intro done level hm _
    rw [List.append_nil]
    exact hm
  | cons r rest ih =>
    intro done level hm hnodup
    rw [List.append_cons] at hnodup ⊢
    refine ih (done ++ [r]) (addReach level r) (hm.addReach fun r₀ hr₀ heq => ?_) hnodup
    rw [List.map_append, List.map_append] at hnodup
    have hdone := (List.nodup_append.mp (List.nodup_append.mp hnodup).1).2.2
    exact hdone _ (List.mem_map_of_mem hr₀) _ (by simp) heq

namespace TypeTable

variable {t : TypeTable} {base : TypeId} {isPtr : Bool} {k : Nat} {seen : List TypeId}
  {level : List Reach}

/-! ## Covering levels -/

/-- A type to which a path shorter than `k` leads. -/
def Nearer (t : TypeTable) (base : TypeId) (k : Nat) (b : TypeId) : Prop :=
  ∃ path ptr, path.length < k ∧ t.Leads base path b ptr

/-- A level that stands for all paths of length `k`, where those count no more whose end
is reached by a shorter path. -/
structure Covers (t : TypeTable) (base : TypeId) (isPtr : Bool) (k : Nat) (seen : List TypeId)
    (level : List Reach) : Prop where
  leads : ∀ r ∈ level, r.path.length = k ∧
    ∃ ptr, t.Leads base r.path r.ty ptr ∧ r.indirect = (isPtr || ptr)
  distinct : (level.map (·.ty)).Nodup
  twice : ∀ r ∈ level, r.ambiguous = true →
    ∃ path ptr, path ≠ r.path ∧ path.length = k ∧ t.Leads base path r.ty ptr
  complete : ∀ {path b ptr}, t.Leads base path b ptr → path.length = k →
    (∃ r ∈ level, r.ty = b ∧ (r.path = path ∨ r.ambiguous = true)) ∨ t.Nearer base k b
  above : ∀ ty ∈ seen, t.Nearer base k ty

theorem Nearer.mono {b : TypeId} {j : Nat} (h : t.Nearer base k b) (hjk : k ≤ j) :
    t.Nearer base j b := by
  obtain ⟨path, ptr, hlt, hlead⟩ := h
  exact ⟨path, ptr, Nat.lt_of_lt_of_le hlt hjk, hlead⟩

/-- The walk starts with a level that covers the empty path. -/
theorem covers_start : t.Covers base isPtr 0 [] [⟨base, [], isPtr, false⟩] where
  leads r hr := by
    rw [List.mem_singleton.mp hr]
    exact ⟨rfl, false, .nil, (Bool.or_false _).symm⟩
  distinct := List.nodup_singleton _
  twice r hr hamb := by
    rw [List.mem_singleton.mp hr] at hamb
    cases hamb
  complete {path b ptr} h hlen := by
    cases List.eq_nil_of_length_eq_zero hlen
    obtain ⟨rfl, rfl⟩ := leads_nil_iff.mp h
    exact .inl ⟨_, List.mem_singleton_self _, rfl, .inl rfl⟩
  above ty hty := absurd hty List.not_mem_nil

namespace Covers

variable (c : t.Covers base isPtr k seen level)
include c

theorem holds (hs : t.Sound) (hbase : t.Holds base) {r : Reach} (hr : r ∈ level) :
    t.Holds r.ty := by
  obtain ⟨-, ptr, hlead, -⟩ := c.leads r hr
  exact hs.holds_leads hbase hlead

/-- A type that no shorter path reaches is not passed over. -/
theorem mem_entered {r : Reach} (hr : r ∈ level) (hnear : ¬ t.Nearer base k r.ty) :
    r ∈ t.entered seen level := by
  refine List.mem_filter.mpr ⟨hr, ?_⟩
  rw [decide_eq_false fun hseen => hnear (c.above _ hseen), Bool.and_false]
  rfl

/-- Different reaches of a level have different paths. -/
theorem path_injective {r s : Reach} (hr : r ∈ level) (hs : s ∈ level) (h : r.path = s.path) :
    r = s := by
  obtain ⟨-, p, hlr, -⟩ := c.leads r hr
  obtain ⟨-, q, hls, -⟩ := c.leads s hs
  rw [h] at hlr
  obtain ⟨hty, -⟩ := hlr.unique hls
  exact List.inj_on_of_nodup_map c.distinct hr hs hty

/-- The ways by which the next level is reached are all different. -/
theorem nodup_next : (((t.entered seen level).flatMap t.children).map (·.path)).Nodup := by
  rw [List.map_flatMap, List.nodup_flatMap]
  constructor
  · -- two children of one reach differ in the last step
    intro r _
    rw [List.Nodup, List.pairwise_map, children, List.pairwise_filterMap]
    have hplaces : (t.fieldsOf r.ty).zipIdx.Pairwise fun a b => a.2 ≠ b.2 := by
      rw [← List.pairwise_map (f := Prod.snd) (R := (· ≠ ·)), List.zipIdx_map_snd]
      exact List.nodup_range'
    refine hplaces.imp ?_
    rintro ⟨f, i⟩ ⟨f', i'⟩ hne a ha b hb heq
    rw [Option.ite_none_right_eq_some] at ha hb
    cases ha.2
    cases hb.2
    obtain ⟨-, hi⟩ := List.append_inj' heq rfl
    exact hne (List.cons.inj hi).1
  · -- children of two reaches differ in the steps before
    have hnodup : (t.entered seen level).Nodup :=
      (List.Nodup.of_map _ c.distinct).filter _
    refine hnodup.imp_of_mem ?_
    intro r s hr hs hne path hpr hps
    obtain ⟨a, ha, rfl⟩ := List.mem_map.mp hpr
    obtain ⟨b, hb, hpath⟩ := List.mem_map.mp hps
    obtain ⟨⟨f, i⟩, -, ha⟩ := List.mem_filterMap.mp ha
    obtain ⟨⟨f', i'⟩, -, hb⟩ := List.mem_filterMap.mp hb
    rw [Option.ite_none_right_eq_some] at ha hb
    cases ha.2
    cases hb.2
    obtain ⟨heq, -⟩ := List.append_inj' hpath rfl
    exact hne (c.path_injective (List.mem_of_mem_filter hr) (List.mem_of_mem_filter hs) heq.symm)

/-- A child of a reach stands for the path of the reach and one field more. -/
theorem exists_parent (hs : t.Sound) (hbase : t.Holds base) {r₀ : Reach}
    (hr₀ : r₀ ∈ (t.entered seen level).flatMap t.children) :
    ∃ r ∈ level, ∃ i p, t.Embeds r.ty i r₀.ty p ∧ r₀.path = r.path ++ [i] ∧
      r₀.indirect = (r.indirect || p) ∧ r₀.ambiguous = r.ambiguous := by
  obtain ⟨r, hr, hr₀⟩ := List.mem_flatMap.mp hr₀
  have hmem := List.mem_of_mem_filter hr
  obtain ⟨i, b, p, he, rfl⟩ := (mem_children_iff hs (c.holds hs hbase hmem)).mp hr₀
  exact ⟨r, hmem, i, p, he, rfl, rfl, rfl⟩

/-- **The next level covers the paths that are longer by one.** -/
theorem next (hs : t.Sound) (hbase : t.Holds base) {seen' : List TypeId}
    (hseen : ∀ ty ∈ seen', ty ∈ seen ∨ ∃ r ∈ level, r.ty = ty) :
    t.Covers base isPtr (k + 1) seen'
      (mergeReaches ((t.entered seen level).flatMap t.children)) := by
  have hmerged := merged_mergeReaches c.nodup_next
  refine ⟨?_, hmerged.distinct, ?_, ?_, ?_⟩
  · intro r' hr'
    obtain ⟨r₀, hr₀, hty, hpath, hind, -⟩ := hmerged.source r' hr'
    obtain ⟨r, hr, i, p, he, hpath₀, hind₀, -⟩ := c.exists_parent hs hbase hr₀
    obtain ⟨hlen, ptr, hlead, hindr⟩ := c.leads r hr
    rw [← hpath, ← hty, ← hind, hpath₀, hind₀, hindr, Bool.or_assoc, List.length_append, hlen]
    exact ⟨rfl, ptr || p, .snoc hlead he, rfl⟩
  · intro r' hr' hamb
    obtain ⟨r₀, hr₀, hty, hpath, -, htwice⟩ := hmerged.source r' hr'
    rcases htwice hamb with hamb₀ | ⟨r₁, hr₁, hty₁, hne⟩
    · -- the reach was marked before the last step: its other path takes the same step
      obtain ⟨r, hr, i, p, he, hpath₀, -, hambr⟩ := c.exists_parent hs hbase hr₀
      obtain ⟨path, ptr, hne, hlen, hlead⟩ := c.twice r hr (hambr ▸ hamb₀)
      refine ⟨path ++ [i], ptr || p, ?_, by rw [List.length_append, hlen]; rfl, ?_⟩
      · rw [← hpath, hpath₀]
        exact fun h => hne (List.append_inj' h rfl).1
      · rw [← hty]
        exact .snoc hlead he
    · -- the reach was marked in this step, for another one of its type
      obtain ⟨r, hr, i, p, he, hpath₁, -, -⟩ := c.exists_parent hs hbase hr₁
      obtain ⟨hlen, ptr, hlead, -⟩ := c.leads r hr
      refine ⟨r₁.path, ptr || p, hne, ?_, ?_⟩
      · rw [hpath₁, List.length_append, hlen]
        rfl
      · rw [hpath₁, ← hty₁]
        exact .snoc hlead he
  · intro path b ptr hlead hlen
    obtain ⟨path₀, i, rfl⟩ : ∃ path₀ i, path = path₀ ++ [i] :=
      ⟨path.dropLast, path.getLast (List.ne_nil_of_length_eq_add_one hlen),
        (List.dropLast_append_getLast _).symm⟩
    obtain ⟨a, q, p, hlead₀, he, rfl⟩ := leads_snoc_iff.mp hlead
    have hlen₀ : path₀.length = k := by simpa using hlen
    by_cases hnear : t.Nearer base k a
    · -- a shorter path to the type before the last step
      obtain ⟨short, ptr', hlt, hshort⟩ := hnear
      exact .inr ⟨short ++ [i], ptr' || p, by simpa using hlt, .snoc hshort he⟩
    · obtain ⟨r, hr, rfl, hway⟩ := (c.complete hlead₀ hlen₀).resolve_right hnear
      have hmem : (⟨b, r.path ++ [i], r.indirect || p, r.ambiguous⟩ : Reach) ∈
          (t.entered seen level).flatMap t.children :=
        List.mem_flatMap.mpr ⟨r, c.mem_entered hr hnear,
          (mem_children_iff hs (c.holds hs hbase hr)).mpr ⟨i, b, p, he, rfl⟩⟩
      obtain ⟨r', hr', hty, hpath, hamb⟩ := hmerged.target _ hmem
      refine .inl ⟨r', hr', hty, ?_⟩
      rcases hway with rfl | hway
      · exact hpath
      · exact .inr (hamb hway)
  · intro ty hty
    rcases hseen ty hty with hty | ⟨r, hr, rfl⟩
    · exact (c.above ty hty).mono (Nat.le_succ k)
    · obtain ⟨hlen, ptr, hlead, -⟩ := c.leads r hr
      exact ⟨r.path, ptr, Nat.lt_succ_of_le (Nat.le_of_eq hlen), hlead⟩

/-- Where no level is left every path has been covered: its end is reached by a path that
is shorter than the levels are many. -/
theorem nearer_of_nil (h : level = []) {path : List Nat} {b : TypeId} {ptr : Bool}
    (hlead : t.Leads base path b ptr) : t.Nearer base k b := by
  induction hlen : path.length using Nat.strongRecOn generalizing path ptr with
  | _ n ih =>
    rcases Nat.lt_or_ge path.length k with hlt | hge
    · exact ⟨path, ptr, hlt, hlead⟩
    · obtain ⟨a, q, r, hfirst, hrest⟩ := hlead.split k hge
      rcases c.complete hfirst (List.length_take_of_le hge) with ⟨s, hs, -⟩ | hnear
      · rw [h] at hs
        exact absurd hs List.not_mem_nil
      · -- the first `k` steps are replaced by fewer
        obtain ⟨short, ptr', hlt, hshort⟩ := hnear
        refine ih _ ?_ (hshort.append hrest) rfl
        rw [List.length_append, List.length_drop]
        omega

end Covers

end TypeTable

end MethodSSA
