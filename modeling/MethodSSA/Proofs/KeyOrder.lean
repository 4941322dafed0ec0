import MethodSSA.KeyOrder

/-!
# Increasing tables

A table that is built by entering pairs has increasing keys, so that each key stands in
it once and the pairs of the table are what it answers.
-/

namespace MethodSSA

variable {α : Type}

/-- Two lists with the same elements are equal if both are in increasing order of a key. -/
theorem eq_of_pairwise_lt {f : α → String} {l l' : List α}
    (h : l.Pairwise fun a b => f a < f b) (h' : l'.Pairwise fun a b => f a < f b)
    (hmem : ∀ a, a ∈ l ↔ a ∈ l') : l = l' := by
  have hnodup : ∀ {l : List α}, l.Pairwise (fun a b => f a < f b) → l.Nodup := by
    intro l hl
    refine hl.imp fun hlt heq => ?_
    rw [heq] at hlt
    exact String.lt_irrefl _ hlt
  have hperm := (List.perm_ext_iff_of_nodup (hnodup h) (hnodup h')).mpr hmem
  exact hperm.eq_of_pairwise (fun a b _ _ hab hba =>
    absurd (String.lt_trans hab hba) (String.lt_irrefl _)) h h'

/-- In increasing order of a key, each key stands once. -/
theorem inj_of_pairwise_lt {f : α → String} {l : List α} (h : l.Pairwise fun a b => f a < f b)
    {a b : α} (ha : a ∈ l) (hb : b ∈ l) (hkey : f a = f b) : a = b := by
  have hne : ∀ {a b : α}, f a < f b → f a ≠ f b := by
    intro a b hlt heq
    rw [heq] at hlt
    exact String.lt_irrefl _ hlt
  have hinj : ∀ a ∈ l, ∀ b ∈ l, f a = f b → a = b :=
    List.Pairwise.forall_of_forall_of_flip (fun _ _ _ => rfl)
      (h.imp fun hlt heq => absurd heq (hne hlt)) (h.imp fun hlt heq => absurd heq.symm (hne hlt))
  exact hinj a ha b hb hkey

/-- Each key comes before those behind it. -/
def Increasing (table : List (String × α)) : Prop := table.Pairwise fun a b => a.1 < b.1

theorem key_lt_of_mem_putKey {key low : String} {a : α} {table : List (String × α)}
    (hkey : low < key) (h : ∀ e ∈ table, low < e.1) : ∀ e ∈ putKey key a table, low < e.1 := by
  induction table with
  | nil =>
    intro e he
    rw [List.mem_singleton.mp he]
    exact hkey
  | cons e rest ih =>
    obtain ⟨k, b⟩ := e
    rw [List.forall_mem_cons] at h
    obtain ⟨hk, hrest⟩ := h
    unfold putKey
    split
    · rw [List.forall_mem_cons, List.forall_mem_cons]
      exact ⟨hkey, hk, hrest⟩
    · split
      · rw [List.forall_mem_cons]
        exact ⟨hkey, hrest⟩
      · rw [List.forall_mem_cons]
        exact ⟨hk, ih hrest⟩

theorem Increasing.putKey {key : String} {a : α} {table : List (String × α)}
    (h : Increasing table) : Increasing (putKey key a table) := by
  induction table with
  | nil => exact List.pairwise_singleton _ _
  | cons e rest ih =>
    obtain ⟨k, b⟩ := e
    obtain ⟨hk, hrest⟩ := List.pairwise_cons.mp h
    unfold MethodSSA.putKey
    split
    · next hlt =>
      refine List.pairwise_cons.mpr ⟨?_, h⟩
      rw [List.forall_mem_cons]
      exact ⟨hlt, fun e he => String.lt_trans hlt (hk e he)⟩
    · split
      · next heq =>
        subst heq
        exact List.pairwise_cons.mpr ⟨hk, hrest⟩
      · next hge hne =>
        have hlt : k < key := Std.lt_of_le_of_ne (String.not_lt.mp hge) (Ne.symm hne)
        exact List.pairwise_cons.mpr ⟨key_lt_of_mem_putKey hlt hk, ih hrest⟩

/-- Types are entered in order, each once. -/
theorem pairwise_putType {ty : TypeId} {l : List TypeId}
    (h : l.Pairwise fun a b => a.index < b.index) :
    (putType ty l).Pairwise fun a b => a.index < b.index := by
  induction l with
  | nil => exact List.pairwise_singleton _ _
  | cons other rest ih =>
    obtain ⟨hlow, hrest⟩ := List.pairwise_cons.mp h
    unfold putType
    split
    · next hlt =>
      refine List.pairwise_cons.mpr ⟨?_, h⟩
      rw [List.forall_mem_cons]
      exact ⟨hlt, fun e he => Nat.lt_trans hlt (hlow e he)⟩
    · split
      · exact h
      · next hge hne =>
        refine List.pairwise_cons.mpr ⟨fun e he => ?_, ih hrest⟩
        rcases mem_putType.mp he with rfl | he
        · have hindex : e.index ≠ other.index := fun heq => hne (congrArg TypeId.mk heq)
          omega
        · exact hlow e he

theorem increasing_keyTable (pairs : List (String × α)) : Increasing (keyTable pairs) := by
  induction pairs with
  | nil => exact List.Pairwise.nil
  | cons e rest ih => exact ih.putKey

/-- **A table holds what it answers.** -/
theorem Increasing.mem_iff {table : List (String × α)} (h : Increasing table) {key : String}
    {a : α} : (key, a) ∈ table ↔ table.lookup key = some a := by
  induction table with
  | nil => simp
  | cons e rest ih =>
    obtain ⟨k, b⟩ := e
    obtain ⟨hk, hrest⟩ := List.pairwise_cons.mp h
    rw [List.lookup_cons, List.mem_cons, ih hrest]
    by_cases heq : key = k
    · subst heq
      have hnot : rest.lookup key ≠ some a := fun hl =>
        String.lt_irrefl key (hk _ ((ih hrest).mpr hl))
      simp [hnot, eq_comm]
    · rw [beq_false_of_ne heq]
      simp [heq]

theorem mem_keyTable {pairs : List (String × α)} {key : String} {a : α} :
    (key, a) ∈ keyTable pairs ↔ pairs.lookup key = some a := by
  rw [(increasing_keyTable pairs).mem_iff, lookup_keyTable]

end MethodSSA
