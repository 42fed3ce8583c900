import Mathlib.Data.List.Basic

/-!
# Sorting by a name

Items are sorted by a name, and those of one name keep their order. What such a sort forgets is
how items of different names stood to each other, and nothing else.
-/

namespace Interaction

variable {α : Type} {name : α → String} {items others : List α}

theorem name_le_trans (a b c : α) (hab : decide (name a ≤ name b) = true)
    (hbc : decide (name b ≤ name c) = true) : decide (name a ≤ name c) = true :=
  decide_eq_true (String.le_trans (of_decide_eq_true hab) (of_decide_eq_true hbc))

theorem name_le_total (a b : α) : (decide (name a ≤ name b) || decide (name b ≤ name a)) = true := by
  rcases String.le_total (name a) (name b) with h | h
  · rw [decide_eq_true h, Bool.true_or]
  · rw [decide_eq_true h, Bool.or_true]

theorem pairwise_mergeSort_name (name : α → String) (items : List α) :
    (items.mergeSort fun a b => name a ≤ name b).Pairwise fun a b => name a ≤ name b :=
  (List.pairwise_mergeSort name_le_trans name_le_total items).imp of_decide_eq_true

theorem mergeSort_name_of_pairwise (h : items.Pairwise fun a b => name a ≤ name b) :
    (items.mergeSort fun a b => name a ≤ name b) = items :=
  List.mergeSort_of_pairwise (h.imp decide_eq_true)

/-- Items of one name keep their order. -/
theorem filter_mergeSort_name (name : α → String) (items : List α) (n : String) :
    ((items.mergeSort fun a b => name a ≤ name b).filter fun a => name a = n) =
      items.filter fun a => name a = n := by
  have hsorted : (items.filter fun a => name a = n).Pairwise fun a b =>
      decide (name a ≤ name b) = true := by
    refine List.pairwise_of_forall_mem_list ?_
    intro a ha b hb
    have ha' : name a = n := of_decide_eq_true (List.mem_filter.1 ha).2
    have hb' : name b = n := of_decide_eq_true (List.mem_filter.1 hb).2
    rw [ha', hb']
    exact decide_eq_true (String.le_refl n)
  have hsub := (List.sublist_mergeSort name_le_trans name_le_total hsorted
    List.filter_sublist).filter fun a => name a = n
  simp only [List.filter_filter, Bool.and_self] at hsub
  have hlength := ((List.mergeSort_perm items fun a b => name a ≤ name b).filter
    fun a => name a = n).length_eq
  exact (hsub.eq_of_length hlength.symm).symm

/-- The last of some items that have been sorted is the last one of the greatest name. -/
theorem of_getLast?_mergeSort_name {α : Type} {name : α → String} {items : List α} {greatest : α}
    (h : (items.mergeSort fun a b => name a ≤ name b).getLast? = some greatest) :
    (∀ a ∈ items, name a ≤ name greatest) ∧
      (items.filter fun a => name a = name greatest).getLast? = some greatest := by
  obtain ⟨before, heq⟩ := List.getLast?_eq_some_iff.1 h
  have hsorted := pairwise_mergeSort_name name items
  rw [heq, List.pairwise_append] at hsorted
  constructor
  · intro a ha
    have hmem := (List.mergeSort_perm items fun a b => name a ≤ name b).mem_iff.2 ha
    rw [heq] at hmem
    rcases List.mem_append.1 hmem with hbefore | hlast
    · exact hsorted.2.2 a hbefore greatest (.head _)
    · cases List.mem_singleton.1 hlast
      exact String.le_refl _
  · rw [← filter_mergeSort_name name items, heq, List.filter_append]
    simp

theorem mem_iff_of_filter_name
    (h : ∀ n, (items.filter fun a => name a = n) = others.filter fun a => name a = n) (a : α) :
    a ∈ items ↔ a ∈ others := by
  have hone := congrArg (fun found => a ∈ found) (h (name a))
  simpa using hone

/-- Lists that start with one item hold the same after it. -/
theorem filter_name_tail {a : α}
    (h : ∀ n, ((a :: items).filter fun b => name b = n) = (a :: others).filter fun b => name b = n)
    (n : String) : (items.filter fun b => name b = n) = others.filter fun b => name b = n := by
  have hall := h n
  by_cases hn : name a = n
  · simp only [List.filter_cons, hn, decide_true, if_true] at hall
    exact (List.cons.inj hall).2
  · simp only [List.filter_cons, hn, decide_false, Bool.false_eq_true, if_false] at hall
    exact hall

/-- Lists in order are the same if they hold the same items of each name in one order. -/
theorem eq_of_filter_name (hitems : items.Pairwise fun a b => name a ≤ name b)
    (hothers : others.Pairwise fun a b => name a ≤ name b)
    (h : ∀ n, (items.filter fun a => name a = n) = others.filter fun a => name a = n) :
    items = others := by
  induction items generalizing others with
  | nil =>
      refine (List.eq_nil_iff_forall_not_mem.2 ?_).symm
      exact fun a ha => nomatch (mem_iff_of_filter_name h a).2 ha
  | cons a items ih =>
      have hmem := mem_iff_of_filter_name h
      cases others with
      | nil => exact nomatch (hmem a).1 (.head _)
      | cons b others =>
          have ⟨ha, hitems'⟩ := List.pairwise_cons.1 hitems
          have ⟨hb, hothers'⟩ := List.pairwise_cons.1 hothers
          have hname : name a = name b := by
            refine String.le_antisymm ?_ ?_
            · rcases List.mem_cons.1 ((hmem b).2 (.head _)) with rfl | hmore
              · exact String.le_refl _
              · exact ha b hmore
            · rcases List.mem_cons.1 ((hmem a).1 (.head _)) with rfl | hmore
              · exact String.le_refl _
              · exact hb a hmore
          have hfirst := h (name a)
          simp only [List.filter_cons, hname, decide_true, if_true] at hfirst
          obtain ⟨rfl, -⟩ := List.cons.inj hfirst
          rw [ih hitems' hothers' (filter_name_tail h)]

/-- Lists in strict order are the same if they hold the same items. -/
theorem eq_of_pairwise_name (hitems : items.Pairwise fun a b => name a < name b)
    (hothers : others.Pairwise fun a b => name a < name b) (h : ∀ a, a ∈ items ↔ a ∈ others) :
    items = others := by
  have hnodup {list : List α} (hlist : list.Pairwise fun a b => name a < name b) : list.Nodup := by
    refine hlist.imp fun hlt => ?_
    rintro rfl
    exact String.lt_irrefl _ hlt
  have hperm : items.Perm others :=
    (List.perm_ext_iff_of_nodup (hnodup hitems) (hnodup hothers)).2 h
  refine hperm.eq_of_pairwise ?_ hitems hothers
  intro a b _ _ hab hba
  exact absurd (String.lt_trans hab hba) (String.lt_irrefl _)

/-- Two lists that differ only in how items of different names stand to each other. -/
inductive Reordered (name : α → String) : List α → List α → Prop
  | refl (items : List α) : Reordered name items items
  | swap {a b : α} (items : List α) (h : name a ≠ name b) :
      Reordered name (a :: b :: items) (b :: a :: items)
  | cons (a : α) {items others : List α} (h : Reordered name items others) :
      Reordered name (a :: items) (a :: others)
  | trans {items others more : List α} (h : Reordered name items others)
      (hnext : Reordered name others more) : Reordered name items more

namespace Reordered

/-- An item passes all items of other names. -/
theorem move {a : α} {before : List α} (h : ∀ b ∈ before, name a ≠ name b) (after : List α) :
    Reordered name (a :: (before ++ after)) (before ++ a :: after) := by
  induction before with
  | nil => exact .refl _
  | cons b before ih =>
      have hrest := ih fun c hc => h c (.tail _ hc)
      exact .trans (.swap _ (h b (.head _))) (.cons b hrest)

/-- Reordered lists hold the same items of each name in one order. -/
theorem filter_eq (h : Reordered name items others) (n : String) :
    (items.filter fun a => name a = n) = others.filter fun a => name a = n := by
  induction h with
  | refl items => rfl
  | @swap a b items h =>
      by_cases ha : name a = n
      · have hb : name b ≠ n := fun hb => h (ha.trans hb.symm)
        simp [ha, hb]
      · simp [List.filter_cons, ha]
  | cons a _ ih => rw [List.filter_cons, List.filter_cons, ih]
  | trans _ _ ih ihnext => exact ih.trans ihnext

/-- Lists are reorderings of each other if they hold the same items of each name in one order. -/
theorem of_filter (h : ∀ n, (items.filter fun a => name a = n) = others.filter fun a => name a = n) :
    Reordered name items others := by
  induction items generalizing others with
  | nil =>
      have hnone : others = [] := by
        rw [List.eq_nil_iff_forall_not_mem]
        intro a ha
        have hempty := (h (name a)).symm
        rw [List.filter_nil, List.filter_eq_nil_iff] at hempty
        exact hempty a ha (decide_eq_true rfl)
      rw [hnone]
      exact .refl []
  | cons a items ih =>
      have hfirst := h (name a)
      rw [List.filter_cons, if_pos (decide_eq_true rfl), eq_comm, List.filter_eq_cons_iff] at hfirst
      obtain ⟨before, after, rfl, hbefore, -, hafter⟩ := hfirst
      have hne : ∀ b ∈ before, name a ≠ name b := fun b hb heq =>
        hbefore b hb (decide_eq_true heq.symm)
      have hmove := move hne after
      refine .trans (.cons a (ih ?_)) hmove
      exact filter_name_tail fun n => (h n).trans (hmove.filter_eq n).symm

/-- What sorts to the same list is the same up to the order of different names. -/
theorem of_mergeSort (h : (items.mergeSort fun a b => name a ≤ name b) =
    others.mergeSort fun a b => name a ≤ name b) : Reordered name items others := by
  refine of_filter fun n => ?_
  rw [← filter_mergeSort_name name items, h, filter_mergeSort_name]

/-- Sorting forgets the order of different names. -/
theorem mergeSort_eq (h : Reordered name items others) :
    (items.mergeSort fun a b => name a ≤ name b) =
      others.mergeSort fun a b => name a ≤ name b := by
  refine eq_of_filter_name (pairwise_mergeSort_name name items)
    (pairwise_mergeSort_name name others) ?_
  intro n
  rw [filter_mergeSort_name, filter_mergeSort_name, h.filter_eq n]

/-- Reordered lists are permutations of each other. -/
theorem perm (h : Reordered name items others) : items.Perm others := by
  induction h with
  | refl items => exact .refl items
  | swap items _ => exact .swap _ _ items
  | cons a _ ih => exact .cons a ih
  | trans _ _ ih ihnext => exact ih.trans ihnext

end Reordered

end Interaction
