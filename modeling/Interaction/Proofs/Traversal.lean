import Mathlib.Data.List.Forall2
import Mathlib.Data.List.Nodup

/-!
# Doing something for every item

A traversal that can fail succeeds exactly if it succeeds at every item, and then its results stand
in the order of the items. The relation `List.Forall₂` says so once, and the facts about single
items follow from it. A fold is followed by an invariant of the items done so far.
-/

namespace Interaction

variable {ε α β γ : Type}

theorem bind_eq_ok_iff {x : Except ε α} {f : α → Except ε β} {b : β} :
    x >>= f = .ok b ↔ ∃ a, x = .ok a ∧ f a = .ok b := by
  cases x <;> simp [bind, Except.bind]

theorem map_eq_ok_iff {f : α → β} {x : Except ε α} {b : β} :
    x.map f = .ok b ↔ ∃ a, x = .ok a ∧ f a = b := by
  cases x <;> simp [Except.map]

theorem bind_eq_error_iff {x : Except ε α} {f : α → Except ε β} {failure : ε} :
    x >>= f = .error failure ↔ x = .error failure ∨ ∃ a, x = .ok a ∧ f a = .error failure := by
  cases x <;> simp [bind, Except.bind]

theorem map_eq_error_iff {f : α → β} {x : Except ε α} {failure : ε} :
    x.map f = .error failure ↔ x = .error failure := by
  cases x <;> simp [Except.map]

theorem mapError_eq_ok_iff {f : ε → β} {x : Except ε α} {a : α} :
    x.mapError f = .ok a ↔ x = .ok a := by
  cases x <;> simp [Except.mapError]

/-- Two results that look the same both fail alike or both succeed. -/
theorem cases_of_map_eq {view : α → β} {x y : Except ε α} (h : x.map view = y.map view) :
    (∃ failure, x = .error failure ∧ y = .error failure) ∨
      ∃ a b, x = .ok a ∧ y = .ok b ∧ view a = view b := by
  cases x with
  | error failure =>
      cases y with
      | error failure' =>
          cases h
          exact .inl ⟨failure, rfl, rfl⟩
      | ok b => cases h
  | ok a =>
      cases y with
      | error failure => cases h
      | ok b => exact .inr ⟨a, b, rfl, rfl, Except.ok.inj h⟩

/-- Steps that come to the same up to a view may be followed by steps that only depend on it. -/
theorem map_bind_congr {δ : Type} (view : α → β) {shows : γ → δ} {x y : Except ε α}
    {f g : α → Except ε γ} (h : x.map view = y.map view)
    (hnext : ∀ {a b}, view a = view b → (f a).map shows = (g b).map shows) :
    (x >>= f).map shows = (y >>= g).map shows := by
  obtain ⟨failure, rfl, rfl⟩ | ⟨a, b, rfl, rfl, hview⟩ := cases_of_map_eq h
  · rfl
  · exact hnext hview

theorem mapM_eq_ok_iff {f : α → Except ε β} {items : List α} {results : List β} :
    items.mapM f = .ok results ↔ List.Forall₂ (fun a b => f a = .ok b) items results := by
  induction items generalizing results with
  | nil =>
      rw [List.mapM_nil, List.forall₂_nil_left_iff]
      exact ⟨fun h => (Except.ok.inj h).symm, fun h => h ▸ rfl⟩
  | cons a items ih =>
      rw [List.mapM_cons, List.forall₂_cons_left_iff]
      cases hfirst : f a with
      | error failure => simp [bind, Except.bind]
      | ok b =>
          cases hmore : items.mapM f with
          | error failure => simp [bind, Except.bind, ← ih, hmore]
          | ok bs => simp [bind, Except.bind, pure, Except.pure, ← ih, hmore, eq_comm]

theorem mapM_eq_ok_map {f : α → Except ε β} {g : α → β} {items : List α}
    (h : ∀ a ∈ items, f a = .ok (g a)) : items.mapM f = .ok (items.map g) := by
  rw [mapM_eq_ok_iff, List.forall₂_map_right_iff, List.forall₂_same]
  exact h

/-- A traversal fails as one of its items does. -/
theorem exists_of_mapM_eq_error {f : α → Except ε β} {items : List α} {failure : ε}
    (h : items.mapM f = .error failure) : ∃ a ∈ items, f a = .error failure := by
  induction items with
  | nil => cases h
  | cons a items ih =>
      rw [List.mapM_cons, bind_eq_error_iff] at h
      rcases h with hfirst | ⟨b, -, h⟩
      · exact ⟨a, .head _, hfirst⟩
      · rcases bind_eq_error_iff.1 h with hmore | ⟨bs, -, hpure⟩
        · obtain ⟨c, hc, hfails⟩ := ih hmore
          exact ⟨c, .tail _ hc, hfails⟩
        · cases hpure

theorem mapM_eq_some_iff {f : α → Option β} {items : List α} {results : List β} :
    items.mapM f = some results ↔ List.Forall₂ (fun a b => f a = some b) items results := by
  induction items generalizing results with
  | nil =>
      rw [List.mapM_nil, List.forall₂_nil_left_iff]
      exact ⟨fun h => (Option.some.inj h).symm, fun h => h ▸ rfl⟩
  | cons a items ih =>
      rw [List.mapM_cons, List.forall₂_cons_left_iff]
      cases hfirst : f a with
      | none => simp
      | some b =>
          cases hmore : items.mapM f with
          | none => simp [← ih, hmore]
          | some bs => simp [← ih, hmore, eq_comm]

/-- Traversals that come to the same item by item come to the same. -/
theorem mapM_congr_of_forall₂ {f : α → Except ε γ} {g : β → Except ε γ}
    {items : List α} {others : List β} (h : List.Forall₂ (fun a b => f a = g b) items others) :
    items.mapM f = others.mapM g := by
  induction h with
  | nil => rfl
  | cons hfirst _ ih => rw [List.mapM_cons, List.mapM_cons, hfirst, ih]

/-- A traversal whose results do not depend on the state: item by item, and the state goes through
all of them. -/
theorem run_mapM {σ : Type} {f : α → StateM σ β} {g : α → β} {step : σ → α → σ}
    (h : ∀ a s, (f a).run s = (g a, step s a)) (items : List α) (s : σ) :
    (items.mapM f).run s = (items.map g, items.foldl step s) := by
  induction items generalizing s with
  | nil => rfl
  | cons a items ih =>
      rw [List.mapM_cons, StateT.run_bind, h]
      change ((items.mapM f >>= fun rest => pure (g a :: rest)).run (step s a)) = _
      rw [StateT.run_bind, ih]
      rfl

theorem exists_of_mem_right {R : α → β → Prop} {items : List α} {results : List β}
    (h : List.Forall₂ R items results) {b : β} (hb : b ∈ results) : ∃ a ∈ items, R a b := by
  induction h with
  | nil => cases hb
  | cons hfirst _ ih =>
      rcases List.mem_cons.1 hb with rfl | hb
      · exact ⟨_, .head _, hfirst⟩
      · obtain ⟨a, ha, hab⟩ := ih hb
        exact ⟨a, .tail _ ha, hab⟩

theorem exists_of_mem_left {R : α → β → Prop} {items : List α} {results : List β}
    (h : List.Forall₂ R items results) {a : α} (ha : a ∈ items) : ∃ b ∈ results, R a b :=
  exists_of_mem_right h.flip ha

/-- What holds of the pairs of an item and its result may use that both are there. -/
theorem forall₂_imp_of_mem {R S : α → β → Prop} {items : List α} {results : List β}
    (h : List.Forall₂ R items results) (himp : ∀ a ∈ items, ∀ b ∈ results, R a b → S a b) :
    List.Forall₂ S items results := by
  induction h with
  | nil => exact .nil
  | cons hfirst _ ih =>
      refine .cons (himp _ (.head _) _ (.head _) hfirst) (ih ?_)
      intro a ha b hb hab
      exact himp a (.tail _ ha) b (.tail _ hb) hab

/-- Items are joined with their own results. -/
theorem forall₂_map_zip {R : α → β → Prop} (f : α × β → γ) {items : List α} {results : List β}
    (h : List.Forall₂ R items results) :
    List.Forall₂ (fun a c => ∃ b ∈ results, R a b ∧ c = f (a, b)) items
      ((items.zip results).map f) := by
  induction h with
  | nil => exact .nil
  | cons hfirst _ ih =>
      refine .cons ⟨_, .head _, hfirst, rfl⟩ (ih.imp ?_)
      rintro a c ⟨b, hb, hab, hc⟩
      exact ⟨b, .tail _ hb, hab, hc⟩

/-- Two traversals of the same items agree if they agree at every item. -/
theorem eq_of_forall₂ {R S : α → β → Prop} {items : List α} {results others : List β}
    (h : List.Forall₂ R items results) (hothers : List.Forall₂ S items others)
    (hagree : ∀ a, ∀ b ∈ results, ∀ c ∈ others, R a b → S a c → b = c) : results = others := by
  induction h generalizing others with
  | nil => exact (List.forall₂_nil_left_iff.1 hothers).symm
  | @cons a b items results hfirst hmore ih =>
      obtain ⟨c, others, hfirst', hmore', rfl⟩ := List.forall₂_cons_left_iff.1 hothers
      have hbc : b = c := hagree a b (.head _) c (.head _) hfirst hfirst'
      have hrest : results = others := by
        refine ih hmore' ?_
        intro a b hb c hc
        exact hagree a b (.tail _ hb) c (.tail _ hc)
      rw [hbc, hrest]

/-- Going on from every result is to go on from every item. -/
theorem forall₂_exists_iff {R : α → β → Prop} {S : β → γ → Prop} {items : List α}
    {finals : List γ} :
    List.Forall₂ (fun a c => ∃ b, R a b ∧ S b c) items finals ↔
      ∃ results, List.Forall₂ R items results ∧ List.Forall₂ S results finals := by
  constructor
  · intro h
    induction h with
    | nil => exact ⟨[], .nil, .nil⟩
    | cons hfirst _ ih =>
        obtain ⟨b, hR, hS⟩ := hfirst
        obtain ⟨results, hRs, hSs⟩ := ih
        exact ⟨b :: results, .cons hR hRs, .cons hS hSs⟩
  · rintro ⟨results, hRs, hSs⟩
    induction hRs generalizing finals with
    | nil =>
        rw [List.forall₂_nil_left_iff.1 hSs]
        exact .nil
    | cons hR _ ih =>
        obtain ⟨c, cs, hS, hmore, rfl⟩ := List.forall₂_cons_left_iff.1 hSs
        exact .cons ⟨_, hR, hS⟩ (ih hmore)

/-- A traversal succeeds if it succeeds at every item. -/
theorem exists_forall₂ {R : α → β → Prop} {items : List α} (h : ∀ a ∈ items, ∃ b, R a b) :
    ∃ results, List.Forall₂ R items results := by
  induction items with
  | nil => exact ⟨[], .nil⟩
  | cons a items ih =>
      obtain ⟨b, hb⟩ := h a (.head _)
      obtain ⟨bs, hbs⟩ := ih fun c hc => h c (.tail _ hc)
      exact ⟨b :: bs, .cons hb hbs⟩

/-- What each step of a fold preserves for the items done so far holds of all in the end. -/
theorem foldl_invariant {I : List α → β → Prop} {f : β → α → β} {start : β} (h : I [] start)
    (hstep : ∀ (done : List α) (state : β) (a : α), I done state → I (done ++ [a]) (f state a))
    (items : List α) : I items (items.foldl f start) := by
  have hfrom : ∀ (more done : List α) (state : β), I done state →
      I (done ++ more) (more.foldl f state) := by
    intro more
    induction more with
    | nil =>
        intro done state hdone
        rw [List.append_nil]
        exact hdone
    | cons a more ih =>
        intro done state hdone
        have hnext := ih (done ++ [a]) (f state a) (hstep done state a hdone)
        rwa [List.append_assoc, List.singleton_append] at hnext
  exact hfrom items [] start h

/-- What is seen after many steps is what the last step decides that decides anything about it, or
what was seen before. -/
theorem view_foldl {σ : Type} (view : σ → γ) {step : σ → α → σ} {decided : α → Option γ}
    (h : ∀ state a, view (step state a) = (decided a).getD (view state)) (items : List α)
    (start : σ) :
    view (items.foldl step start) = (items.reverse.findSome? decided).getD (view start) := by
  induction items generalizing start with
  | nil => rfl
  | cons a more ih =>
      rw [List.foldl_cons, ih, h, List.reverse_cons, List.findSome?_append,
        List.findSome?_singleton]
      cases more.reverse.findSome? decided <;> rfl

/-- A fold that can fail is a fold where no step does. -/
theorem foldlM_eq_ok_foldl {f : γ → β → Except ε γ} {g : γ → α → γ} {items : List α}
    {results : List β} (h : List.Forall₂ (fun a b => ∀ state, f state b = .ok (g state a))
      items results) (start : γ) : results.foldlM f start = .ok (items.foldl g start) := by
  induction h generalizing start with
  | nil => rfl
  | cons hfirst _ ih =>
      rw [List.foldlM_cons, hfirst]
      exact ih _

/-- Steps for different keys may be taken in any order. -/
theorem foldl_eq_of_perm {κ : Type} {key : α → κ} {f : β → α → β} {items others : List α}
    (h : items.Perm others) (hnodup : (others.map key).Nodup)
    (hcomm : ∀ a b state, key a ≠ key b → f (f state a) b = f (f state b) a) (start : β) :
    items.foldl f start = others.foldl f start := by
  refine h.foldl_eq' (fun a ha b hb state => ?_) start
  by_cases hkey : key a = key b
  · rw [List.inj_on_of_nodup_map hnodup (h.subset ha) (h.subset hb) hkey]
  · exact hcomm a b state hkey

end Interaction
