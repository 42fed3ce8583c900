import Interaction.Proofs.Traversal
import Interaction.Source.Program
import Mathlib.Data.List.Induction

/-!
# The imports of a program

A program that is read in full has the same imports as a reading for the imports alone. Of those of
one name the first is kept, so the kept ones have the distinct names in the order in which they
come up.
-/

namespace Interaction

theorem eraseDups_append_singleton {xs : List String} {x : String} :
    (xs ++ [x]).eraseDups = if x ∈ xs then xs.eraseDups else xs.eraseDups ++ [x] := by
  rw [List.eraseDups_append, List.removeAll]
  split
  next h => simp [h]
  next h =>
    have hsingle : [x].eraseDups = [x] := rfl
    simp [h, hsingle]

theorem nodup_eraseDups (xs : List String) : xs.eraseDups.Nodup := by
  induction xs using List.reverseRecOn with
  | nil => exact List.nodup_nil
  | append_singleton xs x ih =>
      rw [eraseDups_append_singleton]
      split
      next => exact ih
      next hx =>
        refine List.nodup_append.2 ⟨ih, List.nodup_singleton x, fun y hy z hz => ?_⟩
        rw [List.mem_singleton.1 hz]
        rintro rfl
        exact hx (List.mem_eraseDups.1 hy)

namespace Import

variable {i j : Import} {imports kept : List Import}

/-- Kept imports that have the distinct names, each the first import of its name. -/
structure KeepsFirst (imports kept : List Import) : Prop where
  names : kept.map name = (imports.map name).eraseDups
  first : ∀ i ∈ kept, imports.find? (·.name == i.name) = some i

theorem KeepsFirst.add (h : KeepsFirst imports kept) (next : Import) :
    KeepsFirst (imports ++ [next])
      (if kept.any (·.name == next.name) then kept else kept ++ [next]) := by
  have hmet : kept.any (·.name == next.name) = true ↔ next.name ∈ imports.map name := by
    rw [← List.mem_eraseDups, ← h.names, List.any_eq_true, List.mem_map]
    simp only [beq_iff_eq]
  have hkept : ∀ i ∈ kept, (imports ++ [next]).find? (·.name == i.name) = some i := by
    intro i hi
    rw [List.find?_append, h.first i hi]
    rfl
  have hnames : ((imports ++ [next]).map name).eraseDups =
      if next.name ∈ imports.map name then kept.map name else kept.map name ++ [next.name] := by
    rw [List.map_append, List.map_singleton, eraseDups_append_singleton, h.names]
  by_cases hold : next.name ∈ imports.map name
  · rw [if_pos (hmet.2 hold)]
    rw [if_pos hold] at hnames
    exact ⟨hnames.symm, hkept⟩
  · rw [if_neg (mt hmet.1 hold)]
    rw [if_neg hold] at hnames
    refine ⟨by rw [hnames, List.map_append, List.map_singleton], ?_⟩
    intro i hi
    rcases List.mem_append.1 hi with hi | hi
    · exact hkept i hi
    · have hnone : imports.find? (·.name == next.name) = none := by
        rw [List.find?_eq_none]
        intro j hj hname
        exact hold (List.mem_map.2 ⟨j, hj, beq_iff_eq.1 hname⟩)
      rw [List.mem_singleton.1 hi, List.find?_append, hnone]
      simp

theorem keepsFirst_distinct (imports : List Import) : KeepsFirst imports (distinct imports) :=
  foldl_invariant ⟨rfl, nofun⟩ (fun _ _ next h => h.add next) imports

theorem find?_of_mem_distinct (h : i ∈ distinct imports) :
    imports.find? (·.name == i.name) = some i :=
  (keepsFirst_distinct imports).first i h

theorem mem_of_mem_distinct (h : i ∈ distinct imports) : i ∈ imports :=
  List.mem_of_find?_eq_some (find?_of_mem_distinct h)

/-- No two of the kept imports have one name. -/
theorem eq_of_mem_distinct (hi : i ∈ distinct imports) (hj : j ∈ distinct imports)
    (h : i.name = j.name) : i = j := by
  have hfirst := find?_of_mem_distinct hi
  rw [h, find?_of_mem_distinct hj] at hfirst
  exact (Option.some.inj hfirst).symm

end Import

namespace Source.Program

/-- What an item adds to the declarations. -/
def declared (found : Located Item) : Option (Located Clause) :=
  match found.value with
  | .imports clause => some { found with value := clause }
  | _ => none

/-- Only an import declaration is added to the declarations. -/
theorem declarations_of_add {program next : Program} {found : Located Item}
    (h : program.add found = .ok next) :
    next.declarations = program.declarations ++ (declared found).toList := by
  unfold declared
  rw [add.eq_def] at h
  split at h
  next clause hclause =>
    cases h
    rw [hclause]
    rfl
  next entry hentry =>
    rw [hentry]
    split at h
    · cases h
    · cases h
      exact (List.append_nil _).symm
  next fields hfields =>
    rw [hfields]
    split at h
    · cases h
    · obtain ⟨known, -, rfl⟩ := map_eq_ok_iff.1 h
      exact (List.append_nil _).symm
  next => cases h
  next tags htags =>
    rw [htags]
    split at h
    · cases h
      exact (List.append_nil _).symm
    · obtain ⟨known, -, rfl⟩ := map_eq_ok_iff.1 h
      exact (List.append_nil _).symm
  next hplain =>
    rw [hplain]
    cases h
    exact (List.append_nil _).symm

theorem declarations_of_foldlM {found : List (Located Item)} {program final : Program}
    (h : found.foldlM add program = .ok final) :
    final.declarations = program.declarations ++ found.filterMap declared := by
  induction found generalizing program with
  | nil =>
      cases h
      exact (List.append_nil _).symm
  | cons item more ih =>
      rw [List.foldlM_cons] at h
      obtain ⟨next, hnext, h⟩ := bind_eq_ok_iff.1 h
      rw [ih h, declarations_of_add hnext, List.append_assoc, List.filterMap_cons]
      cases declared item <;> rfl

/-- A program has the imports of its source. -/
theorem imports_eq_importsOf {source : String} {program : Program}
    (h : parse source = .ok program) : program.imports = importsOf source := by
  rw [imports, declarations_of_foldlM h]
  rfl

end Source.Program

end Interaction
