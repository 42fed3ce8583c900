import Interaction.Proofs.Source.Substitution
import Interaction.Proofs.Template.Executable
import Interaction.Proofs.Template.NetworkPins
import Mathlib

/-!
# What stands in the way of code

A template has no code on a network if a dependency is not placed there or if an import of the body
names no dependency. The failure names the first dependency of the first kind and, if there is
none, the first import of the second. Otherwise there is code: the body with its import
declarations cut out and one line for each of their imports put in, and nothing else changed.
-/

namespace Interaction

open Source Executable

variable {network : String} {dependencies : List Dependency} {known : Table String}

/-- The lines that take the place of a declaration, each import at the address of its name. -/
def Source.Clause.placedText (address : String → String) (clause : Clause) : String :=
  "\n".intercalate (clause.imports.map fun i => Import.explicitText i.name (address i.name))

namespace Source

variable {address : String → String} {replacement : Import → Option String} {source : String}

/-- If all imports are replaced, no declaration of a text stays as it is. -/
theorem edits_of_forall
    (h : ∀ i ∈ importsOf source, replacement i =
      some (Import.explicitText i.name (address i.name))) :
    edits replacement (declarations source) = (declarations source).map fun found =>
      { found with value := Utf8.ofText (found.value.placedText address) } := by
  have himport : ∀ found ∈ declarations source, ∀ i ∈ found.value.imports,
      replacement i = some (Import.explicitText i.name (address i.name)) :=
    fun found hfound i hi => h i (List.mem_flatMap.2 ⟨found, hfound, hi⟩)
  have hreplaced : ∀ found ∈ declarations source,
      found.value.isReplaced replacement = true := by
    intro found hfound
    obtain ⟨before, text, after, -, -, -, hparse⟩ :=
      placed_of_cut (cut_chunks source.toList) 1 0 found hfound
    obtain ⟨i, hi⟩ := List.exists_mem_of_ne_nil _ (Clause.imports_ne_nil hparse)
    exact List.any_eq_true.2 ⟨i, hi, by rw [himport found hfound i hi, Option.isSome_some]⟩
  rw [edits, List.filter_eq_self.2 hreplaced]
  refine List.map_congr_left fun found hfound => ?_
  have hlines : found.value.lines replacement = found.value.placedText address := by
    rw [Clause.lines, Clause.placedText]
    congr 1
    exact List.map_congr_left fun i hi => by rw [himport found hfound i hi, Option.getD_some]
  rw [hlines]

end Source

namespace Executable

/-- Binding stops at the first dependency that is not placed on the network. -/
theorem foldlM_bind_of_find? {d : Dependency} {start : Table String}
    (h : dependencies.find? (fun d => (d.on? network).isNone) = some d) :
    dependencies.foldlM (bind network) start = .error (.notPlaced d.contract network) := by
  induction dependencies generalizing start with
  | nil => cases h
  | cons first more ih =>
      rw [List.foldlM_cons, Executable.bind]
      rw [List.find?_cons] at h
      cases hon : first.on? network with
      | none =>
          rw [hon] at h
          cases h
          rfl
      | some placement =>
          rw [hon] at h
          exact ih h

/-- The names that have an address are those of the dependencies. -/
theorem contains_addresses (h : addresses dependencies network = .ok known) (name : String) :
    known.contains name = dependencies.any fun d => d.contract == name := by
  rw [Table.contains, get?_addresses h, Dependency.addressIn?, List.findRev?_eq_find?_reverse,
    ← List.any_reverse]
  cases hfound : dependencies.reverse.find? fun d => d.contract == name with
  | none =>
      rw [List.find?_eq_none] at hfound
      symm
      simpa using hfound
  | some d =>
      have hd := List.mem_of_find?_eq_some hfound
      have hplaced := View.on?_of_addresses h d (List.mem_reverse.1 hd)
      rw [Option.bind_some, Option.isSome_map, hplaced]
      exact (List.any_eq_true.2 ⟨d, hd, List.find?_some hfound⟩).symm

/-- Where all imports have addresses, binding puts them into the places of the declarations and
changes nothing else. -/
theorem ofText_bound {address : String → String} {body : String}
    (h : ∀ i ∈ importsOf body, known.get? i.name = some (address i.name)) :
    Utf8.ofText (bound known body) = splice (Utf8.ofText body) 0
      ((declarations body).map fun found =>
        { found with value := Utf8.ofText (found.value.placedText address) }) := by
  have hline : ∀ i ∈ importsOf body, (known.get? i.name).map (Import.explicitText i.name) =
      some (Import.explicitText i.name (address i.name)) := by
    intro i hi
    rw [h i hi, Option.map_some]
  rw [bound, ofText_substituteImports, edits_of_forall hline]

end Executable

namespace View

variable {view : View}

theorem executable_of_addresses (h : addresses view.dependencies network = .ok known) :
    view.executable network =
      match (importsOf view.body).find? fun i => !known.contains i.name with
      | some i => .error (.notPlaced i.name network)
      | none => .ok (bound known view.body) := by
  rw [executable_eq, h]
  rfl

/-- Code can be made exactly if every dependency is placed on the network and every import names a
dependency. Otherwise the first dependency in the way is named, and without one the first import.
The code is the body with each of its declarations, and nothing else, replaced by lines that import
the same contracts from where the last dependencies of their names are placed. -/
theorem executable_outcome (view : View) (network : String) :
    match view.dependencies.find? fun d => (d.on? network).isNone with
    | some d => view.executable network = .error (.notPlaced d.contract network)
    | none =>
      match (importsOf view.body).find? fun i =>
          !view.dependencies.any fun d => d.contract == i.name with
      | some i => view.executable network = .error (.notPlaced i.name network)
      | none => ∃ (address : String → String) (code : String),
          view.executable network = .ok code ∧
          (∀ i ∈ importsOf view.body, Dependency.addressIn? view.dependencies network i.name =
            some (address i.name)) ∧
          Utf8.ofText code = splice (Utf8.ofText view.body) 0
            ((declarations view.body).map fun found =>
              { found with value := Utf8.ofText (found.value.placedText address) }) := by
  split
  next d hd =>
    rw [executable_eq, addresses, foldlM_bind_of_find? hd]
    rfl
  next hnone =>
    have hplaced : ∀ d ∈ view.dependencies, (d.on? network).isSome = true := by
      intro d hd
      exact Option.isSome_iff_ne_none.2 (by simpa using List.find?_eq_none.1 hnone d hd)
    obtain ⟨known, hknown⟩ := exists_addresses hplaced
    simp only [executable_of_addresses hknown, ← contains_addresses hknown]
    split
    next i hi => rfl
    next hall =>
      have hget : ∀ i ∈ importsOf view.body,
          known.get? i.name = some ((known.get? i.name).getD "") := by
        intro i hi
        obtain ⟨address, haddress⟩ := Option.isSome_iff_exists.1
          (by simpa using List.find?_eq_none.1 hall i hi : known.contains i.name = true)
        rw [haddress, Option.getD_some]
      refine ⟨fun name => (known.get? name).getD "", bound known view.body, rfl, ?_,
        ofText_bound hget⟩
      intro i hi
      rw [← get?_addresses hknown]
      exact hget i hi

example : (small "import A, C, B from 0x03").executable "mainnet" =
    .error (.notPlaced "C" "mainnet") := by cbv

end View

end Interaction
