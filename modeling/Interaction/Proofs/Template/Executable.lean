import Interaction.Proofs.Source.Record
import Interaction.Proofs.Traversal
import Interaction.Template.Executable
import Mathlib

/-!
# What executable code imports

The code that runs on a network is text that is scanned again where it runs. If the body of a
template is steady, the imports found in the code are those of the body, in their order, each at
the address of its dependency on that network. For other bodies this can fail: an address that is
written right before a letter or a digit goes on with it.
-/

namespace Interaction

open Source Executable

variable {network : String} {dependencies : List Dependency} {known : Table String}

/-- The address of a contract on a network; of two dependencies with one name the later counts. -/
def Dependency.addressIn? (dependencies : List Dependency) (network name : String) :
    Option String :=
  (dependencies.findRev? fun d => d.contract == name).bind fun d =>
    (d.on? network).map Placement.address

/-- An address of a contract is that of a placement of a dependency with its name. -/
theorem Dependency.exists_of_addressIn? {name address : String}
    (h : addressIn? dependencies network name = some address) :
    ∃ d ∈ dependencies, d.contract = name ∧ ∃ p ∈ d.placements, p.address = address := by
  obtain ⟨d, hd, h⟩ := Option.bind_eq_some_iff.1 h
  obtain ⟨p, hp, rfl⟩ := Option.map_eq_some_iff.1 h
  rw [List.findRev?_eq_find?_reverse] at hd
  exact ⟨d, List.mem_reverse.1 (List.mem_of_find?_eq_some hd), eq_of_beq (List.find?_some hd :), p,
    List.mem_of_find?_eq_some hp, rfl⟩

namespace Executable

theorem bind_eq_ok {start next : Table String} {d : Dependency}
    (h : bind network start d = .ok next) :
    ∃ placement, d.on? network = some placement ∧
      next = start.insert d.contract placement.address := by
  unfold bind at h
  split at h
  next placement hplaced =>
    cases h
    exact ⟨placement, hplaced, rfl⟩
  next => cases h

/-- The table of addresses says what the dependencies say, by induction from the last of them. -/
theorem get?_addresses (h : addresses dependencies network = .ok known) (name : String) :
    known.get? name = Dependency.addressIn? dependencies network name := by
  induction dependencies using List.reverseRecOn generalizing known with
  | nil =>
      cases h
      rfl
  | append_singleton ds d ih =>
      rw [addresses, List.foldlM_append] at h
      obtain ⟨before, hbefore, h⟩ := bind_eq_ok_iff.1 h
      obtain ⟨after, hafter, he⟩ := bind_eq_ok_iff.1 h
      cases he
      obtain ⟨placement, hplaced, rfl⟩ := bind_eq_ok hafter
      rw [Table.get?_insert, ih hbefore, Dependency.addressIn?, Dependency.addressIn?,
        List.findRev?_eq_find?_reverse, List.findRev?_eq_find?_reverse, List.reverse_append,
        List.reverse_singleton, List.singleton_append, List.find?_cons]
      by_cases hname : d.contract = name
      · rw [if_pos hname, beq_iff_eq.2 hname, Option.bind_some, hplaced, Option.map_some]
      · rw [if_neg hname, beq_false_of_ne hname]

/-- The body with every import bound to its address. -/
def bound (known : Table String) (body : String) : String :=
  substituteImports (fun i => (known.get? i.name).map (Import.explicitText i.name)) body

theorem run_lookUp (known : Table String) (i : Import) (noted : Option String) :
    (lookUp known i).run noted = ((known.get? i.name).map (Import.explicitText i.name),
      if known.contains i.name then noted else noted.or (some i.name)) := by
  rw [lookUp, Table.contains]
  cases known.get? i.name <;> rfl

/-- Of all names that are noted one after another the first one stays. -/
theorem foldl_noted (known : Table String) (imports : List Import) (noted : Option String) :
    imports.foldl (fun noted i => if known.contains i.name then noted else
      noted.or (some i.name)) noted =
        noted.or ((imports.find? fun i => !known.contains i.name).map Import.name) := by
  induction imports generalizing noted with
  | nil => exact Option.or_none.symm
  | cons i more ih =>
      rw [List.foldl_cons, ih, List.find?_cons]
      cases known.contains i.name with
      | true => rfl
      | false => cases noted <;> rfl

/-- What is noted while a body is rewritten is its first import without an address. -/
theorem rewrite_eq (known : Table String) (body : String) :
    rewrite known body = (bound known body,
      ((importsOf body).find? fun i => !known.contains i.name).map Import.name) := by
  rw [rewrite, run_substituteImportsM (run_lookUp known), foldl_noted, Option.none_or]
  rfl

end Executable

namespace View

variable {view : View} {code : String}

/-- An import without an address is in the way, and without any the body is bound. -/
theorem executable_eq (view : View) (network : String) : view.executable network = (do
    let known ← addresses view.dependencies network
    match (importsOf view.body).find? fun i => !known.contains i.name with
    | some i => throw (.notPlaced i.name network)
    | none => return bound known view.body) := by
  simp only [executable, rewrite_eq]
  congr 1
  funext known
  cases (importsOf view.body).find? fun i => !known.contains i.name <;> rfl

theorem executable_eq_ok (h : view.executable network = .ok code) :
    ∃ known, addresses view.dependencies network = .ok known ∧
      (∀ i ∈ importsOf view.body, known.contains i.name = true) ∧ code = bound known view.body := by
  rw [executable_eq] at h
  obtain ⟨known, hknown, h⟩ := bind_eq_ok_iff.1 h
  split at h
  next => cases h
  next hnone =>
    cases h
    refine ⟨known, hknown, ?_, rfl⟩
    intro i hi
    simpa using List.find?_eq_none.1 hnone i hi

/-- The imports of the code that runs on a network are those of the body, in their order, each at
the address of its dependency. -/
theorem importsOf_executable
    (hnames : ∀ d ∈ view.dependencies, IsWord d.contract.toList)
    (haddresses : ∀ d ∈ view.dependencies, ∀ p ∈ d.placements, IsAddress p.address.toList)
    (hsteady : Steady (chunks view.body.toList)) (h : view.executable network = .ok code) :
    importsOf code = (importsOf view.body).map (fun i =>
        { i with address := Dependency.addressIn? view.dependencies network i.name }) ∧
      ∀ i ∈ importsOf code, i.isExplicit = true := by
  obtain ⟨known, hknown, hcontains, rfl⟩ := executable_eq_ok h
  have haddress : ∀ i ∈ importsOf view.body, ∃ address, known.get? i.name = some address ∧
      IsWord i.name.toList ∧ IsAddress address.toList := by
    intro i hi
    obtain ⟨address, hfound⟩ := Option.isSome_iff_exists.1 (hcontains i hi)
    have hplaced := hfound
    rw [get?_addresses hknown] at hplaced
    obtain ⟨d, hd, hname, p, hp, rfl⟩ := Dependency.exists_of_addressIn? hplaced
    exact ⟨p.address, hfound, hname ▸ hnames d hd, haddresses d hd p hp⟩
  have hrewritten : Rewritten (fun i => (known.get? i.name).map (Import.explicitText i.name))
      (fun name => (known.get? name).getD "") (importsOf view.body) := by
    intro i hi
    obtain ⟨address, hfound, hname, hliteral⟩ := haddress i hi
    refine ⟨?_, hname, ?_⟩
    · change (known.get? i.name).map _ =
        some (Import.explicitText i.name ((known.get? i.name).getD ""))
      rw [hfound]
      rfl
    · change IsAddress ((known.get? i.name).getD "").toList
      rwa [hfound, Option.getD_some]
  have hread : importsOf (bound known view.body) = (importsOf view.body).map (fun i =>
      { i with address := Dependency.addressIn? view.dependencies network i.name }) := by
    rw [bound, importsOf_substituteImports hsteady hrewritten]
    refine List.map_congr_left fun i hi => ?_
    obtain ⟨address, hfound, -⟩ := haddress i hi
    rw [Import.placed, hfound, ← get?_addresses hknown, hfound]
    rfl
  refine ⟨hread, ?_⟩
  intro i hi
  rw [hread] at hi
  obtain ⟨j, hj, rfl⟩ := List.mem_map.1 hi
  obtain ⟨address, hfound, -⟩ := haddress j hj
  rw [Import.isExplicit, ← get?_addresses hknown, hfound, Option.isSome_some]

/-- A view of a body on one network, with the dependencies it imports. -/
def small (body : String) : View where
  format := .listed
  id := ""
  kind := none
  interface := ""
  messages := []
  body := body
  parameters := []
  output := none
  dependencies := [⟨"A", [⟨"mainnet", "0x01", none⟩]⟩, ⟨"B", [⟨"mainnet", "0x02", none⟩]⟩]
  networkPins := []

theorem isWord_small (body : String) :
    ∀ d ∈ (small body).dependencies, IsWord d.contract.toList :=
  List.forall_mem_cons.2 ⟨by decide, List.forall_mem_singleton.2 (by decide)⟩

theorem isAddress_small (body : String) :
    ∀ d ∈ (small body).dependencies, ∀ p ∈ d.placements, IsAddress p.address.toList :=
  List.forall_mem_cons.2 ⟨List.forall_mem_singleton.2 (by decide),
    List.forall_mem_singleton.2 (List.forall_mem_singleton.2 (by decide))⟩

/-- A body whose declarations stand apart, behind a pragma. -/
def apart : String := "#interaction()\nimport \"A\" // a\nimport B from \"b\"\n"

def apartChunks : List Chunk :=
  [⟨"#interaction()".toList, .pragma []⟩, ⟨"\n".toList, .plain⟩,
    ⟨"import \"A\"".toList, .imports (.bare "A")⟩, ⟨" ".toList, .plain⟩, ⟨"// a".toList, .plain⟩,
    ⟨"\n".toList, .plain⟩, ⟨"import B from \"b\"".toList, .imports (.filed ["B"] "b")⟩,
    ⟨"\n".toList, .plain⟩]

theorem importsOf_executable_apart :
    ∃ code, (small apart).executable "mainnet" = .ok code ∧
      importsOf code = [⟨"A", some "0x01"⟩, ⟨"B", some "0x02"⟩] := by
  have hcode : (small apart).executable "mainnet" =
      .ok "#interaction()\nimport A from 0x01 // a\nimport B from 0x02\n" := by cbv
  have hchunks : chunks apart.toList = apartChunks := by cbv
  have hsteady : Steady (chunks apart.toList) := by
    rw [hchunks]
    decide +kernel
  obtain ⟨hread, -⟩ := importsOf_executable (isWord_small _) (isAddress_small _) hsteady hcode
  have himports : importsOf apart = [⟨"A", none⟩, ⟨"B", none⟩] := by
    rw [importsOf_eq, hchunks]
    rfl
  refine ⟨_, hcode, ?_⟩
  rw [hread]
  change (importsOf apart).map _ = _
  rw [himports]
  rfl

/-- A body whose declarations have nothing between them. -/
def joined : String := "import \"A\"import \"B\""

/-- Two declarations with nothing between them become one: the second is read as more of the
address of the first. -/
theorem importsOf_executable_joined :
    (∀ d ∈ (small joined).dependencies, IsWord d.contract.toList) ∧
      (∀ d ∈ (small joined).dependencies, ∀ p ∈ d.placements, IsAddress p.address.toList) ∧
      importsOf joined = [⟨"A", none⟩, ⟨"B", none⟩] ∧
      ∃ code, (small joined).executable "mainnet" = .ok code ∧
        importsOf code = [⟨"A", some "0x01import"⟩] := by
  have himports : importsOf joined = [⟨"A", none⟩, ⟨"B", none⟩] := by cbv
  have hcode : (small joined).executable "mainnet" =
      .ok "import A from 0x01import B from 0x02" := by cbv
  have hread : importsOf "import A from 0x01import B from 0x02" =
      [⟨"A", some "0x01import"⟩] := by cbv
  exact ⟨isWord_small _, isAddress_small _, himports, _, hcode, hread⟩

end View

end Interaction
