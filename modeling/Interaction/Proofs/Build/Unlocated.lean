import Interaction.Proofs.Build.Formats
import Interaction.Proofs.Source.Unlocated

/-!
# The declarations of a listed body

A listed body is the source with each declaration that spells out an address split into bare ones.
Which declarations are split is told from their imports and not from the way they are written: what
is imported from a file is resolved by name like a bare import, and stays in the body as it is.
-/

namespace Interaction

open Source

namespace Builder

variable {builder : Builder} {conditions : Conditions} {session : Session} {source : String}
  {earlier : Option Template} {t : Template}

/-- The body that is built from an undisturbed source has the declarations of the source, with bare
ones in place of those that spell out an address. So all of them are bare exactly if no declaration
of the source names a file. -/
theorem declarations_body_of_build (hformat : builder.config.format = .listed)
    (hundisturbed : Undisturbed (chunks source.toList))
    (hbuild : (builder.build conditions session source earlier).1 = .ok t) :
    (declarations t.view.body).map Located.value =
        ((declarations source).map Located.value).flatMap Clause.unlocated ∧
      ((∀ found ∈ declarations t.view.body, ∃ name, found.value = .bare name) ↔
        ∀ found ∈ declarations source, ∀ names file, found.value ≠ .filed names file) := by
  have hbody : t.view.body = substituteImports bareLine? source := by
    rw [body_of_build hbuild, hformat]
    rfl
  have hvalues : (declarations t.view.body).map Located.value =
      ((declarations source).map Located.value).flatMap Clause.unlocated := by
    rw [hbody, map_value_declarations_unlocated hundisturbed]
  refine ⟨hvalues, ?_⟩
  calc (∀ found ∈ declarations t.view.body, ∃ name, found.value = .bare name)
      ↔ ∀ clause ∈ (declarations t.view.body).map Located.value, ∃ name, clause = .bare name := by
        rw [List.forall_mem_map]
    _ ↔ ∀ clause ∈ (declarations source).map Located.value,
          ∀ other ∈ clause.unlocated, ∃ name, other = .bare name := by
        rw [hvalues, List.forall_mem_flatMap]
    _ ↔ ∀ found ∈ declarations source, ∀ names file, found.value ≠ .filed names file := by
        simp only [Clause.unlocated_bare_iff, List.forall_mem_map]

/-- A transaction that imports two contracts from one address and then one of them by name. -/
def regrouped : String :=
  "#interaction()\nimport A, B from 0x01 // both\nimport \"A\"\n" ++ idle

def regroupedChunks : List Chunk :=
  [⟨"#interaction()".toList, .pragma []⟩, ⟨"\n".toList, .plain⟩,
    ⟨"import A, B from 0x01".toList, .imports (.located ["A", "B"] "0x01")⟩,
    ⟨" ".toList, .plain⟩, ⟨"// both".toList, .plain⟩, ⟨"\n".toList, .plain⟩,
    ⟨"import \"A\"".toList, .imports (.bare "A")⟩, ⟨"\n".toList, .plain⟩,
    ⟨"transaction ".toList, .entry ⟨.transaction, [], none⟩⟩, ⟨"\x7b".toList, .plain⟩,
    ⟨"\x7d".toList, .plain⟩, ⟨"\n".toList, .plain⟩]

theorem declarations_body_of_build_regrouped : ∃ t,
    (((single "A").inFormat .listed).build {} {} regrouped none).1 = .ok t ∧
    (declarations t.view.body).map Located.value = [.bare "A", .bare "B", .bare "A"] ∧
    ∀ found ∈ declarations t.view.body, ∃ name, found.value = .bare name := by
  let draft : Draft := { mixedDraft .listed with body := Build.body .listed regrouped }
  have hprepare : ((single "A").inFormat .listed).prepare {} regrouped none =
      .ok ([⟨"A", some "0x01"⟩, ⟨"B", some "0x01"⟩], { draft with dependencies := [] }) := by cbv
  have hdependencies : (((single "A").inFormat .listed).dependencies {} {}
      [⟨"A", some "0x01"⟩, ⟨"B", some "0x01"⟩]).run {} = (.ok draft.dependencies, {}) := by cbv
  have hexecutable : ∃ code, (Template.ofDraft draft).view.executable "testnet" = .ok code :=
    ⟨_, by cbv⟩
  obtain ⟨code, hcode⟩ := hexecutable
  obtain ⟨t, ht, -⟩ := exists_build_single hprepare hdependencies hcode
  have hchunks : chunks regrouped.toList = regroupedChunks := by cbv
  have hundisturbed : Undisturbed (chunks regrouped.toList) := by
    rw [hchunks]
    decide +kernel
  have hvalues : (declarations regrouped).map Located.value =
      [.located ["A", "B"] "0x01", .bare "A"] := by
    rw [map_value_declarations, hchunks]
    rfl
  obtain ⟨hread, hbare⟩ := declarations_body_of_build rfl hundisturbed ht
  refine ⟨t, ht, by rw [hread, hvalues]; rfl, hbare.2 ?_⟩
  intro found hfound
  have hmem := List.mem_map_of_mem (f := Located.value) hfound
  rw [hvalues] at hmem
  rintro names file hvalue
  simp [hvalue] at hmem

/-- A transaction that imports a contract from a file. -/
def importsFile : String :=
  "import A from \"./A.cdc\"\n" ++ idle

/-- The body keeps the file, so its one declaration is not bare. -/
theorem declarations_body_of_build_importsFile : ∃ t,
    (((single "A").inFormat .listed).build {} {} importsFile none).1 = .ok t ∧
    (declarations t.view.body).map Located.value = [.filed ["A"] "./A.cdc"] ∧
    ¬ ∀ found ∈ declarations t.view.body, ∃ name, found.value = .bare name := by
  let draft : Draft := { mixedDraft .listed with
    body := Build.body .listed importsFile
    dependencies := [⟨"A", [⟨"testnet", "0x0000000000000002", none⟩]⟩] }
  have hprepare : ((single "A").inFormat .listed).prepare {} importsFile none =
      .ok ([⟨"A", none⟩], { draft with dependencies := [] }) := by cbv
  have hdependencies : (((single "A").inFormat .listed).dependencies {} {} [⟨"A", none⟩]).run {} =
      (.ok draft.dependencies, {}) := by cbv
  have hexecutable : ∃ code, (Template.ofDraft draft).view.executable "testnet" = .ok code :=
    ⟨_, by cbv⟩
  obtain ⟨code, hcode⟩ := hexecutable
  obtain ⟨t, ht, -⟩ := exists_build_single hprepare hdependencies hcode
  have hvalues : (declarations t.view.body).map Located.value = [.filed ["A"] "./A.cdc"] := by
    rw [body_of_build ht]
    cbv
  refine ⟨t, ht, hvalues, fun hbare => ?_⟩
  have hfiled : Clause.filed ["A"] "./A.cdc" ∈ (declarations t.view.body).map Located.value := by
    rw [hvalues]
    exact .head _
  obtain ⟨found, hfound, heq⟩ := List.mem_map.1 hfiled
  obtain ⟨name, hname⟩ := hbare found hfound
  cases heq.symm.trans hname

end Builder

end Interaction
