import Interaction.Proofs.Build.Dependencies
import Interaction.Proofs.Pinning.Identity
import Interaction.Proofs.Source.Header

/-!
# One source in both formats

A source with a header is built into a body with a header in either format, only that a keyed body
names placeholders where a listed one names none. Both are bound to the same addresses, so the code
that runs on a network does not depend on the format.

A placeholder is read back only if it is an address literal, which no name with an underscore has:
a keyed body that imports such a contract is bound to something else.
-/

namespace Interaction

open Source

variable {clauses : List Clause} {rest network : String}

/-- The upper case of an ASCII letter or digit is one too. -/
theorem Text.isAlphanum_of_mem_capitals {c d : Char} (hc : c.isAlphanum = true)
    (hd : d ∈ capitals c) : d.isAlphanum = true := by
  have hcode : c.toNat < 0x80 :=
    forall_isAlphanum (P := fun c => c.toNat < 0x80) (by decide) c hc
  rw [capitals, if_pos hcode, List.mem_singleton] at hd
  rw [hd]
  exact forall_isAlphanum (P := fun c => c.toUpper.isAlphanum = true) (by decide) c hc

/-- The placeholder of a word without underscores is an address literal. -/
theorem isAddress_placeholder {name : String} (h : IsWord name.toList)
    (hplain : '_' ∉ name.toList) : IsAddress (placeholder name).toList := by
  have hname : ∀ c ∈ name.toList, c.isAlphanum = true := by
    intro c hc
    have hword := h.isWordChar c hc
    rw [isWordChar, Bool.or_eq_true, beq_iff_eq] at hword
    exact hword.resolve_right fun hunderscore => hplain (hunderscore ▸ hc)
  have htext : (placeholder name).toList =
      '0' :: 'x' :: (name.toList.flatMap Text.capitals ++ ['A', 'D', 'D', 'R', 'E', 'S', 'S']) := by
    simp [placeholder, Text.uppercase]
  rw [htext]
  refine ⟨rfl, List.append_ne_nil_of_right_ne_nil _ (by decide), ?_⟩
  intro c hc
  rcases List.mem_append.1 hc with hc | hc
  · obtain ⟨d, hd, hc⟩ := List.mem_flatMap.1 hc
    exact Text.isAlphanum_of_mem_capitals (hname d hd) hc
  · have hsuffix : ['A', 'D', 'D', 'R', 'E', 'S', 'S'].all Char.isAlphanum = true := by decide
    exact List.all_eq_true.1 hsuffix c hc

namespace Build

/-- A listed body spells out no addresses. -/
theorem body_listed_headed (h : ∀ clause ∈ clauses, clause.IsWritable)
    (hrest : importsOf rest = []) :
    body .listed (headed (clauses.map Clause.text) rest) =
      headed ((clauses.flatMap Clause.unlocated).map Clause.text) rest := by
  have hrewritten : ∀ clause ∈ clauses, clause.rewritten
      (fun i => if i.isExplicit then some (Import.bareText i.name) else none) =
        clause.unlocated.map Clause.text := by
    intro clause hclause
    cases clause with
    | bare name => rfl
    | located names address =>
        have hne : names ≠ [] := (h _ hclause).1
        obtain ⟨name, more, rfl⟩ := List.exists_cons_of_ne_nil hne
        simp [Clause.rewritten, Clause.isReplaced, Clause.imports, Clause.unlocated,
          Import.isExplicit, Clause.text, Function.comp_def]
    | filed names file =>
        simp [Clause.rewritten, Clause.isReplaced, Clause.imports, Clause.unlocated,
          Import.isExplicit]
  rw [body, substituteImports_headed h, substituteImports_of_importsOf_eq_nil hrest,
    List.map_flatMap, List.flatMap_congr hrewritten]

/-- A keyed body imports each contract from its placeholder. -/
theorem body_keyed_headed (h : ∀ clause ∈ clauses, clause.IsWritable)
    (hrest : importsOf rest = []) :
    body .keyed (headed (clauses.map Clause.text) rest) =
      headed (((clauses.flatMap Clause.imports).map fun i =>
        Clause.located [i.name] (placeholder i.name)).map Clause.text) rest := by
  rw [body, substituteImports_headed_of_some h (fun _ _ => rfl) hrest, List.map_map]
  exact congrArg (headed · rest) (List.map_congr_left fun i _ =>
    (Clause.text_located_singleton i.name (placeholder i.name)).symm)

/-- A body has a header in place of that of its source, which imports the same contracts. -/
theorem exists_body_headed (format : Format) (h : ∀ clause ∈ clauses, clause.IsWritable)
    (hrest : importsOf rest = [])
    (hplain : format = .keyed → ∀ i ∈ clauses.flatMap Clause.imports, '_' ∉ i.name.toList) :
    ∃ stored : List Clause, (∀ clause ∈ stored, clause.IsWritable) ∧
      (stored.flatMap Clause.imports).map Import.name =
        (clauses.flatMap Clause.imports).map Import.name ∧
      body format (headed (clauses.map Clause.text) rest) =
        headed (stored.map Clause.text) rest := by
  cases format with
  | listed =>
      refine ⟨clauses.flatMap Clause.unlocated, ?_, ?_, body_listed_headed h hrest⟩
      · intro other hother
        obtain ⟨clause, hclause, hother⟩ := List.mem_flatMap.1 hother
        exact Clause.isWritable_unlocated (h clause hclause) other hother
      · rw [List.flatMap_assoc, List.map_flatMap, List.map_flatMap]
        exact List.flatMap_congr fun clause _ => Clause.names_unlocated clause
  | keyed =>
      refine ⟨_, ?_, ?_, body_keyed_headed h hrest⟩
      · intro other hother
        obtain ⟨i, hi, rfl⟩ := List.mem_map.1 hother
        obtain ⟨clause, hclause, hmem⟩ := List.mem_flatMap.1 hi
        have hword := (h clause hclause).isWord hmem
        exact ⟨List.cons_ne_nil _ _, List.forall_mem_singleton.2 hword,
          isAddress_placeholder hword (hplain rfl i hi)⟩
      · rw [List.flatMap_map, List.map_flatMap, List.map_eq_flatMap]
        rfl

end Build

namespace View

variable {view : View}

/-- A body with a header is bound line by line. -/
theorem executable_headed {address : String → String}
    (hbody : view.body = headed (clauses.map Clause.text) rest)
    (h : ∀ clause ∈ clauses, clause.IsWritable) (hrest : importsOf rest = [])
    (hplaced : ∀ d ∈ view.dependencies, (d.on? network).isSome = true)
    (haddress : ∀ i ∈ clauses.flatMap Clause.imports,
      Dependency.addressIn? view.dependencies network i.name = some (address i.name)) :
    view.executable network = .ok (headed ((clauses.flatMap Clause.imports).map fun i =>
      Import.explicitText i.name (address i.name)) rest) := by
  obtain ⟨known, hknown⟩ := exists_addresses hplaced
  have hget : ∀ i ∈ clauses.flatMap Clause.imports, known.get? i.name = some (address i.name) := by
    intro i hi
    rw [Executable.get?_addresses hknown, haddress i hi]
  have hnone : (importsOf view.body).find? (fun i => !known.contains i.name) = none := by
    rw [hbody, importsOf_headed_of_eq_nil h hrest, List.find?_eq_none]
    intro i hi
    rw [Table.contains_of_get? (hget i hi)]
    decide
  have hline : ∀ i ∈ clauses.flatMap Clause.imports,
      (known.get? i.name).map (Import.explicitText i.name) =
        some (Import.explicitText i.name (address i.name)) := by
    intro i hi
    rw [hget i hi, Option.map_some]
  rw [executable_eq]
  refine bind_eq_ok_iff.2 ⟨known, hknown, ?_⟩
  rw [hnone, ← substituteImports_headed_of_some h hline hrest, ← hbody]
  rfl

end View

namespace Builder

variable {builder : Builder} {conditions conditions' : Conditions} {session session' now : Session}
  {source : String} {earlier earlier' : Option Template} {t keyed listed : Template}

/-- The builder with another format for its templates. -/
def inFormat (builder : Builder) (format : Format) : Builder :=
  { builder with config := { builder.config with format := format } }

/-- Where a builder places a contract of some imports, of which the first of each name counts. -/
def addressOf? (builder : Builder) (imports : List Import) (name network : String) :
    Option String := do
  let i ← imports.find? (·.name == name)
  let places ← (builder.registry.resolveAll i builder.config.networks).toOption
  (places.find? (·.network == network)).map Resolved.address

/-- The dependencies of a build have the names of the imports, each with the addresses of its
first import. -/
theorem placedAt_of_dependencies {dependencies : List Dependency}
    (h : (builder.dependencies conditions now (Import.distinct (importsOf source))).Reaches
      (.ok dependencies)) :
    Dependency.PlacedAt ((importsOf source).map Import.name) (builder.addressOf? (importsOf source))
        dependencies ∧ ∀ d ∈ dependencies, d.IsDefinite := by
  obtain ⟨places, pinned, -, -, hall⟩ := of_dependencies h
  have hof : ∀ d ∈ dependencies, ∃ i ∈ Import.distinct (importsOf source), ∃ found,
      builder.registry.resolveAll i builder.config.networks = .ok found ∧
        d = ⟨i.name, found.map (placement (Table.ofList pinned))⟩ := by
    intro d hd
    obtain ⟨i, hi, found, -, hfound⟩ := exists_of_mem_right hall hd
    exact ⟨i, hi, found, hfound⟩
  refine ⟨⟨?_, ?_⟩, ?_⟩
  · intro name
    rw [contracts_of_dependencies h, (Import.keepsFirst_distinct (importsOf source)).names,
      List.mem_eraseDups]
  · intro d hd network
    obtain ⟨i, hi, found, hfound, rfl⟩ := hof d hd
    rw [addressOf?, Import.find?_of_mem_distinct hi, Dependency.addressOn?, Dependency.on?,
      List.find?_map, Option.map_map]
    change _ = (builder.registry.resolveAll i builder.config.networks).toOption.bind fun places =>
      (places.find? (·.network == network)).map Resolved.address
    rw [hfound]
    rfl
  · intro d hd p hp q hq hnetwork
    obtain ⟨i, hi, found, hfound, rfl⟩ := hof d hd
    obtain ⟨place, hplace, rfl⟩ := List.mem_map.1 hp
    obtain ⟨place', hplace', rfl⟩ := List.mem_map.1 hq
    exact Registry.address_eq_of_mem_resolveAll hfound hplace hplace' hnetwork

/-- A template that was built places the contracts of its source where its builder does. -/
theorem placedAt_of_build (h : (builder.build conditions session source earlier).1 = .ok t) :
    Dependency.PlacedAt ((importsOf source).map Import.name)
      (builder.addressOf? (importsOf source)) t.view.dependencies := by
  obtain ⟨draft, -, -, hreaches, -, hview⟩ := view_of_build h
  obtain ⟨hplaced, hdefinite⟩ := placedAt_of_dependencies hreaches
  rw [hview, Template.ofDraft]
  cases draft.format with
  | keyed => exact Keyed.placedAt_ofDraft hplaced hdefinite
  | listed => exact Listed.placedAt_ofDraft hplaced

/-- The body of a template that was built. -/
theorem body_of_build (h : (builder.build conditions session source earlier).1 = .ok t) :
    t.view.body = Build.body builder.config.format source := by
  obtain ⟨draft, -, hbody, -, hview, -⟩ := view_of_build h
  rw [hview, ← hbody, Template.ofDraft]
  cases draft.format <;> rfl

/-- The code of a template that was built from a source with a header: each contract is imported on
a line of its own from where the builder places it. -/
theorem executable_of_build (h : ∀ clause ∈ clauses, clause.IsWritable)
    (hrest : importsOf rest = [])
    (hplain : builder.config.format = .keyed →
      ∀ i ∈ clauses.flatMap Clause.imports, '_' ∉ i.name.toList)
    (hbuild : (builder.build conditions session (headed (clauses.map Clause.text) rest) earlier).1 =
      .ok t)
    {address : String → String}
    (haddress : ∀ i ∈ clauses.flatMap Clause.imports,
      builder.addressOf? (clauses.flatMap Clause.imports) i.name network = some (address i.name)) :
    t.view.executable network = .ok (headed ((clauses.flatMap Clause.imports).map fun i =>
      Import.explicitText i.name (address i.name)) rest) := by
  have hplaced := placedAt_of_build hbuild
  rw [importsOf_headed_of_eq_nil h hrest] at hplaced
  have hknown : ∀ name ∈ (clauses.flatMap Clause.imports).map Import.name,
      builder.addressOf? (clauses.flatMap Clause.imports) name network = some (address name) :=
    List.forall_mem_map.2 haddress
  have hon : ∀ d ∈ t.view.dependencies, (d.on? network).isSome = true := by
    refine hplaced.isSome_on?_iff.2 fun name hname => ?_
    rw [hknown name hname, Option.isSome_some]
  obtain ⟨stored, hstored, hnames, hbody⟩ :=
    Build.exists_body_headed builder.config.format h hrest hplain
  have hstoredAddress : ∀ i ∈ stored.flatMap Clause.imports,
      Dependency.addressIn? t.view.dependencies network i.name = some (address i.name) := by
    intro i hi
    have hname : i.name ∈ (clauses.flatMap Clause.imports).map Import.name :=
      hnames ▸ List.mem_map_of_mem hi
    exact (hplaced.addressIn? hname).trans (hknown i.name hname)
  have hlines : (stored.flatMap Clause.imports).map
      (fun i => Import.explicitText i.name (address i.name)) =
        (clauses.flatMap Clause.imports).map fun i =>
          Import.explicitText i.name (address i.name) := by
    have hmap := congrArg (List.map fun name => Import.explicitText name (address name)) hnames
    rwa [List.map_map, List.map_map] at hmap
  rw [View.executable_headed ((body_of_build hbuild).trans hbody) hstored hrest hon
    hstoredAddress, hlines]

/-- A source with a header that is built in both formats runs as the same code on each network
where its dependencies are placed, if no contract has an underscore in its name: each contract is
imported on a line of its own from its address, and the text after the header follows. -/
theorem executable_inFormat (h : ∀ clause ∈ clauses, clause.IsWritable)
    (hrest : importsOf rest = [])
    (hplain : ∀ i ∈ clauses.flatMap Clause.imports, '_' ∉ i.name.toList)
    (hkeyed : ((builder.inFormat .keyed).build conditions session
      (headed (clauses.map Clause.text) rest) earlier).1 = .ok keyed)
    (hlisted : ((builder.inFormat .listed).build conditions' session'
      (headed (clauses.map Clause.text) rest) earlier').1 = .ok listed)
    (hplaced : ∀ d ∈ listed.view.dependencies, (d.on? network).isSome = true) :
    ∃ address : String → String,
      (∀ i ∈ clauses.flatMap Clause.imports,
        Dependency.addressIn? keyed.view.dependencies network i.name = some (address i.name) ∧
        Dependency.addressIn? listed.view.dependencies network i.name = some (address i.name)) ∧
      keyed.view.executable network = .ok (headed ((clauses.flatMap Clause.imports).map fun i =>
        Import.explicitText i.name (address i.name)) rest) ∧
      listed.view.executable network = .ok (headed ((clauses.flatMap Clause.imports).map fun i =>
        Import.explicitText i.name (address i.name)) rest) ∧
      keyed.view.networkPin network = listed.view.networkPin network := by
  have himports := importsOf_headed_of_eq_nil h hrest
  have hkeyedAt := placedAt_of_build hkeyed
  have hlistedAt := placedAt_of_build hlisted
  rw [himports] at hkeyedAt hlistedAt
  -- where the builder places a contract does not depend on the format
  let address (name : String) : String :=
    (builder.addressOf? (clauses.flatMap Clause.imports) name network).getD ""
  have haddress : ∀ i ∈ clauses.flatMap Clause.imports,
      builder.addressOf? (clauses.flatMap Clause.imports) i.name network =
        some (address i.name) := by
    intro i hi
    obtain ⟨found, hfound⟩ := Option.isSome_iff_exists.1
      (hlistedAt.isSome_on?_iff.1 hplaced i.name (List.mem_map_of_mem hi))
    change builder.addressOf? _ _ _ = some found at hfound
    rw [hfound, Option.some.injEq]
    exact (congrArg (Option.getD · "") hfound).symm
  have hkeyedCode := executable_of_build h hrest (fun _ => hplain) hkeyed haddress
  have hlistedCode := executable_of_build h hrest
    (fun hformat : Format.listed = .keyed => nomatch hformat) hlisted haddress
  refine ⟨address, ?_, hkeyedCode, hlistedCode, ?_⟩
  · intro i hi
    have hname := List.mem_map_of_mem (f := Import.name) hi
    exact ⟨(hkeyedAt.addressIn? hname).trans (haddress i hi),
      (hlistedAt.addressIn? hname).trans (haddress i hi)⟩
  · rw [View.networkPin, View.networkPin, hkeyedCode, hlistedCode]

/-- A builder for one network whose registry has one contract. -/
def single (name : String) : Builder where
  config := { networks := ["testnet"] }
  registry := Registry.empty.apply (.place name "testnet" "0x02")

/-- Declarations of every form, which name two contracts twice. -/
def mixed : List Clause :=
  [.located ["A", "B"] "0x01", .bare "A", .filed ["B"] "b"]

/-- A transaction that does nothing. -/
def idle : String := "transaction \x7b\x7d\n"

/-- What is made of the declarations and the transaction. The registry has one of the contracts,
the other stands where it is first imported from. -/
def mixedDraft (format : Format) : Draft where
  format := format
  kind := some .transaction
  body := Build.body format (headed (mixed.map Clause.text) idle)
  dependencies :=
    [⟨"A", [⟨"testnet", "0x0000000000000002", none⟩]⟩,
      ⟨"B", [⟨"testnet", "0x0000000000000001", none⟩]⟩]

/-- What is built from a draft with the code that its one network runs. -/
theorem exists_build_single {name source code : String} {format : Format} {imports : List Import}
    {draft : Draft}
    (hprepare : ((single name).inFormat format).prepare {} source none =
      .ok (imports, { draft with dependencies := [] }))
    (hdependencies : (((single name).inFormat format).dependencies {} {} imports).run {} =
      (.ok draft.dependencies, {}))
    (hexecutable : (Template.ofDraft draft).view.executable "testnet" = .ok code) :
    ∃ t, (((single name).inFormat format).build {} {} source none).1 = .ok t ∧
      t.view.executable "testnet" = .ok code := by
  obtain ⟨t, ht⟩ : ∃ t, ((single name).inFormat format).finish {} draft = .ok t := by
    refine exists_finish rfl ?_
    intro n hn
    have hnetwork : n = "testnet" := List.mem_singleton.1 hn
    rw [hnetwork]
    exact ⟨code, hexecutable⟩
  obtain ⟨hbody, hview⟩ := view_of_finish ht
  refine ⟨t, by rw [build_of_run hprepare hdependencies ht], ?_⟩
  rw [← hexecutable, View.executable, View.executable, hbody, hview]

theorem exists_build_mixed (format : Format) : ∃ t, (((single "A").inFormat format).build {} {}
    (headed (mixed.map Clause.text) idle) none).1 = .ok t := by
  have hprepare : ((single "A").inFormat format).prepare {} (headed (mixed.map Clause.text) idle)
      none = .ok ([⟨"A", some "0x01"⟩, ⟨"B", some "0x01"⟩],
        { mixedDraft format with dependencies := [] }) := by
    cases format <;> cbv
  have hdependencies : (((single "A").inFormat format).dependencies {} {}
      [⟨"A", some "0x01"⟩, ⟨"B", some "0x01"⟩]).run {} =
        (.ok (mixedDraft format).dependencies, {}) := by
    cases format <;> cbv
  have hexecutable : (Template.ofDraft (mixedDraft format)).view.executable "testnet" =
      .ok (headed ["import A from 0x0000000000000002", "import B from 0x0000000000000001",
        "import A from 0x0000000000000002", "import B from 0x0000000000000001"] idle) := by
    cases format <;> cbv
  obtain ⟨t, ht, -⟩ := exists_build_single hprepare hdependencies hexecutable
  exact ⟨t, ht⟩

theorem executable_inFormat_mixed : ∃ keyed listed code,
    (((single "A").inFormat .keyed).build {} {} (headed (mixed.map Clause.text) idle) none).1 =
      .ok keyed ∧
    (((single "A").inFormat .listed).build {} {} (headed (mixed.map Clause.text) idle) none).1 =
      .ok listed ∧
    keyed.view.executable "testnet" = .ok code ∧ listed.view.executable "testnet" = .ok code ∧
    keyed.view.networkPin "testnet" = listed.view.networkPin "testnet" := by
  obtain ⟨keyed, hkeyed⟩ := exists_build_mixed .keyed
  obtain ⟨listed, hlisted⟩ := exists_build_mixed .listed
  have hwritable : ∀ clause ∈ mixed, clause.IsWritable := by decide +kernel
  have hidle : importsOf idle = [] := by cbv
  have hplain : ∀ i ∈ mixed.flatMap Clause.imports, '_' ∉ i.name.toList := by decide +kernel
  have hplaced : ∀ d ∈ listed.view.dependencies, (d.on? "testnet").isSome = true := by
    refine (placedAt_of_build hlisted).isSome_on?_iff.2 ?_
    rw [importsOf_headed_of_eq_nil hwritable hidle]
    decide +kernel
  obtain ⟨address, -, hkeyedCode, hlistedCode, hpins⟩ :=
    executable_inFormat hwritable hidle hplain hkeyed hlisted hplaced
  exact ⟨keyed, listed, _, hkeyed, hlisted, hkeyedCode, hlistedCode, hpins⟩

/-- What is made of a transaction that imports a contract with an underscore in its name. -/
def underscoredDraft (format : Format) : Draft where
  format := format
  kind := some .transaction
  body := Build.body format (headed ([Clause.bare "A_B"].map Clause.text) idle)
  dependencies := [⟨"A_B", [⟨"testnet", "0x0000000000000002", none⟩]⟩]

theorem exists_build_underscored (format : Format) : ∃ t,
    (((single "A_B").inFormat format).build {} {}
      (headed ([Clause.bare "A_B"].map Clause.text) idle) none).1 = .ok t ∧
      t.view.executable "testnet" = .ok (match format with
        | .keyed => headed ["import A_B from 0x0000000000000002_BADDRESS"] idle
        | .listed => headed ["import A_B from 0x0000000000000002"] idle) := by
  have hprepare : ((single "A_B").inFormat format).prepare {}
      (headed ([Clause.bare "A_B"].map Clause.text) idle) none =
        .ok ([⟨"A_B", none⟩], { underscoredDraft format with dependencies := [] }) := by
    cases format <;> cbv
  have hdependencies : (((single "A_B").inFormat format).dependencies {} {}
      [⟨"A_B", none⟩]).run {} = (.ok (underscoredDraft format).dependencies, {}) := by
    cases format <;> cbv
  refine exists_build_single hprepare hdependencies ?_
  cases format <;> cbv

/-- The placeholder of `A_B` is read up to the underscore, so that what comes after it stays behind
the address in the code of the keyed template. -/
theorem executable_inFormat_underscored : ∃ keyed listed,
    (∀ clause ∈ [Clause.bare "A_B"], clause.IsWritable) ∧ importsOf idle = [] ∧
    (((single "A_B").inFormat .keyed).build {} {}
      (headed ([Clause.bare "A_B"].map Clause.text) idle) none).1 = .ok keyed ∧
    (((single "A_B").inFormat .listed).build {} {}
      (headed ([Clause.bare "A_B"].map Clause.text) idle) none).1 = .ok listed ∧
    (∀ d ∈ listed.view.dependencies, (d.on? "testnet").isSome = true) ∧
    keyed.view.executable "testnet" ≠ listed.view.executable "testnet" := by
  obtain ⟨keyed, hkeyed, hkeyedCode⟩ := exists_build_underscored .keyed
  obtain ⟨listed, hlisted, hlistedCode⟩ := exists_build_underscored .listed
  obtain ⟨known, hknown, -⟩ := View.executable_eq_ok hlistedCode
  refine ⟨keyed, listed, List.forall_mem_singleton.2 (by decide), by cbv, hkeyed, hlisted,
    View.on?_of_addresses hknown, ?_⟩
  rw [hkeyedCode, hlistedCode]
  decide +kernel

end Builder

end Interaction
