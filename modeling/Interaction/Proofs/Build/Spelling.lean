import Interaction.Proofs.Build.Dependencies
import Interaction.Proofs.Source.Header

/-!
# How an import is spelled

The registry places a contract that it knows wherever an import says it comes from. A template
keeps nothing else of what a source spells out: the body writes every import anew, and what is read
of the text after a declaration does not depend on how long the declaration is. So a declaration of
a known contract may spell out any address, or none, and the same is built.
-/

namespace Interaction

open Source

/-! ### A declaration of one import -/

theorem Source.IsAddress.isAlphanum {s : List Char} (h : IsAddress s) :
    ∀ c ∈ s, c.isAlphanum = true := by
  obtain ⟨first, more, rfl, hfirst, hmore⟩ := h.exists_cons
  simp only [List.forall_mem_cons]
  exact ⟨by decide, by decide, hfirst, hmore⟩

/-- The declaration of an import on its own. -/
def Import.clause (i : Import) : Clause :=
  match i.address with
  | none => .bare i.name
  | some address => .located [i.name] address

theorem Import.text_clause (i : Import) : i.clause.text = i.text := by
  obtain ⟨name, _ | address⟩ := i
  · rfl
  · exact Clause.text_located_singleton name address

theorem Import.imports_clause (i : Import) : i.clause.imports = [i] := by
  obtain ⟨name, _ | address⟩ := i <;> rfl

/-- An import is written on one line. -/
theorem Import.count_text {i : Import} (h : i.clause.IsWritable) : i.text.toList.count '\n' = 0 := by
  have hword : IsWord i.name.toList := h.isWord (by rw [Import.imports_clause]; exact .head _)
  have hname : '\n' ∉ i.name.toList := fun hmem => absurd (hword.isWordChar _ hmem) (by decide)
  rw [List.count_eq_zero]
  obtain ⟨name, _ | address⟩ := i
  · simpa [text, bareText] using hname
  · have haddress : '\n' ∉ address.toList := fun hmem =>
      absurd (h.2.2.isAlphanum _ hmem) (by decide)
    simpa [text, explicitText, haddress] using hname

namespace Source.Program

variable {p q : Program}

/-- What is declared apart from the imports. -/
def undeclared (program : Program) : Program :=
  { program with declarations := [] }

theorem kind_undeclared (program : Program) : program.undeclared.kind = program.kind :=
  rfl

theorem add_congr (h : p.undeclared = q.undeclared) (found other : Located Item)
    (hline : found.line = other.line) (hvalue : found.value = other.value) :
    (p.add found).map undeclared = (q.add other).map undeclared := by
  obtain ⟨declarations, entry, pragma, block⟩ := p
  obtain ⟨declarations', entry', pragma', block'⟩ := q
  obtain ⟨line, start, stop, value⟩ := found
  obtain ⟨line', start', stop', value'⟩ := other
  simp only [undeclared, Program.mk.injEq, true_and] at h
  obtain ⟨rfl, rfl, rfl⟩ := h
  cases hline
  cases hvalue
  rw [add.eq_def, add.eq_def]
  cases value with
  | entry declared =>
      dsimp only
      split <;> rfl
  | pragma fields =>
      dsimp only
      split
      · rfl
      · cases pragmaMetadata line fields <;> rfl
  | block tags =>
      dsimp only
      split
      · rfl
      · cases blockMetadata line tags <;> rfl
  | _ => rfl

/-- Where chunks stand matters to a reading only by their lines. -/
theorem foldlM_add_congr (h : p.undeclared = q.undeclared) (line start start' : Nat)
    (cs : List Chunk) :
    ((locateFrom line start cs).foldlM add p).map undeclared =
      ((locateFrom line start' cs).foldlM add q).map undeclared := by
  induction cs generalizing line start start' p q with
  | nil => exact congrArg Except.ok h
  | cons chunk more ih =>
      rw [locateFrom, locateFrom, List.foldlM_cons, List.foldlM_cons]
      have hstep := add_congr h ⟨line, start, start + Utf8.size chunk.text, chunk.item⟩
        ⟨line, start', start' + Utf8.size chunk.text, chunk.item⟩ rfl rfl
      exact map_bind_congr _ hstep fun hnext => ih hnext _ _ _

/-- A reading of a text behind an import differs by nothing but the import. -/
theorem parse_text_congr {i j : Import} (hi : i.clause.IsWritable) (hj : j.clause.IsWritable)
    (rest : String) : (parse (i.text ++ "\n" ++ rest)).map undeclared =
      (parse (j.text ++ "\n" ++ rest)).map undeclared := by
  have hparse {i : Import} (hi : i.clause.IsWritable) :
      ∃ start clause, parse (i.text ++ "\n" ++ rest) =
        (locateFrom 2 start (chunks rest.toList)).foldlM add { declarations := [clause] } := by
    refine ⟨0 + Utf8.size i.text.toList + 1, ⟨1, 0, 0 + Utf8.size i.text.toList, i.clause⟩, ?_⟩
    have hchunks := chunks_clause hi rest
    rw [i.text_clause] at hchunks
    rw [parse, items, hchunks, locateFrom, locateFrom, Import.count_text hi]
    rfl
  obtain ⟨start, clause, hi⟩ := hparse hi
  obtain ⟨start', clause', hj⟩ := hparse hj
  have hstart : undeclared { declarations := [clause] } = undeclared { declarations := [clause'] } :=
    rfl
  rw [hi, hj]
  exact foldlM_add_congr hstart 2 start start' _

end Source.Program

/-! ### Imports that lead to the same places -/

/-- Whether two imports have one name and the registry leads them to the same places. -/
def Registry.Alike (registry : Registry) (i j : Import) : Prop :=
  i.name = j.name ∧ ∀ networks, registry.resolveAll i networks = registry.resolveAll j networks

namespace Registry

variable {registry : Registry} {i j : Import} {imports others : List Import}

theorem Alike.refl (registry : Registry) (i : Import) : registry.Alike i i :=
  ⟨rfl, fun _ => rfl⟩

/-- A contract that the registry knows is where it knows it. -/
theorem alike_of_contains (h : registry.contains i.name = true) (hname : i.name = j.name) :
    registry.Alike i j := by
  obtain ⟨known, hknown⟩ := Option.isSome_iff_exists.1 h
  have hdeployments : registry.deployments? i.name = some known := hknown
  refine ⟨hname, fun networks => ?_⟩
  rw [resolveAll, resolveAll, ← hname, hdeployments]

theorem names_of_alike (h : List.Forall₂ registry.Alike imports others) :
    imports.map Import.name = others.map Import.name := by
  rw [← List.forall₂_eq_eq_eq, List.forall₂_map_left_iff, List.forall₂_map_right_iff]
  exact h.imp fun _ _ halike => halike.1

theorem alike_distinct (h : List.Forall₂ registry.Alike imports others) :
    List.Forall₂ registry.Alike (Import.distinct imports) (Import.distinct others) := by
  refine List.rel_foldl ?_ .nil h
  intro kept kept' hkept i j halike
  have hmet : kept.any (·.name == i.name) = kept'.any (·.name == j.name) := by
    have hnames := congrArg (List.any · (· == i.name)) (names_of_alike hkept)
    rw [← halike.1]
    simpa only [List.any_map, Function.comp_def] using hnames
  dsimp only
  rw [hmet]
  split
  · exact hkept
  · exact List.rel_append hkept (.cons halike .nil)

end Registry

namespace Build

/-- How an import is written in the body of a template. -/
def spelled (format : Format) (name : String) : String :=
  match format with
  | .listed => Import.bareText name
  | .keyed => Import.explicitText name (placeholder name)

/-- An import is written anew, whatever it spells out. -/
theorem body_text {i : Import} (format : Format) (h : i.clause.IsWritable) (rest : String) :
    body format (i.text ++ "\n" ++ rest) =
      spelled format i.name ++ "\n" ++ body format rest := by
  have hline (replacement : Import → Option String)
      (hreplacement : (replacement i).getD i.text = spelled format i.name) :
      i.clause.rewritten replacement = [spelled format i.name] := by
    rw [Clause.rewritten, i.imports_clause, i.text_clause]
    split
    · rw [List.map_singleton, hreplacement]
    · next hkept =>
        have hnone : replacement i = none := by
          simpa [Clause.isReplaced, i.imports_clause] using hkept
        rw [← hreplacement, hnone, Option.getD_none]
  rw [← i.text_clause]
  cases format with
  | listed =>
      rw [body, substituteImports_clause h, hline]
      · rfl
      · obtain ⟨name, _ | address⟩ := i <;> rfl
  | keyed =>
      rw [body, substituteImports_clause h, hline]
      · rfl
      · rfl

theorem draft_congr {format : Format} {source other : String} {kind : Kind}
    {p q : Source.Program} {earlier : Option View} (hbody : body format source = body format other)
    (h : p.undeclared = q.undeclared) :
    draft format source kind p earlier = draft format other kind q earlier := by
  obtain ⟨declarations, entry, pragma, block⟩ := p
  obtain ⟨declarations', entry', pragma', block'⟩ := q
  simp only [Program.undeclared, Program.mk.injEq, true_and] at h
  obtain ⟨rfl, rfl, rfl⟩ := h
  rw [draft, draft, hbody]
  rfl

end Build

namespace Builder

variable {builder : Builder} {conditions : Conditions} {session now : Session}
  {source other rest : String} {earlier : Option Template} {imports others : List Import}
  {i j : Import}

theorem dependencies_congr (h : List.Forall₂ builder.registry.Alike imports others) :
    builder.dependencies conditions now imports = builder.dependencies conditions now others := by
  have hplaces : imports.mapM (fun i => builder.registry.resolveAll i builder.config.networks) =
      others.mapM fun i => builder.registry.resolveAll i builder.config.networks :=
    mapM_congr_of_forall₂ (h.imp fun _ _ halike => halike.2 _)
  have hzip (places : List (List Resolved)) (pinned : Table (Table PinRecord)) :
      (imports.zip places).map (fun found =>
        (⟨found.1.name, found.2.map (placement pinned)⟩ : Dependency)) =
      (others.zip places).map fun found => ⟨found.1.name, found.2.map (placement pinned)⟩ := by
    have hnames := congrArg (fun names => (names.zip places).map fun found =>
      (⟨found.1, found.2.map (placement pinned)⟩ : Dependency)) (Registry.names_of_alike h)
    simpa only [List.zip_map_left, List.map_map, Function.comp_def, Prod.map, id] using hnames
  simp only [dependencies, hplaces, hzip]

/-- Sources that declare the same apart from their imports, and have the same body, are prepared
alike. -/
theorem prepare_congr (session : Session) (earlier : Option Template)
    (hparse : (Source.Program.parse source).map Source.Program.undeclared =
      (Source.Program.parse other).map Source.Program.undeclared)
    (hbody : Build.body builder.config.format source = Build.body builder.config.format other) :
    (builder.prepare session source earlier).map Prod.snd =
      (builder.prepare session other earlier).map Prod.snd := by
  have hread : ((Source.Program.parse source).mapError fun flaw =>
        Failure.malformed (.flaw flaw)).map Source.Program.undeclared =
      ((Source.Program.parse other).mapError fun flaw =>
        Failure.malformed (.flaw flaw)).map Source.Program.undeclared := by
    have hmap (text : String) : ((Source.Program.parse text).mapError fun flaw =>
          Failure.malformed (.flaw flaw)).map Source.Program.undeclared =
        ((Source.Program.parse text).map Source.Program.undeclared).mapError fun flaw =>
          Failure.malformed (.flaw flaw) := by
      cases Source.Program.parse text <;> rfl
    rw [hmap, hmap, hparse]
  rw [prepare, prepare]
  refine map_bind_congr id rfl fun _ => map_bind_congr _ hread ?_
  intro p q hsame
  rw [← p.kind_undeclared, hsame, q.kind_undeclared]
  split
  · rfl
  · rw [Build.draft_congr hbody hsame]
    refine map_bind_congr id rfl fun hdraft => ?_
    exact congrArg Except.ok hdraft

theorem build_congr (hparse : (Source.Program.parse source).map Source.Program.undeclared =
      (Source.Program.parse other).map Source.Program.undeclared)
    (hbody : Build.body builder.config.format source = Build.body builder.config.format other)
    (himports : List.Forall₂ builder.registry.Alike (importsOf source) (importsOf other)) :
    builder.build conditions session source earlier =
      builder.build conditions session other earlier := by
  have hprepare := prepare_congr session earlier hparse hbody
  have hdependencies : builder.dependencies conditions session (Import.distinct (importsOf source)) =
      builder.dependencies conditions session (Import.distinct (importsOf other)) :=
    dependencies_congr (Registry.alike_distinct himports)
  rw [build, build, course, course]
  obtain ⟨failure, hsource, hother⟩ | ⟨⟨imports, draft⟩, ⟨imports', draft'⟩, hsource, hother, hdraft⟩ :=
    cases_of_map_eq hprepare
  · rw [hsource, hother]
  · cases hdraft
    rw [hsource, hother, imports_of_prepare hsource, imports_of_prepare hother]
    dsimp only
    rw [hdependencies]

/-- A contract that the registry knows may be imported from any address, or by name alone. -/
theorem build_text_congr (hi : i.clause.IsWritable) (hj : j.clause.IsWritable)
    (hname : i.name = j.name) (hknown : builder.registry.contains i.name = true) :
    builder.build conditions session (i.text ++ "\n" ++ rest) earlier =
      builder.build conditions session (j.text ++ "\n" ++ rest) earlier := by
  have hbody : Build.body builder.config.format (i.text ++ "\n" ++ rest) =
      Build.body builder.config.format (j.text ++ "\n" ++ rest) := by
    rw [Build.body_text _ hi, Build.body_text _ hj, hname]
  refine build_congr (Source.Program.parse_text_congr hi hj rest) hbody ?_
  have himports {i : Import} (hi : i.clause.IsWritable) :
      importsOf (i.text ++ "\n" ++ rest) = i :: importsOf rest := by
    rw [← i.text_clause, importsOf_clause hi, i.imports_clause]
    rfl
  rw [himports hi, himports hj]
  refine .cons (Registry.alike_of_contains hknown hname) ?_
  rw [List.forall₂_same]
  exact fun k _ => .refl _ k

/-- A build does not depend on how its source spells the address of a contract that the registry
knows, nor on whether it spells one at all: the same template is built, or the same is wrong, and
the same has happened around it. -/
theorem build_eq_of_contains {name a b : String} (hname : IsWord name.toList)
    (ha : IsAddress a.toList) (hb : IsAddress b.toList)
    (hknown : builder.registry.contains name = true) :
    builder.build conditions session (Import.explicitText name a ++ "\n" ++ rest) earlier =
        builder.build conditions session (Import.explicitText name b ++ "\n" ++ rest) earlier ∧
      builder.build conditions session (Import.explicitText name a ++ "\n" ++ rest) earlier =
        builder.build conditions session (Import.bareText name ++ "\n" ++ rest) earlier := by
  have hlocated {address : String} (haddress : IsAddress address.toList) :
      (Import.mk name (some address)).clause.IsWritable :=
    ⟨List.cons_ne_nil _ _, List.forall_mem_singleton.2 hname, haddress⟩
  have hbare : (Import.mk name none).clause.IsWritable := hname
  have htext (address : String) :
      Import.explicitText name address = (Import.mk name (some address)).text := rfl
  have hbareText : Import.bareText name = (Import.mk name none).text := rfl
  rw [htext a, htext b, hbareText]
  exact ⟨build_text_congr (hlocated ha) (hlocated hb) rfl hknown,
    build_text_congr (hlocated ha) hbare rfl hknown⟩

/-- The core registry knows where the token is, so its import may come from anywhere. -/
theorem build_eq_of_contains_importing : ∃ t,
    (twice.build {} {} (Import.explicitText "FlowToken" "0x01" ++ "\n" ++
      "transaction \x7b\x7d\n") none).1 = .ok t ∧
    (twice.build {} {} (Import.explicitText "FlowToken" "0xNOWHERE" ++ "\n" ++
      "transaction \x7b\x7d\n") none).1 = .ok t ∧
    (twice.build {} {} importing none).1 = .ok t := by
  obtain ⟨t, ht⟩ := exists_build_importing
  have hname : IsWord "FlowToken".toList := by decide
  have hhere : IsAddress "0x01".toList := by decide
  have hthere : IsAddress "0xNOWHERE".toList := by decide
  have hknown : twice.registry.contains "FlowToken" = true := by decide +kernel
  have htext : Import.bareText "FlowToken" ++ "\n" ++ "transaction \x7b\x7d\n" = importing := by
    decide
  obtain ⟨hab, hnone⟩ := build_eq_of_contains hname hhere hthere hknown
  rw [htext] at hnone
  refine ⟨t, ?_, ?_, ht⟩
  · rw [hnone]
    exact ht
  · rw [← hab, hnone]
    exact ht

end Builder

end Interaction
