import Interaction.Build.Basic
import Interaction.Proofs.Pinning.Course
import Interaction.Proofs.Template.Sealing
import Mathlib

/-!
# What a build guarantees

A document that is built has the configured format, carries its own id, places every dependency on
every configured network, and has the network pins that belong to it. The pins are computed before
they are stored and before the document is sealed; neither changes what they are made from.
-/

namespace Interaction

/-- What a configuration asks of a finished document. -/
structure Template.Fulfils (config : Config) (t : Template) : Prop where
  format : t.format = config.format
  sealed : t.verifyId = true
  placed : ∀ d ∈ t.view.dependencies, ∀ network ∈ config.networks,
    ∃ placement, d.on? network = some placement
  /-- A listed document has one pin for each network, in order, and each is the right one. -/
  pinned : config.format = .listed →
    (t.networkPins.map NetworkPin.network).Pairwise (· < ·) ∧
      (∀ network, network ∈ t.networkPins.map NetworkPin.network ↔ network ∈ config.networks) ∧
      ∀ pin ∈ t.networkPins, t.view.verifyNetworkPin pin = .ok true
  unpinned : config.format = .keyed → t.networkPins = []

namespace Builder

variable {builder : Builder} {conditions : Conditions} {session : Session} {source : String}
  {earlier : Option Template} {t : Template} {draft : Draft}

/-- What is prepared for a build is read off its source. -/
theorem prepare_eq_ok {imports : List Import}
    (h : builder.prepare session source earlier = .ok (imports, draft)) :
    ∃ program kind, Source.Program.parse source = .ok program ∧
      imports = Import.distinct program.imports ∧
      Build.draft builder.config.format source kind program (earlier.map Template.view) =
        .ok draft := by
  obtain ⟨-, -, h⟩ := bind_eq_ok_iff.1 h
  obtain ⟨program, hprogram, h⟩ := bind_eq_ok_iff.1 h
  split at h
  next => cases h
  next kind hkind =>
    obtain ⟨made, hmade, h⟩ := bind_eq_ok_iff.1 h
    cases h
    exact ⟨program, kind, mapError_eq_ok_iff.1 hprogram, rfl, hmade⟩

/-- The draft of a build is in the configured format, with the body in the form of that format. -/
theorem format_body_of_prepare {imports : List Import}
    (h : builder.prepare session source earlier = .ok (imports, draft)) :
    draft.format = builder.config.format ∧
      draft.body = Build.body builder.config.format source := by
  obtain ⟨program, kind, -, -, hdraft⟩ := prepare_eq_ok h
  obtain ⟨parameters, -, hdraft⟩ := bind_eq_ok_iff.1 hdraft
  cases hdraft
  exact ⟨rfl, rfl⟩

theorem format_of_prepare {imports : List Import}
    (h : builder.prepare session source earlier = .ok (imports, draft)) :
    draft.format = builder.config.format :=
  (format_body_of_prepare h).1

/-- A build ends by storing the pins that were computed for all networks and then the id. -/
theorem finish_eq_ok (h : builder.finish session draft = .ok t) :
    ∃ pins, (Template.ofDraft draft).view.allNetworkPins builder.config.networks = .ok pins ∧
      t = ((Template.ofDraft draft).setNetworkPins pins).sealed := by
  simp only [finish, bind_eq_ok_iff] at h
  obtain ⟨pins, hpins, -, -, hsealed⟩ := h
  cases hsealed
  exact ⟨pins, hpins, rfl⟩

/-- Storing the pins and the id changes neither the body nor the dependencies. -/
theorem view_of_finish (h : builder.finish session draft = .ok t) :
    t.view.body = (Template.ofDraft draft).view.body ∧
      t.view.dependencies = (Template.ofDraft draft).view.dependencies := by
  obtain ⟨pins, -, rfl⟩ := finish_eq_ok h
  rw [Template.sealed, Template.body_setId, Template.body_setNetworkPins,
    Template.dependencies_setId, Template.dependencies_setNetworkPins]
  exact ⟨rfl, rfl⟩

/-- A build that succeeds has finished a draft of the source with some dependencies. -/
theorem build_eq_ok (h : (builder.build conditions session source earlier).1 = .ok t) :
    ∃ imports draft dependencies after,
      builder.prepare session source earlier = .ok (imports, draft) ∧
        (builder.dependencies conditions session imports).run session = (.ok dependencies, after) ∧
        builder.finish after { draft with dependencies := dependencies } = .ok t := by
  unfold build course at h
  split at h
  next => cases h
  next imports draft hprepare =>
    rw [Course.run_andThen] at h
    split at h
    next => cases h
    next dependencies hdependencies =>
      exact ⟨imports, draft, dependencies, _, hprepare, Prod.ext hdependencies rfl, h⟩

/-- The steps of a build make the build. -/
theorem build_of_run {imports : List Import} {dependencies : List Dependency} {now : Session}
    (hprepare : builder.prepare session source earlier = .ok (imports, draft))
    (hdependencies : (builder.dependencies conditions session imports).run session =
      (.ok dependencies, now))
    (hfinish : builder.finish now { draft with dependencies := dependencies } = .ok t) :
    builder.build conditions session source earlier = (.ok t, now) := by
  rw [build, course, hprepare]
  dsimp only
  rw [Course.run_andThen, hdependencies]
  dsimp only
  rw [hfinish, Course.run]

/-- A draft is finished if there is code for each network and the build is not over. -/
theorem exists_finish (hover : session.context.isOver = false)
    (hcode : ∀ n ∈ builder.config.networks,
      ∃ code, (Template.ofDraft draft).view.executable n = .ok code) :
    ∃ t, builder.finish session draft = .ok t := by
  obtain ⟨pins, hpins⟩ := View.exists_allNetworkPins hcode
  refine ⟨((Template.ofDraft draft).setNetworkPins pins).sealed, ?_⟩
  rw [finish, hpins, Session.check, Context.check, hover]
  rfl

theorem fulfils_of_finish (hformat : draft.format = builder.config.format)
    (h : builder.finish session draft = .ok t) : t.Fulfils builder.config := by
  obtain ⟨hbody, hdependencies⟩ := view_of_finish h
  obtain ⟨pins, hpins, rfl⟩ := finish_eq_ok h
  have hof := View.pinsOf_of_allNetworkPins hpins
  have hstored : (((Template.ofDraft draft).setNetworkPins pins).sealed).networkPins =
      if builder.config.format = .listed then pins else [] := by
    rw [Template.sealed, Template.networkPins_setId, Template.networkPins_setNetworkPins,
      Template.format_ofDraft, hformat, NetworkPin.sort_of_pairwise hof.ordered]
  constructor
  · rw [Template.sealed, Template.format_setId, Template.format_setNetworkPins,
      Template.format_ofDraft, hformat]
  · exact Template.verifyId_sealed _
  · intro d hd network hnetwork
    rw [hdependencies] at hd
    obtain ⟨pin, hpin, rfl⟩ := List.mem_map.1 ((hof.named network).2 hnetwork)
    have hplaced := (View.networkPin_eq_ok (hof.right pin hpin)).2 d hd
    exact Option.isSome_iff_exists.1 hplaced
  · intro hlisted
    rw [hstored, if_pos hlisted]
    refine ⟨hof.ordered, hof.named, ?_⟩
    intro pin hpin
    refine View.verifyNetworkPin_of_networkPin ?_
    rw [View.networkPin_congr hbody hdependencies]
    exact hof.right pin hpin
  · intro hkeyed
    rw [hstored, hkeyed, if_neg (by decide)]

/-- Whatever is built fulfils its configuration. -/
theorem fulfils_of_build (h : (builder.build conditions session source earlier).1 = .ok t) :
    t.Fulfils builder.config := by
  obtain ⟨imports, draft, dependencies, after, hprepare, -, hfinish⟩ := build_eq_ok h
  have hformat := format_of_prepare hprepare
  refine fulfils_of_finish ?_ hfinish
  exact hformat

/-- A builder for two networks, one of them named twice. -/
def twice : Builder :=
  .ofConfig { networks := ["testnet", "mainnet", "testnet"] }

/-- A source that imports a core contract. -/
def importing : String := "import \"FlowToken\"\ntransaction \x7b\x7d\n"

/-- What is made of the source. -/
def importingDraft : Draft where
  kind := some .transaction
  body := importing

/-- Where the registry has the contract. -/
def importedToken : Dependency where
  contract := "FlowToken"
  placements := [⟨"emulator", "0x0ae53cb6e3f42a79", none⟩, ⟨"mainnet", "0x1654653399040a61", none⟩,
    ⟨"testnet", "0x7e60df042a9c0868", none⟩]

theorem exists_build_importing : ∃ t, (twice.build {} {} importing none).1 = .ok t := by
  have hprepare : twice.prepare {} importing none =
      .ok ([⟨"FlowToken", none⟩], importingDraft) := by cbv
  have hdependencies : (twice.dependencies {} {} [⟨"FlowToken", none⟩]).run {} =
      (.ok [importedToken], {}) := by cbv
  have htestnet : (Template.ofDraft { importingDraft with
      dependencies := [importedToken] }).view.executable "testnet" =
        .ok "import FlowToken from 0x7e60df042a9c0868\ntransaction \x7b\x7d\n" := by cbv
  have hmainnet : (Template.ofDraft { importingDraft with
      dependencies := [importedToken] }).view.executable "mainnet" =
        .ok "import FlowToken from 0x1654653399040a61\ntransaction \x7b\x7d\n" := by cbv
  obtain ⟨t, ht⟩ : ∃ t, twice.finish {} { importingDraft with
      dependencies := [importedToken] } = .ok t := by
    refine exists_finish rfl ?_
    intro n hn
    have hcases : n = "testnet" ∨ n = "mainnet" ∨ n = "testnet" := by
      simpa [twice, ofConfig] using hn
    rcases hcases with rfl | rfl | rfl
    · exact ⟨_, htestnet⟩
    · exact ⟨_, hmainnet⟩
    · exact ⟨_, htestnet⟩
  exact ⟨t, by rw [build_of_run hprepare hdependencies ht]⟩

theorem fulfils_of_build_importing : ∃ t, (twice.build {} {} importing none).1 = .ok t ∧
    t.Fulfils twice.config := by
  obtain ⟨t, hbuild⟩ := exists_build_importing
  exact ⟨t, hbuild, fulfils_of_build hbuild⟩

end Builder

end Interaction
