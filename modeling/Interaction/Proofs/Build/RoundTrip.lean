import Interaction.Proofs.Build.Numbers
import Interaction.Proofs.Build.Pipeline
import Interaction.Proofs.Template.Depth
import Interaction.Proofs.Template.RoundTrip

/-!
# Reading back what was built

Whatever is built is read back from its text, unless a pin tree in it has too many levels. Nothing
keeps a builder from storing such a tree: it has as many levels as contracts import each other, and
a document that holds it is written all the same.
-/

namespace Interaction

namespace Builder

open Template (parseBytes maxLevels)

variable {builder : Builder} {conditions : Conditions} {session : Session} {source : String}
  {earlier : Option Template} {t : Template} {draft : Draft}

/-- What comes of reading a finished document. -/
theorem parseBytes_of_finish (hfits : draft.FitsWords)
    (h : builder.finish session draft = .ok t) :
    parseBytes (Utf8.ofText t.compactText) =
      if ∀ tree ∈ t.pinTrees, tree.levels ≤ maxLevels then .ok t
      else .error (.malformed (some t.format) .unreadable) := by
  obtain ⟨pins, -, rfl⟩ := finish_eq_ok h
  have harises := ((Template.Arises.ofDraft hfits).setNetworkPins pins).sealed
  have hread := Template.parse_render harises.fitsWords harises.storedVersion .compact
  rw [parseBytes, Utf8.ofText, Utf8.symbols_encode]
  simp only [Template.depth_toJson_le_iff] at hread
  exact hread

/-- A document that is built verifies, and it is read back from its bytes if no pin tree in it has
more than `maxLevels` levels. If one has, the document cannot be read. -/
theorem parseBytes_of_build (hbuilder : builder.FitsWords)
    (hsource : source.length ≤ Decimal.wordMax)
    (h : (builder.build conditions session source earlier).1 = .ok t) :
    t.verifyId = true ∧ parseBytes (Utf8.ofText t.compactText) =
      if ∀ tree ∈ t.pinTrees, tree.levels ≤ maxLevels then .ok t
      else .error (.malformed (some t.format) .unreadable) := by
  obtain ⟨imports, draft, dependencies, after, hprepare, hdependencies, hfinish⟩ := build_eq_ok h
  have hdraft := format_of_prepare hprepare
  have hformat : Draft.format { draft with dependencies := dependencies } =
      builder.config.format := hdraft
  have hreaches := Course.reaches_run (builder.dependencies conditions session imports) session
  rw [hdependencies] at hreaches
  have hfits := fitsWords_draft hbuilder hsource hprepare hreaches
  exact ⟨(fulfils_of_finish hformat hfinish).sealed, parseBytes_of_finish hfits hfinish⟩

/-- A contract that imports a contract that imports another one, and so on. -/
def tower : (more : Nat) → PinTree
  | 0 => ⟨"aa", "bb", "Deep", "0x01", []⟩
  | more + 1 => ⟨"aa", "bb", "Deep", "0x01", [tower more]⟩

theorem levels_tower (more : Nat) : (tower more).levels = more + 1 := by
  induction more with
  | zero => rfl
  | succ more ih =>
      rw [tower, PinTree.levels, PinTree.mostLevels, PinTree.mostLevels, ih, Nat.max_zero]

/-- A builder whose registry has a contract with its pin tree. -/
def recorded (tree : PinTree) : Builder where
  config := { networks := ["mainnet"] }
  registry := Registry.empty.apply (.pin "Deep" "mainnet" "0x0000000000000001" 7 tree)

/-- A source that imports the contract. -/
def deep : String := "import \"Deep\"\ntransaction \x7b\x7d\n"

/-- What is made of the source. -/
def deepDraft (tree : PinTree) : Draft where
  kind := some .transaction
  body := deep
  dependencies := [⟨"Deep", [⟨"mainnet", "0x0000000000000001", some (.ofTree 7 tree)⟩]⟩]

theorem exists_build_recorded (tree : PinTree) :
    ∃ t, ((recorded tree).build {} {} deep none).1 = .ok t ∧ t.pinTrees = [tree] ∧
      (recorded tree).finish {} (deepDraft tree) = .ok t := by
  have hprepare : (recorded tree).prepare {} deep none =
      .ok ([⟨"Deep", none⟩], { deepDraft tree with dependencies := [] }) := by cbv
  have hdependencies : ((recorded tree).dependencies {} {} [⟨"Deep", none⟩]).run {} =
      (.ok (deepDraft tree).dependencies, {}) := by cbv
  have hexecutable : (Template.ofDraft (deepDraft tree)).view.executable "mainnet" =
      .ok "import Deep from 0x0000000000000001\ntransaction \x7b\x7d\n" := by cbv
  obtain ⟨t, ht⟩ : ∃ t, (recorded tree).finish {} (deepDraft tree) = .ok t := by
    refine exists_finish rfl ?_
    intro n hn
    rw [List.mem_singleton.1 hn]
    exact ⟨_, hexecutable⟩
  refine ⟨t, by rw [build_of_run hprepare hdependencies ht], ?_, ht⟩
  obtain ⟨pins, -, rfl⟩ := finish_eq_ok ht
  rfl

theorem fitsWords_recorded (tree : PinTree) : (recorded tree).FitsWords where
  registry := by
    refine List.forall_mem_singleton.2 (List.forall_mem_singleton.2 ?_)
    rintro record ⟨⟩
    exact Nat.le_of_ble_eq_true rfl
  chains := nofun

theorem parseBytes_of_build_recorded : (recorded (tower 1)).FitsWords ∧
    deep.length ≤ Decimal.wordMax ∧ ∃ t, ((recorded (tower 1)).build {} {} deep none).1 = .ok t ∧
      t.verifyId = true ∧ parseBytes (Utf8.ofText t.compactText) = .ok t := by
  have hsource : deep.length ≤ Decimal.wordMax := by decide
  obtain ⟨t, hbuild, htrees, -⟩ := exists_build_recorded (tower 1)
  obtain ⟨hverify, hread⟩ := parseBytes_of_build (fitsWords_recorded _) hsource hbuild
  have hshallow : ∀ tree ∈ t.pinTrees, tree.levels ≤ maxLevels := by
    rw [htrees]
    exact List.forall_mem_singleton.2 (by decide)
  rw [if_pos hshallow] at hread
  exact ⟨fitsWords_recorded _, hsource, t, hbuild, hverify, hread⟩

/-- Sixty contracts one below the other are built into a document that cannot be read. -/
theorem parseBytes_of_build_tower : ∃ t, ((recorded (tower 59)).build {} {} deep none).1 = .ok t ∧
    parseBytes (Utf8.ofText t.compactText) = .error (.malformed (some .listed) .unreadable) := by
  obtain ⟨t, hbuild, htrees, hfinish⟩ := exists_build_recorded (tower 59)
  have hfits : (deepDraft (tower 59)).FitsWords := by
    constructor
    · exact nofun
    · exact nofun
    · refine List.forall_mem_singleton.2 (List.forall_mem_singleton.2 ?_)
      rintro record ⟨⟩
      exact Nat.le_of_ble_eq_true rfl
  have hread := parseBytes_of_finish hfits hfinish
  have hdeep : ¬ ∀ tree ∈ t.pinTrees, tree.levels ≤ maxLevels := by
    rw [htrees]
    intro h
    have hlevels := h (tower 59) (.head _)
    rw [levels_tower] at hlevels
    exact absurd hlevels (by decide)
  have hformat : t.format = .listed := (fulfils_of_finish rfl hfinish).format
  rw [if_neg hdeep, hformat] at hread
  exact ⟨t, hbuild, hread⟩

end Builder

end Interaction
