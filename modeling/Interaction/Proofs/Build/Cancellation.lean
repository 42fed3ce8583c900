import Interaction.Build.Basic
import Interaction.Proofs.Build.Network
import Interaction.Proofs.Build.Pipeline
import Interaction.Proofs.Pinning.Concurrent
import Interaction.Proofs.Pinning.Fetches

/-!
# A cancelled build yields no template

A build that could succeed and is cancelled on the way, whenever that is and whatever is under way
on its networks by then, makes no call any more and ends with the cancellation. Each of its networks
heeds the cancellation, so the networks side by side do, and nothing comes after them but the check
before the document is sealed.
-/

namespace Interaction

/-- The session as somebody cancels the build. -/
def Session.cancel (session : Session) : Session :=
  { session with context := session.context.cancel }

namespace Engine

variable {engine : Engine} {session : Session} {site root : Site} {contract : Fetched}
  {height : Nat}

/-- A contract that imports nothing is pinned with one call. -/
theorem computePins_single (h : engine.inspect root.normalized = .ok contract)
    (hleaf : contract.children = []) (hover : session.context.isOver = false) :
    ∃ records cache last,
      engine.computePins {} [root] height {} session = (.ok records, cache, last) ∧
        last.calls = engine.fetchCall root.normalized :: session.calls ∧
        last.context.isOver = false := by
  have hdiscover : engine.discover {} [root.normalized] {} session =
      (.ok (), (({} : Cache).keep (root.normalized.key engine.network) contract).2,
        (session.make {} (engine.fetchCall root.normalized)).pass) := by
    rw [discover, discoverWithin_single h hover rfl (List.not_mem_nil) rfl, hleaf, discoverWithin,
      if_pos rfl]
  obtain ⟨trees, cache, hassemble⟩ : ∃ trees cache, engine.assembleRoots
      (session.make {} (engine.fetchCall root.normalized)).pass.context [root.normalized]
        (({} : Cache).keep (root.normalized.key engine.network) contract).2 =
      (.ok trees, cache) := by
    have hlast : (session.make {} (engine.fetchCall root.normalized)).pass.context.isOver = false :=
      hover
    have hkeep : (({} : Cache).keep (root.normalized.key engine.network) contract).2.contract?
        (root.normalized.key engine.network) = some contract :=
      (Cache.keep_spec {} (root.normalized.key engine.network) contract).1
    rw [assembleRoots, Assembly.forEach, Assembly.assemble, Assembly.within, hlast]
    simp [hkeep, hleaf, Assembly.forEach]
    exact ⟨_, _, rfl⟩
  have hunpinned : engine.unpinned {} [root] = [root.normalized] := rfl
  refine ⟨trees.map (PinRecord.ofTree height), cache,
    (session.make {} (engine.fetchCall root.normalized)).pass, ?_, rfl, hover⟩
  rw [computePins, ← unpinned, hunpinned, hdiscover]
  dsimp only [List.map]
  rw [hassemble]

end Engine

namespace Builder

variable {builder : Builder} {conditions : Conditions} {session now : Session} {source : String}
  {earlier : Option Template} {imports : List Import} {network : String} {chain : Chain}
  {roots : List Site} {t : Template}

/-- A network is pinned at its latest height. -/
theorem run_pinNetwork {height : Nat} {read last : Session} {records : List PinRecord}
    {cache : Cache}
    (hheight : (builder.engineOn network chain).latestHeight conditions session =
      (.ok height, read))
    (hpins : (builder.engineOn network chain).computePins conditions roots height {} read =
      (.ok records, cache, last)) :
    (builder.pinNetwork conditions session network chain roots).run session =
      (.ok (network, Table.ofList ((roots.map Site.name).zip records)), last) := by
  rw [pinNetwork, ← engineOn, Course.run_andThen, Engine.latestHeightCourse, Course.run, hheight]
  dsimp only [Course.run]
  rw [Course.run_map, Engine.run_computePinsCourse, hpins]
  rfl

/-! ### Cancellations -/

theorem heedsCancel_pinNetwork (hroots : roots ≠ []) :
    (builder.pinNetwork conditions now network chain roots).HeedsCancel := by
  refine Course.Heeds.andThen Engine.heedsCancel_latestHeightCourse ?_ ?_ ?_
  · rintro later (failure | height) result hreaches ⟨records, rfl⟩
    · cases hreaches
    · exact ⟨height, rfl⟩
  · rintro later _ hover rfl
    exact rfl
  · rintro later (failure | height)
    · trivial
    · refine (Engine.heeds_computePinsCourse hroots height {} later).map ?_ ?_
      · rintro result ⟨pins, hpins⟩
        obtain ⟨records, hrecords, -⟩ := map_eq_ok_iff.1 hpins
        exact ⟨records, hrecords⟩
      · intro result hresult
        rw [hresult]
        rfl

theorem paced_pinNetwork : (builder.pinNetwork conditions now network chain roots).Paced := by
  refine Course.Paced.andThen Engine.paced_latestHeightCourse ?_
  rintro later (failure | height)
  · trivial
  · exact (Engine.paced_computePinsCourse _ _ _ _).map

/-- Only networks with something to pin are worked on. -/
theorem ne_nil_of_mem_workload {places : List Resolved} {item : String × Chain × List Site}
    (h : item ∈ builder.workload places) : item.2.2 ≠ [] := by
  simpa using (List.mem_filter.1 h).2

theorem heedsCancel_dependencies :
    (builder.dependencies conditions now imports).HeedsCancel := by
  unfold Builder.dependencies
  split
  · trivial
  split
  · trivial
  next places hplaces =>
    have hnetworks : (builder.pinNetworks conditions now
        (builder.workload places.flatten)).HeedsCancel := by
      refine Course.HeedsCancel.all ?_
      intro work hwork
      obtain ⟨item, hitem, rfl⟩ := List.mem_map.1 hwork
      exact heedsCancel_pinNetwork (ne_nil_of_mem_workload hitem)
    refine Course.Heeds.map hnetworks ?_ ?_
    · rintro result ⟨dependencies, hdependencies⟩
      obtain ⟨pinned, hpinned, -⟩ := map_eq_ok_iff.1 hdependencies
      exact ⟨pinned, hpinned⟩
    · rintro _ rfl
      rfl

theorem paced_dependencies : (builder.dependencies conditions now imports).Paced := by
  unfold Builder.dependencies
  split
  · trivial
  split
  · trivial
  next places hplaces =>
    refine Course.Paced.map (Course.Paced.all ?_)
    intro work hwork
    obtain ⟨item, -, rfl⟩ := List.mem_map.1 hwork
    exact paced_pinNetwork

theorem heedsCancel_course : (builder.course conditions now source earlier).HeedsCancel := by
  unfold course
  split
  · trivial
  next imports draft hprepare =>
    refine Course.Heeds.andThen heedsCancel_dependencies ?_ ?_ ?_
    · rintro later (failure | dependencies) result hreaches ⟨t, rfl⟩
      · cases hreaches
      · exact ⟨dependencies, rfl⟩
    · rintro later _ hover rfl
      exact rfl
    · rintro later (failure | dependencies) <;> trivial

theorem paced_course : (builder.course conditions now source earlier).Paced := by
  unfold course
  split
  · trivial
  next imports draft hprepare =>
    refine Course.Paced.andThen paced_dependencies ?_
    rintro later (failure | dependencies) <;> trivial

/-- A cancelled build yields no template. Whenever a build that would succeed is cancelled while it
is under way, it makes no call any more and ends with the cancellation, whether the fetches of that
time are still answered or given up. And it is under way during each of its fetches: there is a time
at which the fetch has just been asked for and its answer is ahead. -/
theorem cancelled_of_isUnderWay
    (h : (builder.build conditions session source earlier).1 = .ok t) :
    (∀ n rest now, (builder.course conditions session source earlier).after n session =
        (rest, now) → rest.isUnderWay = true →
      (rest.run now.cancel).1 = .error .cancelled ∧
        (rest.run now.cancel).2.calls = now.calls) ∧
    ∀ call before, call.isFetch = true →
      call :: before <:+ (builder.build conditions session source earlier).2.calls →
      ¬ call :: before <:+ session.calls →
      ∃ n rest now, (builder.course conditions session source earlier).after n session =
        (rest, now) ∧ rest.isUnderWay = true ∧ now.calls = call :: before := by
  constructor
  · rintro n rest now hafter hunderWay
    have hgives := heedsCancel_course.run_after ⟨t, h⟩ (n := n) (by rwa [hafter])
    rw [hafter] at hgives
    exact hgives.run rfl
  · intro call before hfetch hmade hnew
    obtain ⟨n, hcalls, hunderWay⟩ := paced_course.exists_after hmade hnew
    exact ⟨n, _, _, rfl, hunderWay hfetch, hcalls⟩

/-- A builder for one network, on whose chain there is a token. -/
def pinning : Builder :=
  (ofConfig { networks := ["testnet"] }).attach "testnet" (Engine.shopOn "testnet" "0x1").chain

/-- A source that imports the token from its address. -/
def tokenSource : String := "import Token from 0x1\ntransaction \x7b\x7d\n"

/-- What is made of the source, with a pin for the token. -/
def tokenDraft (pin : Option PinRecord) : Draft where
  kind := some .transaction
  body := "import \"Token\"\ntransaction \x7b\x7d\n"
  dependencies := [⟨"Token", [⟨"testnet", "0x0000000000000001", pin⟩]⟩]

theorem exists_pinNetwork_pinning : ∃ (records : Table PinRecord) (last : Session),
    (pinning.pinNetwork {} {} "testnet" (Engine.shopOn "testnet" "0x1").chain
        [⟨"Token", "0x0000000000000001"⟩]).run {} = (.ok ("testnet", records), last) ∧
      last.calls = [.fetch "testnet" "0x0000000000000001" "Token", .height "testnet"] ∧
      last.context.isOver = false := by
  have hread : (pinning.engineOn "testnet" (Engine.shopOn "testnet" "0x1").chain).inspect
      ⟨"Token", "0x0000000000000001"⟩ =
        .ok ⟨⟨"Token", "0x0000000000000001"⟩, Digest.ofText Engine.tokenText, []⟩ := by
    refine Engine.inspect_eq_ok_iff.2 ⟨_, _, [], by decide, Utf8.decode_ofText _, ?_, rfl⟩
    rw [Engine.childrenOf, String.ofList_toList, Engine.importsOf_tokenText]
    rfl
  obtain ⟨records, cache, last, hpins, hlast⟩ : ∃ records cache last,
      (pinning.engineOn "testnet" (Engine.shopOn "testnet" "0x1").chain).computePins {}
        [⟨"Token", "0x0000000000000001"⟩] 7 {} (Session.make {} {} (.height "testnet")) =
          (.ok records, cache, last) ∧
      last.calls = [.fetch "testnet" "0x0000000000000001" "Token", .height "testnet"] ∧
      last.context.isOver = false := Engine.computePins_single hread rfl rfl
  have hheight : (pinning.engineOn "testnet" (Engine.shopOn "testnet" "0x1").chain).latestHeight
      {} {} = (.ok 7, Session.make {} {} (.height "testnet")) := rfl
  exact ⟨_, last, run_pinNetwork hheight hpins, hlast⟩

/-- The template is built from the pin, whatever it is. -/
theorem exists_finish_tokenDraft (pin : Option PinRecord) (session : Session)
    (hover : session.context.isOver = false) :
    ∃ t, pinning.finish session (tokenDraft pin) = .ok t := by
  have hexecutable : (Template.ofDraft (tokenDraft pin)).view.executable "testnet" =
      .ok "import Token from 0x0000000000000001\ntransaction \x7b\x7d\n" := by
    rcases pin with _ | ⟨height, pin, _ | tree⟩ <;> cbv
  refine exists_finish hover ?_
  intro n hn
  rw [List.mem_singleton.1 hn]
  exact ⟨_, hexecutable⟩

theorem exists_build_pinning : ∃ t last,
    pinning.build {} {} tokenSource none = (.ok t, last) ∧
      last.calls = [.fetch "testnet" "0x0000000000000001" "Token", .height "testnet"] := by
  have hprepare : pinning.prepare {} tokenSource none =
      .ok ([⟨"Token", some "0x1"⟩], { tokenDraft none with dependencies := [] }) := by cbv
  have hplaces : [(⟨"Token", some "0x1"⟩ : Import)].mapM
      (fun i => pinning.registry.resolveAll i pinning.config.networks) =
        .ok [[⟨"Token", "testnet", "0x0000000000000001", none⟩]] := by cbv
  have hworkload : pinning.workload
      ([[⟨"Token", "testnet", "0x0000000000000001", none⟩]] : List (List Resolved)).flatten =
        [("testnet", (Engine.shopOn "testnet" "0x1").chain,
          [⟨"Token", "0x0000000000000001"⟩])] := by cbv
  obtain ⟨records, last, hpinned, hcalls, hover⟩ := exists_pinNetwork_pinning
  have hplaced : placement (Table.ofList [("testnet", records)])
      ⟨"Token", "testnet", "0x0000000000000001", none⟩ =
        ⟨"testnet", "0x0000000000000001", records.get? "Token"⟩ := rfl
  have hdependencies : (pinning.dependencies {} {} [⟨"Token", some "0x1"⟩]).run {} =
      (.ok (tokenDraft (records.get? "Token")).dependencies, last) := by
    rw [Builder.dependencies, if_neg (by decide), hplaces]
    dsimp only
    rw [Course.run_map, pinNetworks, hworkload, List.map_singleton, Course.all, Course.all,
      Course.run_both_ended, hpinned]
    simp [hplaced, tokenDraft, Except.map]
  obtain ⟨t, ht⟩ := exists_finish_tokenDraft (records.get? "Token") last hover
  exact ⟨t, last, build_of_run hprepare hdependencies ht, hcalls⟩

/-- The build of the token's source is cancelled while the token is fetched. -/
theorem cancelled_of_isUnderWay_pinning : ∃ t, (pinning.build {} {} tokenSource none).1 = .ok t ∧
    ∃ n rest now, (pinning.course {} {} tokenSource none).after n {} = (rest, now) ∧
      now.calls = [.fetch "testnet" "0x0000000000000001" "Token", .height "testnet"] ∧
      rest.isUnderWay = true ∧ (rest.run now.cancel).1 = .error .cancelled ∧
      (rest.run now.cancel).2.calls = now.calls := by
  obtain ⟨t, last, hbuild, hcalls⟩ := exists_build_pinning
  have ht : (pinning.build {} {} tokenSource none).1 = .ok t := by rw [hbuild]
  obtain ⟨hcancelled, hfetches⟩ := cancelled_of_isUnderWay ht
  obtain ⟨n, rest, now, hafter, hunderWay, hnow⟩ := hfetches
    (.fetch "testnet" "0x0000000000000001" "Token") [.height "testnet"] rfl
    (by rw [hbuild, hcalls]) (by simp)
  exact ⟨t, ht, n, rest, now, hafter, hnow, hunderWay, hcancelled n rest now hafter hunderWay⟩

end Builder

end Interaction
