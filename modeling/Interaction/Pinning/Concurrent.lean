import Interaction.Pinning.Course
import Interaction.Pinning.Engine

/-!
# Pinning beside other work

What an engine does, as work that leaves room for other work: each fetch that is started and each
answer that arrives is an event. Alone in its session it comes to what the engine does by itself.
-/

namespace Interaction

namespace Engine

/-- The reading of the latest height. -/
def latestHeightCourse (engine : Engine) (conditions : Conditions) : Course (Except Failure Nat) :=
  .event (fun session => (engine.latestHeight conditions session).2) fun session =>
    .ended (engine.latestHeight conditions session).1

/-- The fetches of a level. -/
def gatherCourse (engine : Engine) (conditions : Conditions) (waiting : List (String × Site))
    (underWay : List Task) (arrived : List (String × Fetched)) :
    Course (Except Failure (List (String × Fetched))) :=
  if waiting.length + underWay.length = 0 then .ended (.ok arrived)
  else
    .event
      (fun session =>
        match engine.choose conditions session waiting.length underWay.length, waiting with
        | none, (key, site) :: _ => (engine.start conditions session key site).2
        | _, _ => session.pass)
      fun session =>
        match engine.choose conditions session waiting.length underWay.length with
        | some i =>
          match _h : underWay[i]? with
          | none => .ended (.ok arrived)
          | some task =>
            match Task.arrival conditions session task with
            | .error failure => .ended (.error failure)
            | .ok contract =>
              gatherCourse engine conditions waiting (underWay.eraseIdx i)
                (arrived ++ [(task.key, contract)])
        | none =>
          match waiting with
          | [] => .ended (.ok arrived)
          | (key, site) :: more =>
            gatherCourse engine conditions more
              (underWay ++ [(engine.start conditions session key site).1]) arrived
termination_by 2 * waiting.length + underWay.length
decreasing_by
  · have := (List.getElem?_eq_some_iff.1 _h).1
    rw [List.length_eraseIdx_of_lt this]
    omega
  · simp
    omega

/-- The walk over at most `levels` levels. -/
def discoverWithinCourse (engine : Engine) (conditions : Conditions) :
    (levels : Nat) → (seen : List String) → (sites : List Site) → Cache → (now : Session) →
      Course (Except Failure Unit × Cache)
  | 0, _, _, cache, _ => .ended (.ok (), cache)
  | levels + 1, seen, sites, cache, now =>
    if sites = [] then .ended (.ok (), cache)
    else if now.context.isOver then .ended (.error .cancelled, cache)
    else
      let level := engine.sortOut cache seen sites
      (engine.gatherCourse conditions level.missing [] []).andThen now fun now gathered =>
        match gathered with
        | .error failure => .ended (.error failure, cache)
        | .ok fetched =>
          let kept := keepAll cache fetched
          discoverWithinCourse engine conditions levels level.seen (level.next ++ kept.1) kept.2 now

/-- The pinning of contracts, from the reading of their graph to their records. -/
def computePinsCourse (engine : Engine) (conditions : Conditions) (roots : List Site)
    (height : Nat) (cache : Cache) (now : Session) :
    Course (Except Failure (List PinRecord) × Cache) :=
  let roots := roots.map Site.normalized
  let missing := roots.filter fun site => (cache.pin? (site.key engine.network)).isNone
  let levels := cache.size + engine.chain.size + 2
  (engine.discoverWithinCourse conditions levels [] missing cache now).andThen now
    fun now discovered =>
      match discovered with
      | (.error failure, cache) => .ended (.error failure, cache)
      | (.ok (), cache) =>
        let assembled := engine.assembleRoots now.context roots cache
        .ended (assembled.1.map fun trees => trees.map (PinRecord.ofTree height), assembled.2)

end Engine

end Interaction
