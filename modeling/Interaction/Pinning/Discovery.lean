import Interaction.Pinning.Gathering

/-!
# Discovering an import graph

Discovery walks an import graph level by level and puts every contract it meets into the cache.
What a level imports is the next level. A contract that is in the cache already is not fetched
again, one that has been met before in the walk is passed over, and a level whose fetches fail
puts nothing into the cache.
-/

namespace Interaction

namespace Engine

/-- A level sorted out: the keys met so far, what its cached contracts import, and the contracts
that are to be fetched. -/
structure Frontier where
  seen : List String
  next : List Site := []
  missing : List (String × Site) := []

def Frontier.add (network : String) (cache : Cache) (level : Frontier) (site : Site) : Frontier :=
  let key := site.key network
  if level.seen.contains key then level
  else
    let seen := key :: level.seen
    match cache.contract? key with
    | some known => { level with seen := seen, next := level.next ++ known.children }
    | none => { level with seen := seen, missing := level.missing ++ [(key, site)] }

def sortOut (engine : Engine) (cache : Cache) (seen : List String) (sites : List Site) :
    Frontier :=
  sites.foldl (Frontier.add engine.network cache) { seen := seen }

/-- Puts fetched contracts into the cache, and answers what the kept ones import. -/
def keepAll (cache : Cache) (fetched : List (String × Fetched)) : List Site × Cache :=
  fetched.foldl
    (fun state entry =>
      let kept := state.2.keep entry.1 entry.2
      (state.1 ++ kept.1.children, kept.2))
    ([], cache)

/-- Walks at most `levels` levels. -/
def discoverWithin (engine : Engine) (conditions : Conditions) :
    (levels : Nat) → (seen : List String) → (sites : List Site) → Cache → Session →
      Except Failure Unit × Cache × Session
  | 0, _, _, cache, session => (.ok (), cache, session)
  | levels + 1, seen, sites, cache, session =>
    if sites = [] then (.ok (), cache, session)
    else if session.context.isOver then (.error .cancelled, cache, session)
    else
      let level := engine.sortOut cache seen sites
      match engine.gather conditions session level.missing [] [] with
      | (.error failure, session) => (.error failure, cache, session)
      | (.ok fetched, session) =>
        let kept := keepAll cache fetched
        discoverWithin engine conditions levels level.seen (level.next ++ kept.1) kept.2 session

/-- Walks the graph from the given contracts to its end. Every level but the last meets a contract
for the first time, either a cached or a deployed one, which bounds the number of levels. -/
def discover (engine : Engine) (conditions : Conditions) (sites : List Site) (cache : Cache)
    (session : Session) : Except Failure Unit × Cache × Session :=
  engine.discoverWithin conditions (cache.size + engine.chain.size + 2) [] sites cache session

end Engine

end Interaction
