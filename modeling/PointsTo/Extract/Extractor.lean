import PointsTo.Extract.Emission
import PointsTo.Extract.Registration

/-!
# Extractors

An extractor is a checked module whose parts all have ids. It describes the module
by facts, as often as it is asked. It remembers which types hold pointers, and, within a
description, which constants have been described.
-/

namespace PointsTo

/-- A module with ids for all of its parts. -/
structure Extractor where
  setup : Setup
  objects : ObjectTable Value
  matched : MatchedCalls
  memo : PointerMemo
  /-- The constants that the last description came to. -/
  visited : List ConstId

namespace Extractor

/-- Check the configuration and the module, then register the parts of the module. The
notices are there also if this fails. -/
def new (s : Setup) : Except ExtractError Extractor × Array Notice :=
  match s.config.validate with
  | .error e => (.error (.config e), #[])
  | .ok _ =>
    match s.unit.verify with
    | .error fault => (.error (.unit fault), #[])
    | .ok _ =>
      let start : Registering := ⟨.new s.config.specialCount, [], #[]⟩
      match start.settle s s.requests with
      | (.error e, r) => (.error (.call e), r.log)
      | (.ok _, r) =>
        let done : Notice := ⟨.info,
          s!"Assigned {r.objects.size} object ids in module `{s.unit.name}` " ++
            s!"({r.objects.special} special, {r.matched.length} intrinsic calls)"⟩
        (.ok ⟨s, r.objects, r.matched, .empty, []⟩, r.log.push done)

/-- What one description of the module gives. -/
structure Run where
  outcome : Except ExtractError Unit
  /-- The facts that were accepted, also those before a failure. -/
  entries : Array Entry
  types : TypeTable
  memo : PointerMemo
  visited : List ConstId
  log : Array Notice

/-- Describe the parts of the module by facts for a store, but for the constants that have been
visited. -/
def emit (x : Extractor) (types : TypeTable) (store : FactStore) : Run :=
  let start : Emission := ⟨types, x.memo, x.visited, #[], #[]⟩
  let steps := x.setup.planFrom x.visited x.matched
  let (outcome, e) := ((Emit.steps ⟨x.objects, store⟩ steps).run).run start
  let done : List Notice := match outcome with
    | .ok _ => [⟨.info, s!"Generated {e.entries.size} facts for module `{x.setup.unit.name}`"⟩]
    | .error _ => []
  ⟨outcome, e.entries, e.types, e.memo, e.visited, e.log ++ done⟩

/-- Forget which constants have been visited. -/
def clear (x : Extractor) : Extractor := { x with visited := [] }

/-- Describe the module by facts for a store, with all of its constants. -/
def run (x : Extractor) (types : TypeTable) (store : FactStore) : Run :=
  x.clear.emit types store

/-- What describing a module into a store leaves behind. -/
structure Generated where
  outcome : Except ExtractError Unit
  extractor : Extractor
  types : TypeTable
  store : FactStore
  log : Array Notice

/-- Describe the module and append the facts to a store. If this fails, the facts
before the failure stay. -/
def generate (x : Extractor) (types : TypeTable) (store : FactStore) : Generated :=
  let r := x.run types store
  ⟨r.outcome, { x with memo := r.memo, visited := r.visited }, r.types,
    r.entries.foldl FactStore.record store, r.log⟩

/-- Whether a type holds a pointer, by the answers of this extractor. -/
def holdsPointer (x : Extractor) (types : TypeTable) (id : TypeId) : Bool × Extractor :=
  let (answer, memo) := x.memo.ask types id
  (answer, { x with memo })

end Extractor

end PointsTo
