import PointsTo.Call.Model

/-!
# Collections of call models

Models are tried in order. If several recognise a call, the policy says whether the
first takes it or the call is refused.
-/

namespace PointsTo

/-- Call models in order, and what to do when several recognise a call. -/
structure CallModels where
  policy : OverlapRule
  models : List CallModel

namespace CallModels

/-- The models that are always there, as a configuration sets them up. -/
def standard (c : Config) : CallModels :=
  ⟨c.overlapRule, [.heapAllocator c.heapAllocators, .memoryCopy]⟩

def names (s : CallModels) : List String := s.models.map (·.name)

/-- The names of the models that recognise a call. -/
def candidateNames (s : CallModels) (site : CallSite) : List String :=
  (s.models.filter fun model => (model.recognize site).isSome).map (·.name)

/-- Try models in order, each given with its position; `found` is the one that has the call so
far, with the number of objects it asks for. A model that does not recognise the call is passed
over. One that does gets the call, and the search ends there if the first is to take it; but if
another has the call already, the call is refused. -/
def resolveFrom (s : CallModels) (site : CallSite) :
    Option (Nat × Nat) → List (CallModel × Nat) → Except CallError (Option (Nat × Nat))
  | found, [] => .ok found
  | found, (model, position) :: rest =>
    match model.recognize site with
    | none => s.resolveFrom site found rest
    | some affiliated =>
      if found.isSome then .error (.ambiguous site.calleeText (s.candidateNames site))
      else if s.policy = .firstMatch then .ok (some (position, affiliated))
      else s.resolveFrom site (some (position, affiliated)) rest

/-- The model that takes a call over, by position, and the number of objects the call
then owns. -/
def resolve (s : CallModels) (site : CallSite) : Except CallError (Option (Nat × Nat)) :=
  s.resolveFrom site none s.models.zipIdx

/-- The notices of `resolve`. -/
def resolveNotices (s : CallModels) (site : CallSite) : List Notice :=
  match s.resolve site with
  | .ok (some (position, _)) =>
    let name := ((s.models[position]?).map (·.name)).getD ""
    [⟨.debug, s!"Call to `{site.calleeText}` matched intrinsic `{name}`"⟩]
  | _ => []

/-- The full account of a collection. -/
def account (s : CallModels) : String :=
  let policy := match s.policy with
    | .firstMatch => "FirstMatch"
    | .rejectAmbiguous => "RejectAmbiguous"
  "IntrinsicRegistry \x7b policy: " ++ policy ++ ", matchers: " ++
    Text.bracketed (s.names.map Text.quoted) ++ " \x7d"

end CallModels

end PointsTo
