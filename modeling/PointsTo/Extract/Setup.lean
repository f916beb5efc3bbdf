import PointsTo.Call.Models

/-!
# What an extraction is about

A setup is a module with a configuration and call models. Its parts are first given
ids and then described; which model took over which call is remembered in between.
-/

namespace PointsTo

/-- The input of an extraction. -/
structure Setup where
  unit : Module
  config : Config
  models : CallModels

/-- Whether the pointer arguments of a function come from outside. Those of a
declaration are never seen. -/
def FreeArguments.admits (p : FreeArguments) (f : Function) : Bool :=
  !f.isDeclaration && match p with
    | .externallyVisible => f.linkage == .external
    | .allPointers => true
    | .never => false

/-- Whether an argument of a function is free, given whether it holds a pointer. -/
def FreeArguments.isFree (p : FreeArguments) (f : Function) (pointer : Bool) : Bool :=
  pointer && p.admits f

/-- Which model took each call over, by position. -/
abbrev MatchedCalls := List (Place × Nat)

end PointsTo
