import PointsTo.Config
import PointsTo.Fact.Store
import PointsTo.Ir.Value
import PointsTo.ObjectTable

/-!
# Failures of an extraction

Each part of an extraction can fail for its own reasons; here they come together.
-/

namespace PointsTo

/-- Why a call cannot be given to one model. -/
inductive CallError
  /-- Several models recognise the call. -/
  | ambiguous (call : String) (models : List String)
  deriving DecidableEq

def CallError.message : CallError → String
  | .ambiguous call models =>
    s!"Call `{call}` is matched by several intrinsics: " ++ ", ".intercalate models ++ "."

/-- Why an extraction fails. -/
inductive ExtractError
  | object (e : ObjectError Value)
  | store (e : StoreError)
  | call (e : CallError)
  | config (e : ConfigError)
  | unit (fault : Fault)
  deriving DecidableEq

def ExtractError.message : ExtractError → String
  | .object e => e.message
  | .store e => e.message
  | .call e => e.message
  | .config e => e.message
  | .unit fault => s!"Invalid module: {fault.message}"

end PointsTo
