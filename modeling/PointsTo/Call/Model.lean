import PointsTo.Extract.Step

/-!
# Call models

A call model recognises calls to functions it knows about, says how many objects
such a call owns, and describes the call in place of the general account of a call.

`CallModel.heapAllocator` and `CallModel.memoryCopy` are the models that are always
there; `CallModel.listed` is a model given by data.
-/

namespace PointsTo

/-- A call as a model sees it, with its callee if that is known. -/
structure CallSite where
  place : Place
  invoke : Invoke
  callee : Option (FunctionId × Function)

namespace CallSite

/-- The callee is known if it is the address of a function of the module. -/
def new (m : Module) (i : Place) (invoke : Invoke) : CallSite where
  place := i
  invoke := invoke
  callee :=
    match invoke.function with
    | .imm c =>
      match (m.constants.get? c).map TypedConst.value with
      | some (.functionAddr f) => (m.function? f).map fun function => (f, function)
      | _ => none
    | _ => none

def calleeName? (s : CallSite) : Option String := s.callee.map (·.2.name)

/-- The callee in messages. -/
def calleeText (s : CallSite) : String := s.calleeName?.getD "<indirect>"

end CallSite

/-- The objects of a call. -/
structure CallObjects where
  self : Value
  callee : ObjectRef
  args : List ObjectRef

/-- Knowledge about the calls of some functions. -/
structure CallModel where
  name : String
  /-- How many objects the call owns, if the model takes the call over. -/
  recognize : CallSite → Option Nat
  /-- How a call is described that the model took over: by any steps, also such that depend
  on the state of the description or end it. -/
  describe : CallSite → CallObjects → List Step

namespace CallModel

/-- Calls that give a fresh heap object, which the call owns. A call whose result is
dropped allocates nothing that could be pointed to. -/
def heapAllocator (symbols : List String) : CallModel where
  name := "heap_allocator"
  recognize site :=
    match site.calleeName?, site.invoke.dest with
    | some callee, some _ => if symbols.contains callee then some 1 else none
    | _, _ => none
  describe _ call :=
    let object := ObjectRef.affiliated call.self 1
    [.row ⟨.heapAlloc, [call.self, object]⟩,
      .row ⟨.memoryObject, [object, "heap"]⟩,
      .row ⟨.addressOf, [call.self, object]⟩]

/-- Calls that copy memory: what the source holds flows into the destination. -/
def memoryCopy : CallModel where
  name := "memory_copy"
  recognize site :=
    match site.calleeName? with
    | some callee =>
      let known := ["memcpy", "memmove"].contains callee ||
        ["llvm.memcpy.", "llvm.memmove."].any fun p => p.toList.isPrefixOf callee.toList
      if known && 2 ≤ site.invoke.args.length then some 0 else none
    | none => none
  describe site call :=
    match call.args with
    | destination :: source :: _ =>
      let copy : Step := .row ⟨.memCopy, [call.self, destination, source]⟩
      if site.invoke.dest.isSome then [copy, .row ⟨.move, [call.self, destination]⟩] else [copy]
    | _ => []

/-- A model given by data: the callee it knows, or any; the number of objects a call
owns; and the offsets of those that the call allocates. Arguments flow to the callee. -/
def listed (name : String) (callee : Option String) (affiliated : Nat) (offsets : List Nat) :
    CallModel where
  name := name
  recognize site :=
    match callee with
    | none => some affiliated
    | some known => if site.calleeName? = some known then some affiliated else none
  describe _ call :=
    offsets.map (fun k => .row ⟨.heapAlloc, [call.self, ObjectRef.affiliated call.self k]⟩) ++
      call.args.map fun arg => .row ⟨.move, [call.callee, arg]⟩

end CallModel

end PointsTo
