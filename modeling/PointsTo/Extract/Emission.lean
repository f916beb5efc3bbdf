import PointsTo.Extract.Plan

/-!
# Emission

Steps are carried out one after the other: rows get their ids and are checked
against a schema, types that are needed enter the type table, and questions about
pointers are answered. The first step that fails ends the emission; what was done
before stays done.

Steps that are known beforehand do not look at what a store already holds.
-/

namespace PointsTo

/-- A computation of an emission, which keeps what it did when it fails. -/
abbrev Emit := ExceptT ExtractError (StateM Emission)

namespace Emit

def note (notices : List Notice) : Emit Unit :=
  modify fun e => { e with log := e.log ++ notices }

def lift {α : Type} (x : Except ExtractError α) : Emit α :=
  match x with
  | .ok a => pure a
  | .error e => throw e

/-- The id of a type, which enters the table if it is not there. -/
def staticType (ty : StaticType) : Emit TypeId := do
  let types := (← get).types
  note (types.resolveNotices ty)
  let (id, types) := types.resolve ty
  modify fun e => { e with types }
  return id

/-- Whether a type holds a pointer. -/
def holdsPointer (id : TypeId) : Emit Bool := do
  let e ← get
  let (answer, memo) := e.memo.ask e.types id
  modify fun e => { e with memo }
  return answer

/-- Turn a row into a fact and append it. -/
def row (t : Emission.Target) (r : Row) : Emit Unit := do
  let fact ← lift (r.resolve t.objects (← get).types)
  lift ((t.schema.check r.relation fact).mapError .store)
  let entry : Entry := ⟨r.relation, fact⟩
  modify fun e => { e with entries := e.entries.push entry, log := e.log.push entry.notice }

/-- Append rows in order. -/
def rows (t : Emission.Target) : List Row → Emit Unit
  | [] => pure ()
  | r :: rest => do
    row t r
    rows t rest

end Emit

/-- The id of a value as text, in notices. -/
def ObjectTable.idText (x : ObjectTable Value) (v : Value) : String :=
  ((x.find? v).map ObjectId.text).getD ""

def Remark.notice (x : ObjectTable Value) : Remark → Notice
  | .emitting function blocks =>
    ⟨.debug, s!"Emitting facts for function `{function}` ({blocks} blocks)"⟩
  | .visiting c => ⟨.trace, s!"Visiting constant {c.text} as {x.idText (.constant c)}"⟩
  | .handled call model => ⟨.trace, s!"Call {x.idText call} handled by intrinsic `{model}`"⟩
  | .untraceable v name origin =>
    ⟨.warn, s!"Pointer `{name}` ({x.idText v}) produced by `{origin}` may point anywhere"⟩
  | .untraced name =>
    ⟨.debug, s!"No `{unknownObject}` special object configured, `{name}` left untraced"⟩

/-- Carry out an act. -/
def Act.run (t : Emission.Target) : Act → Emit Unit
  | .append r => Emit.row t r
  | .intern ty => do
    let types := (← get).types
    Emit.note (types.internNotices ty)
    modify fun e => { e with types := (types.intern ty).2 }
  | .ask id => do
    let _ ← Emit.holdsPointer id
  | .note n => Emit.note [n]
  | .fail error => throw error

/-- Carry out acts in order. -/
def Emit.acts (t : Emission.Target) : List Act → Emit Unit
  | [] => pure ()
  | a :: rest => do
    a.run t
    acts t rest

/-- Carry out a step. -/
def Step.run (t : Emission.Target) : Step → Emit Unit
  | .row r => Emit.row t r
  | .typed v ty => do
    let id ← Emit.staticType ty
    Emit.row t ⟨.valueType, [v, .typeText id]⟩
    if ← Emit.holdsPointer id then Emit.row t ⟨.pointerValue, [v]⟩
  | .intern ty => do
    let _ ← Emit.staticType ty
  | .ifPointer ty rs => do
    let id ← Emit.staticType ty
    if ← Emit.holdsPointer id then Emit.rows t rs
  | .need o => do
    let _ ← Emit.lift (o.resolve t.objects)
  | .remark r => Emit.note [r.notice t.objects]
  | .visited c => modify fun e => { e with visited := c :: e.visited }
  | .acts choose => do
    let e ← get
    Emit.acts t (choose t e)

/-- Carry out steps in order. -/
def Emit.steps (t : Emission.Target) : List Step → Emit Unit
  | [] => pure ()
  | s :: rest => do
    s.run t
    steps t rest

end PointsTo
