import PointsTo.Table

/-!
# Relations

A relation has a name and columns, each of one kind. The standard relations are
those that describe a module. A schema declares relations by name; declaring a name
again replaces its columns.
-/

namespace PointsTo

/-- The kind of a column. -/
inductive Column
  | object | int | str
  deriving DecidableEq

def Column.text : Column → String
  | .object => "object"
  | .int => "int"
  | .str => "str"

/-- The name of a kind in error messages. -/
def Column.title : Column → String
  | .object => "Object"
  | .int => "Int"
  | .str => "Str"

/-- A named list of columns. -/
structure Relation where
  name : String
  columns : List Column
  deriving DecidableEq

namespace Relation

def arity (r : Relation) : Nat := r.columns.length

def text (r : Relation) : String :=
  s!"{r.name}(" ++ ", ".intercalate (r.columns.map Column.text) ++ ")"

/-! ## The module and its symbols -/

def specialObject : Relation := ⟨"special_object", [.object, .str]⟩
def moduleName : Relation := ⟨"module", [.str]⟩
def global : Relation := ⟨"global", [.object, .str]⟩
/-- The initial content of a global's storage. -/
def globalInit : Relation := ⟨"global_init", [.object, .object]⟩
def function : Relation := ⟨"function", [.object, .str]⟩
/-- The function is defined elsewhere. -/
def functionDecl : Relation := ⟨"function_decl", [.object]⟩
def functionEntry : Relation := ⟨"function_entry", [.object, .object]⟩
/-- Function, position, argument. -/
def argument : Relation := ⟨"argument", [.object, .int, .object]⟩
/-- The argument may point to anything that is out of sight. -/
def freeArgument : Relation := ⟨"free_argument", [.object]⟩
def block : Relation := ⟨"block", [.object, .object]⟩
def successor : Relation := ⟨"successor", [.object, .object]⟩

/-! ## Values -/

/-- Instruction, opcode, block. -/
def instr : Relation := ⟨"instr", [.object, .str, .object]⟩
def valueType : Relation := ⟨"value_type", [.object, .str]⟩
/-- The type of the value holds a pointer. -/
def pointerValue : Relation := ⟨"pointer_value", [.object]⟩
/-- User, position, operand. -/
def operand : Relation := ⟨"operand", [.object, .int, .object]⟩
def constant : Relation := ⟨"constant", [.object, .str]⟩
/-- Aggregate, position, element. -/
def constElement : Relation := ⟨"const_element", [.object, .int, .object]⟩

/-! ## Memory -/

/-- Object and what it is: `stack`, `global`, `heap` or `function`. -/
def memoryObject : Relation := ⟨"memory_object", [.object, .str]⟩
def objectType : Relation := ⟨"object_type", [.object, .str]⟩
/-- The pointer holds the address of the object. -/
def addressOf : Relation := ⟨"address_of", [.object, .object]⟩
def load : Relation := ⟨"load", [.object, .object]⟩
def store : Relation := ⟨"store", [.object, .object, .object]⟩
/-- The address is derived from a base. -/
def elementAddr : Relation := ⟨"element_addr", [.object, .object]⟩
/-- Destination and source hold the same pointer. -/
def move : Relation := ⟨"move", [.object, .object]⟩
/-- Result, predecessor, incoming value. -/
def phi : Relation := ⟨"phi", [.object, .object, .object]⟩
/-- The pointer came from where it cannot be followed. -/
def unknownSource : Relation := ⟨"unknown_source", [.object, .object]⟩

/-! ## Calls -/

def call : Relation := ⟨"call", [.object, .object]⟩
def callArg : Relation := ⟨"call_arg", [.object, .int, .object]⟩
/-- The call gives a pointer. -/
def callReturn : Relation := ⟨"call_return", [.object]⟩
def returned : Relation := ⟨"return", [.object, .object]⟩
def heapAlloc : Relation := ⟨"heap_alloc", [.object, .object]⟩
/-- Call, destination, source. -/
def memCopy : Relation := ⟨"mem_copy", [.object, .object, .object]⟩

/-- The relations that describe a module. -/
def standard : List Relation :=
  [specialObject, moduleName, global, globalInit, function, functionDecl, functionEntry,
    argument, freeArgument, block, successor, instr, valueType, pointerValue, operand,
    constant, constElement, memoryObject, objectType, addressOf, load, store, elementAddr,
    move, phi, unknownSource, call, callArg, callReturn, returned, heapAlloc, memCopy]

end Relation

/-- Declared relations, by name. -/
structure Schema where
  relations : Table String Relation

namespace Schema

def empty : Schema := ⟨.empty⟩

/-- Declare a relation, in place of one with the same name. -/
def declare (s : Schema) (r : Relation) : Schema := ⟨s.relations.insert r.name r⟩

def standard : Schema := Relation.standard.foldl declare empty

def get? (s : Schema) (name : String) : Option Relation := s.relations.get? name

/-- Whether this very relation is declared, columns included. -/
def contains (s : Schema) (r : Relation) : Bool := s.get? r.name == some r

def size (s : Schema) : Nat := s.relations.size

/-- The declared relations in name order. -/
def toList (s : Schema) : List Relation := s.relations.values

end Schema

end PointsTo
