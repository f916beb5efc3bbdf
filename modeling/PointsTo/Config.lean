import PointsTo.Distinct
import PointsTo.Ident
import PointsTo.Toml.Document

/-!
# Configuration

What is left to the analysis: the special objects and thereby the reserved ids, how
many objects an allocation site owns, which arguments count as free, which functions
allocate, and what happens when several call models recognise one call.

`Config.parse` reads a configuration from TOML; what is not mentioned has its default.
-/

namespace PointsTo

/-- Which pointer arguments come from outside the analysed unit. -/
inductive FreeArguments
  /-- Those of defined functions that other modules can call. -/
  | externallyVisible
  /-- Those of every defined function. -/
  | allPointers
  | never
  deriving DecidableEq

/-- What to do with a call that several models recognise. -/
inductive OverlapRule
  | firstMatch
  | rejectAmbiguous
  deriving DecidableEq

/-- A configuration of the extraction. -/
structure Config where
  /-- Names of the special objects, in id order. -/
  specialObjects : List String
  /-- How many objects a stack allocation owns; with none it is its own memory. -/
  allocaObjects : Nat
  /-- How many objects a global owns. -/
  globalObjects : Nat
  freeArguments : FreeArguments
  overlapRule : OverlapRule
  /-- Functions whose calls give a fresh heap object. -/
  heapAllocators : List String
  deriving DecidableEq

/-- Why there is no usable configuration. -/
inductive ConfigError
  | parse
  | duplicateSpecial (name : String)
  deriving DecidableEq

/-- The special object for memory that is out of sight. -/
def unknownObject : String := "unknown"

/-- The special object that the null pointer points to. -/
def nullObject : String := "null"

def ConfigError.message : ConfigError → String
  | .parse => "Failed to parse fact extraction configuration."
  | .duplicateSpecial name => s!"Special object `{name}` is declared more than once."

namespace Config

def default : Config where
  specialObjects := [unknownObject, nullObject]
  allocaObjects := 1
  globalObjects := 1
  freeArguments := .externallyVisible
  overlapRule := .firstMatch
  heapAllocators := ["malloc", "calloc", "realloc", "_Znwm", "_Znam"]

/-- Special objects must have different names. -/
def validate (c : Config) : Except ConfigError Unit :=
  match firstRepeat? c.specialObjects with
  | some name => .error (.duplicateSpecial name)
  | none => .ok ()

/-- The number of reserved ids. -/
def specialCount (c : Config) : Nat := c.specialObjects.length

/-- The reserved id of a special object. -/
def specialId? (c : Config) (name : String) : Option ObjectId :=
  (c.specialObjects.idxOf? name).map ObjectId.mk

/-! ## Reading -/

open Toml (Value Entries)

def readStrings : Value → Option (List String)
  | .array _ items => items.mapM fun
    | .string s => some s
    | _ => none
  | _ => none

/-- A count is a 32-bit natural number. -/
def readCount : Value → Option Nat
  | .integer (some n) => if 0 ≤ n ∧ n < 4294967296 then some n.toNat else none
  | _ => none

/-- A choice is the name of an option, or a table that has only that name, with
nothing under it. -/
def readChoice {α : Type} (options : List (String × α)) : Value → Option α
  | .string s => options.lookup s
  | .table _ [(s, .table _ [])] => options.lookup s
  | .table _ [(s, .array _ [])] => options.lookup s
  | _ => none

def freeArgumentOptions : List (String × FreeArguments) :=
  [("externally_visible", .externallyVisible), ("all_pointers", .allPointers), ("never", .never)]

def overlapOptions : List (String × OverlapRule) :=
  [("first_match", .firstMatch), ("reject_ambiguous", .rejectAmbiguous)]

/-- The counts of owned objects by name. -/
def readAffiliatedEntry (c : Config) : String × Value → Option Config
  | (key, v) =>
    if key = "alloca" then (readCount v).map fun n => { c with allocaObjects := n }
    else if key = "global" then (readCount v).map fun n => { c with globalObjects := n }
    else none

/-- The counts of owned objects, by name or by position. -/
def readAffiliated (c : Config) : Value → Option Config
  | .table _ entries => entries.foldlM readAffiliatedEntry c
  | .array _ [] => some c
  | .array _ [a] => readAffiliatedEntry c ("alloca", a)
  | .array _ (a :: g :: _) =>
    (readAffiliatedEntry c ("alloca", a)).bind fun c => readAffiliatedEntry c ("global", g)
  | _ => none

/-- Set what one entry of the document says. -/
def readEntry (c : Config) : String × Value → Option Config
  | (key, v) =>
    if key = "special_objects" then (readStrings v).map fun l => { c with specialObjects := l }
    else if key = "affiliated" then readAffiliated c v
    else if key = "free_arguments" then
      (readChoice freeArgumentOptions v).map fun p => { c with freeArguments := p }
    else if key = "conflict_policy" then
      (readChoice overlapOptions v).map fun p => { c with overlapRule := p }
    else if key = "heap_allocators" then
      (readStrings v).map fun l => { c with heapAllocators := l }
    else none

/-- The configuration a document describes, over the default. -/
def ofEntries (entries : Entries) : Option Config := entries.foldlM readEntry default

/-- Read and check a configuration. -/
def parse (source : String) : Except ConfigError Config :=
  match (Toml.parse? source).bind ofEntries with
  | none => .error .parse
  | some c => c.validate.map fun _ => c

end Config

end PointsTo
