import SchemaStack.Json.Reader
/-!
# Inventories of deployed tables

The tables that are deployed in an account, by region, as recorded in a file. Without recorded
regions the well-known ones are offered.
-/

namespace SchemaStack

structure DeployedTable where
  name : String
  arn : String
  region : String
deriving DecidableEq, Repr, Inhabited

/-- Names of resources consist of ASCII letters and digits; all else is left out. -/
def plainName (s : String) : String :=
  String.ofList (s.toList.filter fun c =>
    ('0' ≤ c && c ≤ '9') || ('a' ≤ c && c ≤ 'z') || ('A' ≤ c && c ≤ 'Z'))

namespace DeployedTable

def label (t : DeployedTable) : String := t.name ++ " (" ++ t.arn ++ ")"

def resourceName (t : DeployedTable) : String := plainName t.name

end DeployedTable

structure Inventory where
  regions : List String
  tables : List DeployedTable
deriving DecidableEq, Repr, Inhabited

namespace Inventory

def empty : Inventory := ⟨[], []⟩

def knownRegions : List String :=
  ["us-east-1", "us-east-2", "us-west-1", "us-west-2", "ca-central-1", "eu-west-1", "eu-west-2",
   "eu-west-3", "eu-central-1", "eu-north-1", "ap-south-1", "ap-northeast-1", "ap-northeast-2",
   "ap-southeast-1", "ap-southeast-2", "sa-east-1"]

def offeredRegions (i : Inventory) : List String :=
  if i.regions.isEmpty then knownRegions else i.regions

def tablesIn (i : Inventory) (region : String) : List DeployedTable :=
  i.tables.filter fun t => t.region == region

/-! ## Reading

A record is an object, in which unknown fields are skipped and known ones may not be repeated, or
an array of its fields in order. -/

def text? : JsonText → Option String
  | .string us => JsonText.string? us
  | _ => none

def list? {α : Type} (item : JsonText → Option α) : JsonText → Option (List α)
  | .array items => items.mapM item
  | _ => none

/-- The known fields of an object, each at most once. -/
def fields? (keys : List String) (members : List (List JsonUnit × JsonText)) :
    Option (Entries JsonText) :=
  members.foldlM (fun fs (k, v) => do
    let key ← JsonText.string? k
    if !keys.contains key then some fs
    else if fs.contains key then none
    else some (fs ++ [(key, v)])) []

def table? : JsonText → Option DeployedTable
  | .object members => do
    let fs ← fields? ["Name", "Arn", "Region"] members
    return ⟨← (fs.get? "Name").bind text?, ← (fs.get? "Arn").bind text?,
      ← (fs.get? "Region").bind text?⟩
  | .array [name, arn, region] => return ⟨← text? name, ← text? arn, ← text? region⟩
  | _ => none

/-- A part of an inventory that may be left out. -/
def listOr? {α : Type} (item : JsonText → Option α) : Option JsonText → Option (List α)
  | none => some []
  | some t => list? item t

def ofJsonText? : JsonText → Option Inventory
  | .object members => do
    let fs ← fields? ["regions", "tables"] members
    return ⟨← listOr? text? (fs.get? "regions"), ← listOr? table? (fs.get? "tables")⟩
  | .array [] => some empty
  | .array [regions] => return ⟨← list? text? regions, []⟩
  | .array [regions, tables] => return ⟨← list? text? regions, ← list? table? tables⟩
  | _ => none

def ofText? (text : String) : Option Inventory :=
  (JsonText.parse? text.toList).bind ofJsonText?

def tablesOfText? (text : String) : Option (List DeployedTable) :=
  (JsonText.parse? text.toList).bind (list? table?)

end Inventory

end SchemaStack
