import SchemaStack.Digest.Basic
import SchemaStack.Document.Template
import SchemaStack.Project.Fault
import SchemaStack.Settings.Reader
/-!
# Files of a project

Outputs are written to a sibling file first, which then takes the place of the file. Parameters
that are missing or cannot be read count as none.
-/

namespace SchemaStack

def textBytes (s : String) : List UInt8 := s.toUTF8.data.toList

namespace Filesystem

/-- The directories above a path, as far as the path names any, nearest first. -/
def directoriesOf (p : Path) : List Path := (p.parent?.map Path.ancestors).getD []

/-- Puts a text at a path, making directories on the way. When the sibling cannot take the place
of the file, it stays. -/
def writeAtomic (fs : Filesystem) (p : Path) (text : String) :
    Except FileError Unit × Filesystem :=
  match makeDirectories (directoriesOf p) fs with
  | (.error f, fs) => (.error ⟨p.parent?.getD p, f⟩, fs)
  | (.ok (), fs) =>
    match fs.write p.temporary (textBytes text) with
    | .error f => (.error ⟨p.temporary, f⟩, fs)
    | .ok fs =>
      match fs.rename p.temporary p with
      | .error f => (.error ⟨p, f⟩, fs)
      | .ok fs => (.ok (), fs)

/-- The digest of a file, if there is a file. -/
def digest? (fs : Filesystem) (p : Path) : Except FileError (Option String) :=
  match fs.readBytes p with
  | .ok bytes => .ok (some (digestOfBytes bytes))
  | .error .notFound => .ok none
  | .error f => .error ⟨p, f⟩

def readJson (fs : Filesystem) (p : Path) : Except ProjectError Json :=
  match fs.readText p with
  | .error f => .error (.file ⟨p, f⟩)
  | .ok text =>
    match Json.parse? text with
    | none => .error .json
    | some j => .ok j

/-- The document that a template was written from. -/
def readTemplate (fs : Filesystem) (p : Path) : Except ProjectError Document := do
  match Document.ofJson? (← fs.readJson p) with
  | none => .error .json
  | some d => .ok d

def loadParameters (fs : Filesystem) (p : Path) : Entries Json :=
  (((fs.readText p).toOption.bind Json.parse?).bind Json.object?).getD []

def saveParameters (fs : Filesystem) (p : Path) (parameters : Entries Json) :
    Except FileError Unit × Filesystem :=
  fs.writeAtomic p (Json.object parameters).pretty

def loadSettings (fs : Filesystem) (p : Path) : Except ProjectError Settings :=
  match (fs.readText p).toOption.bind Settings.parse? with
  | none => .error (.settings p)
  | some s => .ok s

/-- The metadata of a project, which is empty where there is no file. -/
def loadMeta (fs : Filesystem) (p : Path) : Except SourceError ProjectMeta :=
  match fs.readText p with
  | .error .notFound => .ok .empty
  | .error f => .error (.file ⟨p, f⟩)
  | .ok text =>
    match ProjectMeta.ofText? text with
    | none => .error (.invalid p)
    | some m => .ok m

def loadInventory (fs : Filesystem) (p : Path) : Except SourceError Inventory :=
  match fs.readText p with
  | .error f => .error (.file ⟨p, f⟩)
  | .ok text =>
    match Inventory.ofText? text with
    | none => .error (.invalid p)
    | some i => .ok i

/-- The stem with the least number behind it, from one on, that is not taken. Among one more
candidates than there are names taken there is always one. -/
def freeName? (stem : String) (taken : List String) : Option String :=
  ((List.range (taken.length + 1)).map fun n => stem ++ toString (n + 1)).find?
    (!taken.contains ·)

/-- Adds a storage resource to the metadata file, under a name of its own. -/
def addStorage (fs : Filesystem) (p : Path) (category provider : String)
    (service : StorageService) : Except SourceError String × Filesystem :=
  match fs.loadMeta p with
  | .error e => (.error e, fs)
  | .ok m =>
    match freeName? service.stem ((m.categories.get? category).getD []).keys with
    | none => (.error (.failed "no free resource name"), fs)
    | some name =>
      let entry : Json := .object
        [("service", .string service.label), ("providerPlugin", .string provider)]
      match fs.writeAtomic p (m.add category name entry).toJson.pretty with
      | (.error e, fs) => (.error (.failed e.message), fs)
      | (.ok (), fs) => (.ok name, fs)

end Filesystem

/-- TableSources that rest on the metadata file of a project and a recorded inventory. Without a
category for storage resources none can be set up. -/
def TableSources.ofFiles (metaPath : Path) (inventory : Inventory) (category : Option String) :
    TableSources Unit where
  loadMeta fs _ := (fs.loadMeta metaPath, ())
  regions _ _ := (.ok inventory.offeredRegions, ())
  tables region _ _ := (.ok (inventory.tablesIn region), ())
  provision := category.map fun c provider service w =>
    let (result, files) := w.files.addStorage metaPath c provider service
    (result, { w with files })

end SchemaStack
