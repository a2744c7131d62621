import SchemaStack.CommandLine.Command
import SchemaStack.Project.Compilation
import SchemaStack.Settings.Printer
/-!
# Running commands

What a command prints, how it fails, and the files it leaves. There is no terminal, so that a
session ends at its first prompt.
-/

namespace SchemaStack

/-- What came of a command. Lines that were printed stay printed when it fails. -/
structure Execution where
  lines : List String
  failure : Option ProjectError
  files : Filesystem

namespace Execution

def output (e : Execution) : String := String.join (e.lines.map (· ++ "\n"))

def succeeded (lines : List String) (fs : Filesystem) : Execution := ⟨lines, none, fs⟩

def failed (e : ProjectError) (fs : Filesystem) : Execution := ⟨[], some e, fs⟩

end Execution

namespace Command

/-- The settings file that is looked for where none is named. -/
def settingsFile : String := "schemaform.yaml"

/-- The settings in a file, or those of a directory, which may have none. -/
def settingsFor (fs : Filesystem) (file : Option Path) (dir : Path) :
    Except ProjectError Settings :=
  match file with
  | some p => fs.loadSettings p
  | none =>
    let p := dir.join settingsFile
    if fs.has p then fs.loadSettings p else .ok {}

def runInit (dir : Path) (fs : Filesystem) : Execution :=
  let p := dir.join settingsFile
  if fs.has p then .failed (.settingsExist p) fs
  else
    match Filesystem.makeDirectories dir.ancestors fs with
    | (.error f, fs) => .failed (.file ⟨dir, f⟩) fs
    | (.ok (), fs) =>
      match fs.write p (textBytes Settings.defaultText) with
      | .error f => .failed (.file ⟨p, f⟩) fs
      | .ok fs => .succeeded ["Created " ++ p.text] fs

def inventoryAt (fs : Filesystem) : Option Path → Except SourceError Inventory
  | none => .ok .empty
  | some p => fs.loadInventory p

/-- The line that an event of a session prints. Setbacks are not part of the output. -/
def eventLine? (service : StorageService) : Session.Event → Option String
  | .detected n => some (Session.detectedMessage service n)
  | .added name => some ("✓ " ++ Session.addedMessage service name)
  | _ => none

def reportLines (r : Report) : List String :=
  ["Compiled " ++ r.resourceDir.text ++ " (" ++ toString r.resources ++ " resources)",
   "  Template: " ++ r.templatePath.text ++ " [" ++ r.digest ++ "]" ++
     (if r.templateChanged then "" else " (unchanged)")] ++
  r.overrides.overrides.map fun o => "  " ++ o.table ++ " -> " ++ o.replacement.value.compact

def runCompile (o : CompileOptions) (settings inventory : Option Path) (fs : Filesystem) :
    Execution :=
  match settingsFor fs settings o.projectDir with
  | .error e => .failed e fs
  | .ok s =>
    match inventoryAt fs inventory with
    | .error e => .failed (.source e) fs
    | .ok i =>
      let r := Compilation.runOnFiles s o i .absent fs
      let shown := r.events.filterMap (eventLine? s.override.service)
      match r.result with
      | .error e => ⟨shown, some e, r.world.files⟩
      | .ok none => ⟨shown ++ ["No AppSync resource to compile"], none, r.world.files⟩
      | .ok (some report) => ⟨shown ++ reportLines report, none, r.world.files⟩

def padded (width : Nat) (s : String) : String :=
  s ++ String.ofList (List.replicate (width - s.length) ' ')

def summaryLine (t : ResourceType) (count : Nat) : String :=
  "  " ++ padded 28 t.tag ++ " " ++ toString count

/-- The configuration under which a schema is checked. Its API is named after the directory. -/
def checkedConfig (s : Settings) (fs : Filesystem) (dir : Path) (pool : Option String) :
    BuildConfig :=
  let c := s.build.resolve [] ((fs.nameOf? dir).getD "api")
  match pool with
  | none => c
  | some id => c.withUserPool id

def validityLines (schema : Path) (d : Document) (stages : List String) : List String :=
  ("OK: " ++ schema.text ++ " (" ++ toString d.size ++ " resources, stages: " ++
    ", ".intercalate stages ++ ")") :: d.summary.map fun (t, n) => summaryLine t n

def runValidate (schema : Path) (pool : Option String) (settings : Option Path)
    (fs : Filesystem) : Execution :=
  let dir := schema.parent?.getD ⟨"."⟩
  match settingsFor fs settings dir with
  | .error e => .failed e fs
  | .ok s =>
    match fs.readText schema with
    | .error f => .failed (.file ⟨schema, f⟩) fs
    | .ok text =>
      match Pipeline.standard (checkedConfig s fs dir pool) with
      | .error e => .failed (.build e) fs
      | .ok p =>
        match p.compile text with
        | .error e => .failed (.build e) fs
        | .ok d => .succeeded (validityLines schema d p.names) fs

def runClassify (template : Path) (tag : String) (fs : Filesystem) : Execution :=
  match fs.readJson template with
  | .error e => .failed e fs
  | .ok j => .succeeded (j.idsOfTag tag) fs

/-- The directory of a file. -/
def directoryOf (p : Path) : Path :=
  match p.parent? with
  | some d => if d.text.isEmpty then ⟨"."⟩ else d
  | none => p

/-- The directories in which a command finds its files. -/
def directories : Command → List Path
  | .init dir => [dir]
  | .compile resourceDir projectDir settings inventory _ =>
    projectDir :: (resourceDir.toList ++
      (settings.toList ++ inventory.toList).map directoryOf)
  | .validate schema _ settings => (schema :: settings.toList).map directoryOf
  | .classify template _ => [directoryOf template]

def run (fs : Filesystem) : Command → Execution
  | .init dir => runInit dir fs
  | .compile resourceDir projectDir settings inventory keepTables =>
    runCompile { resourceDir, projectDir, parameters := none, keepTables } settings inventory fs
  | .validate schema pool settings => runValidate schema pool settings fs
  | .classify template tag => runClassify template tag fs

end Command

end SchemaStack
