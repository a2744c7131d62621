import SchemaStack.Override.Sources
import SchemaStack.Settings
/-!
# Sessions

A session asks an operator which generated tables to replace, and by what. Each of its states
waits for one answer. Whatever goes wrong while a replacement is looked for is reported, and the
operator is asked again where the replacement should come from; only a prompt that cannot be
answered ends the session early.
-/

namespace SchemaStack

namespace Session

/-- Nothing to choose from. -/
inductive EmptyMenu where
  | projectTables
  | regionTables
  | regions
deriving DecidableEq, Repr

/-- What a session asks of its sources. -/
inductive Call where
  | loadMeta
  | regions
  | tables (region : String)
  | provision (provider : String) (service : StorageService)
deriving DecidableEq, Repr

/-- Why a replacement was not found. -/
inductive Setback where
  | noPlugin
  | nothing (menu : EmptyMenu)
  | failed (call : Call) (e : SourceError)
  | invalidSelection
deriving DecidableEq, Repr

inductive Prompt where
  | confirm (text : String)
  | select (text : String) (items : List String)
deriving DecidableEq, Repr

def Prompt.text : Prompt → String
  | .confirm t => t
  | .select t _ => t

inductive Event where
  | detected (count : Nat)
  | asked (p : Prompt)
  | called (c : Call)
  | added (name : String)
  | reported (s : Setback)
deriving DecidableEq, Repr

/-- What the operator does at a prompt. -/
inductive Answer where
  | confirm (yes : Bool)
  | select (index : Nat)
  /-- Something that answers no prompt. -/
  | other
deriving DecidableEq, Repr

inductive PromptError where
  | unanswered (text : String)
  | noTerminal
deriving DecidableEq, Repr

def PromptError.message : PromptError → String
  | .unanswered text => "no answer scripted for prompt '" ++ text ++ "'"
  | .noTerminal => "prompt failed: IO error: not a terminal"

structure Outcome where
  /-- Whether the operator wants to replace tables at all. -/
  accepted : Bool
  /-- In the order in which they were chosen. -/
  overrides : List TableOverride
deriving DecidableEq, Repr, Inhabited

/-! ## Messages -/

def EmptyMenu.message (service : StorageService) : EmptyMenu → String
  | .projectTables =>
    "There are no " ++ service.label ++ " resources configured in your project currently"
  | .regionTables =>
    "You do not have any " ++ service.label ++ " tables configured for the selected region"
  | .regions => "No regions are available"

def Call.label : Call → String
  | .loadMeta => "project metadata"
  | .regions => "region listing"
  | .tables _ => "table listing"
  | .provision .. => "storage provisioning"

def Setback.message (service : StorageService) : Setback → String
  | .noPlugin =>
    "Storage plugin not installed in the CLI. Please install it to use this feature"
  | .nothing menu => menu.message service
  | .failed call e => call.label ++ " failed: " ++ e.message
  | .invalidSelection => "Invalid option selected"

def detectedMessage (service : StorageService) (count : Nat) : String :=
  "We've detected " ++ toString count ++ " " ++ service.label ++
    " resources which would be created for you as a part of the AppSync service."

def addedMessage (service : StorageService) (name : String) : String :=
  "Successfully added " ++ service.label ++ " table " ++ name ++ " locally"

/-! ## States -/

/-- What the next answer is about. From the choice of a source on, `table` is the one to be
replaced. -/
inductive Waiting where
  | gate
  | target
  | source (table : String)
  | reuse (table : String) (names : List String)
  | region (table : String) (regions : List String)
  | deployed (table : String) (tables : List DeployedTable)
  | more
deriving DecidableEq, Repr

/-- The prompt of a state, where `tables` are the generated ones. -/
def Waiting.prompt (service : StorageService) (tables : List String) : Waiting → Prompt
  | .gate => .confirm "Do you want to use your own tables instead?"
  | .target => .select "Choose a table to configure:" tables
  | .source _ =>
    .select ("Choose a " ++ service.label ++ " data source option")
      (TableSource.all.map (TableSource.label service))
  | .reuse _ names =>
    .select ("Choose from one of the already configured " ++ service.label ++ " tables") names
  | .region _ regions => .select "Please select a region:" regions
  | .deployed _ ts =>
    .select ("Please select a " ++ service.label ++ " table:") (ts.map DeployedTable.label)
  | .more => .confirm "Do you want to configure more tables?"

inductive Next where
  | ask (w : Waiting) (overrides : List TableOverride)
  | stop (o : Outcome)
deriving DecidableEq, Repr

/-- What one answer brings about. -/
structure Step (σ : Type) where
  events : List Event
  world : World σ
  next : Next

variable {σ : Type} (s : OverrideSettings) (sources : TableSources σ) (tables : List String)

/-- Reports a setback and asks for a source again. -/
def setBack (table : String) (done : List TableOverride) (calls : List Event) (why : Setback)
    (world : World σ) : Step σ :=
  ⟨calls ++ [.reported why], world, .ask (.source table) done⟩

/-- Notes a replacement and asks whether there are more. -/
def replace (table : String) (done : List TableOverride) (r : Replacement) (calls : List Event)
    (world : World σ) : Step σ :=
  ⟨calls, world, .ask .more (done ++ [⟨table, r⟩])⟩

/-- Offers the storage resources of the project. -/
def offerProjectTables (table : String) (done : List TableOverride) (world : World σ) : Step σ :=
  let calls := [Event.called .loadMeta]
  match world.ask sources.loadMeta with
  | (.error e, world) => setBack table done calls (.failed .loadMeta e) world
  | (.ok projectMeta, world) =>
    match projectMeta.resourcesOf s.storageCategory s.service.label with
    | [] => setBack table done calls (.nothing .projectTables) world
    | names => ⟨calls, world, .ask (.reuse table names) done⟩

/-- Sets up a new storage resource. -/
def addTable (table : String) (done : List TableOverride) (world : World σ) : Step σ :=
  match sources.provision with
  | none => setBack table done [] .noPlugin world
  | some provision =>
    let call := Call.provision s.provider s.service
    match provision s.provider s.service world with
    | (.error e, world) => setBack table done [.called call] (.failed call e) world
    | (.ok name, world) =>
      replace table done (.added name (.storageArn s.storageCategory name))
        [.called call, .added name] world

def offerRegions (table : String) (done : List TableOverride) (world : World σ) : Step σ :=
  let calls := [Event.called .regions]
  match world.ask sources.regions with
  | (.error e, world) => setBack table done calls (.failed .regions e) world
  | (.ok [], world) => setBack table done calls (.nothing .regions) world
  | (.ok regions, world) => ⟨calls, world, .ask (.region table regions) done⟩

def offerDeployed (table region : String) (done : List TableOverride) (world : World σ) :
    Step σ :=
  let calls := [Event.called (.tables region)]
  match world.ask (sources.tables region) with
  | (.error e, world) => setBack table done calls (.failed (.tables region) e) world
  | (.ok [], world) => setBack table done calls (.nothing .regionTables) world
  | (.ok found, world) => ⟨calls, world, .ask (.deployed table found) done⟩

def lookIn (source : TableSource) (table : String) (done : List TableOverride)
    (world : World σ) : Step σ :=
  match source with
  | .currentProject => offerProjectTables s sources table done world
  | .newResource => addTable s sources table done world
  | .cloudResource => offerRegions sources table done world

/-- What an answer of the right kind leads to; an answer of another kind leads nowhere. -/
def step? (w : Waiting) (done : List TableOverride) (world : World σ) :
    Answer → Option (Step σ)
  | .confirm yes =>
    match w with
    | .gate => some ⟨[], world, if yes then .ask .target done else .stop ⟨false, []⟩⟩
    | .more => some ⟨[], world, if yes then .ask .target done else .stop ⟨true, done⟩⟩
    | _ => none
  | .select i =>
    match w with
    | .target =>
      match tables[i]? with
      | none => some ⟨[.reported .invalidSelection], world, .ask .target done⟩
      | some t => some ⟨[], world, .ask (.source t) done⟩
    | .source t =>
      match TableSource.all[i]? with
      | none => some (setBack t done [] .invalidSelection world)
      | some source => some (lookIn s sources source t done world)
    | .reuse t names =>
      match names[i]? with
      | none => some (setBack t done [] .invalidSelection world)
      | some name =>
        some (replace t done (.reused name (.storageArn s.storageCategory name)) [] world)
    | .region t regions =>
      match regions[i]? with
      | none => some (setBack t done [] .invalidSelection world)
      | some region => some (offerDeployed sources t region done world)
    | .deployed t found =>
      match found[i]? with
      | none => some (setBack t done [] .invalidSelection world)
      | some d => some (replace t done (.deployed d) [] world)
    | _ => none
  | .other => none

/-! ## Runs -/

/-- A whole session. -/
structure Transcript (σ : Type) where
  events : List Event
  outcome : Except PromptError Outcome
  /-- How many answers were not used. -/
  left : Nat
  world : World σ

/-- What answers the prompts of a session. -/
inductive Operator where
  | scripted (answers : List Answer)
  | absent

def Operator.answers : Operator → List Answer
  | .scripted as => as
  | .absent => []

/-- How a prompt fails that has no answer. -/
def Operator.failure : Operator → String → PromptError
  | .scripted _ => .unanswered
  | .absent => fun _ => .noTerminal

/-- Goes on from a state with the answers that are left. -/
def proceed (failure : String → PromptError) (w : Waiting) (done : List TableOverride)
    (world : World σ) : List Answer → Transcript σ
  | [] =>
    let p := w.prompt s.service tables
    ⟨[.asked p], .error (failure p.text), 0, world⟩
  | a :: as =>
    let p := w.prompt s.service tables
    match step? s sources tables w done world a with
    | none => ⟨[.asked p], .error (failure p.text), as.length, world⟩
    | some st =>
      match st.next with
      | .stop o => ⟨.asked p :: st.events, .ok o, as.length, st.world⟩
      | .ask w done =>
        let t := proceed failure w done st.world as
        { t with events := .asked p :: (st.events ++ t.events) }

/-- The session over the generated tables. Without tables nothing is asked. -/
def run (operator : Operator) (world : World σ) : Transcript σ :=
  if tables.isEmpty then ⟨[], .ok ⟨false, []⟩, operator.answers.length, world⟩
  else
    let t := proceed s sources tables operator.failure .gate [] world operator.answers
    { t with events := .detected tables.length :: t.events }

end Session

end SchemaStack
