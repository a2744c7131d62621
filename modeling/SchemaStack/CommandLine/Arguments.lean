/-!
# Arguments

How a list of arguments is read against the options that a command has. Options may be written
`--name value`, `--name=value`, `-nvalue`, `-n=value` or `-n value`, and after `--` all arguments
stand for themselves. An option may be given once. Reading goes from left to right and stops at
the first mistake or where help is asked for, whichever comes first.
-/

namespace SchemaStack.CommandLine

inductive OptionKind where
  | flag
  | text
  /-- A text that is not empty. -/
  | path
deriving DecidableEq, Repr, Inhabited

structure OptionSpec where
  name : String
  short : Option Char
  kind : OptionKind
deriving Repr

/-- What a command takes. -/
structure Spec where
  options : List OptionSpec
  /-- Whether one argument may stand by itself. It is a path. -/
  operand : Bool
deriving Repr

/-- Why reading stops early. -/
inductive Stop where
  | helped
  | refused
deriving DecidableEq, Repr

/-- The options that were given, with their values, and the argument that stands by itself. -/
structure Given where
  options : List (String × String)
  operand : Option String
deriving Repr

namespace Given

def none : Given := ⟨[], Option.none⟩

def has (g : Given) (name : String) : Bool := (g.options.lookup name).isSome

def value? (g : Given) (name : String) : Option String := g.options.lookup name

/-- Gives an option its value. -/
def set (g : Given) (o : OptionSpec) (value : String) : Except Stop Given :=
  if g.has o.name || (o.kind == .path && value.isEmpty) then .error .refused
  else .ok { g with options := (o.name, value) :: g.options }

def setOperand (g : Given) (spec : Spec) (value : String) : Except Stop Given :=
  if spec.operand && g.operand.isNone && !value.isEmpty then
    .ok { g with operand := some value }
  else .error .refused

end Given

/-- Whether an argument is no value: it starts with a dash and is more than that. -/
def isOptionLike (a : String) : Bool :=
  match a.toList with
  | '-' :: _ :: _ => true
  | _ => false

/-- An option that was named, and what is attached to it. -/
inductive Named where
  | done (g : Given)
  /-- The value is the next argument. -/
  | needsValue (o : OptionSpec) (g : Given)

/-- The text before the first equals sign, and the text after it if there is one. -/
def splitEquals : List Char → List Char × Option (List Char)
  | [] => ([], none)
  | c :: cs =>
    if c = '=' then ([], some cs) else ((c :: (splitEquals cs).1), (splitEquals cs).2)

/-- An option by its long name. -/
def long (spec : Spec) (g : Given) (cs : List Char) : Except Stop Named :=
  let (name, value) := splitEquals cs
  let name := String.ofList name
  match spec.options.find? fun o => o.name == name with
  | some o =>
    match o.kind, value with
    | .flag, none => (g.set o "").map .done
    | .flag, some _ => .error .refused
    | _, some v => (g.set o (String.ofList v)).map .done
    | _, none => .ok (.needsValue o g)
  | none => .error (if name = "help" ∧ value = none then .helped else .refused)

/-- Options by their short names, in one argument. What follows an option that takes a value is
its value. -/
def short (spec : Spec) (g : Given) : List Char → Except Stop Named
  | [] => .ok (.done g)
  | c :: cs =>
    match spec.options.find? fun o => o.short == some c with
    | some o =>
      match o.kind, cs with
      | .flag, _ => do short spec (← g.set o "") cs
      | _, [] => .ok (.needsValue o g)
      | _, '=' :: cs => (g.set o (String.ofList cs)).map .done
      | _, cs => (g.set o (String.ofList cs)).map .done
    | none => .error (if c = 'h' then .helped else .refused)

/-- Reads arguments up to `--`, and after it only those that stand by themselves. -/
def scan (spec : Spec) (g : Given) : List String → Except Stop Given
  | [] => .ok g
  | a :: as =>
    let go (named : Except Stop Named) : Except Stop Given :=
      match named with
      | .error e => .error e
      | .ok (.done g) => scan spec g as
      | .ok (.needsValue o g) =>
        match as with
        | [] => .error .refused
        | v :: as =>
          if isOptionLike v then .error .refused
          else
            match g.set o v with
            | .error e => .error e
            | .ok g => scan spec g as
    match a.toList with
    | ['-', '-'] => as.foldlM (fun g a => g.setOperand spec a) g
    | '-' :: '-' :: cs => go (long spec g cs)
    | '-' :: c :: cs => go (short spec g (c :: cs))
    | _ =>
      match g.setOperand spec a with
      | .error e => .error e
      | .ok g => scan spec g as
termination_by as => as.length

end SchemaStack.CommandLine
