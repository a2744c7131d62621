import SchemaStack.Yaml.Lexer
import SchemaStack.Yaml.Node
import SchemaStack.Entries
/-!
# From tokens to trees

The grammar of documents. A node that is left out, as a value after its colon may be, is an empty
scalar.
-/

namespace SchemaStack.Yaml

/-- Where a node stands: between brackets, in a block, or as a key or value of a block mapping,
where a sequence need not be indented. -/
inductive Site where
  | flow
  | block
  | member
deriving DecidableEq, Repr

structure Properties where
  anchor : Option String
  tag : Option Tag
deriving Repr

/-- What the handles of tags stand for. -/
abbrev Handles := Entries Tag

namespace Grammar

variable (handles : Handles)

def resolveTag (handle : String) (suffix : Tag) : Option Tag :=
  if handle = "" then some suffix else (handles.get? handle).map (· ++ suffix)

def anchorProperty : (ts : List Token) → Trailing (Option String) ts
  | .anchor a :: ts => (Reading.head (some a) (.anchor a) ts).trailing
  | ts => .none none ts

def tagProperty : (ts : List Token) → Option (Trailing (Option Tag) ts)
  | .tag h s :: ts =>
    (resolveTag handles h s).map fun t => (Reading.head (some t) (.tag h s) ts).trailing
  | ts => some (.none none ts)

/-- An anchor and a tag, in either order. -/
def properties (ts : List Token) : Option (Trailing Properties ts) := do
  let before := anchorProperty ts
  let t ← tagProperty handles before.rest
  let after := if before.value.isSome then .none none t.rest else anchorProperty t.rest
  return before.trans (t.trans (after.map fun a => ⟨before.value <|> a, t.value⟩))

/-- Whether content of a node starts with this token. -/
def startsContent (site : Site) : List Token → Bool
  | .scalar .. :: _ | .flowSequence :: _ | .flowMapping :: _ => true
  | .blockSequence :: _ | .blockMapping :: _ => site != .flow
  | .blockEntry :: _ => site == .member
  | _ => false

mutual

def node (site : Site) (ts : List Token) : Option (Reading (Node String) ts) :=
  match ts with
  | .alias a :: ts => some (.head (.alias a) _ ts)
  | ts =>
    match properties handles ts with
    | none => none
    | some p =>
      have := p.bounded
      if startsContent site p.rest then (content p.value p.rest).map p.after
      else if h : p.rest.length < ts.length then
        some ⟨.scalar p.value.anchor p.value.tag .plain "", p.rest, h⟩
      else none
termination_by 5 * ts.length + 2
decreasing_by all_goals omega

/-- The content of a node whose properties have been read. -/
def content (p : Properties) (ts : List Token) :
    Option (Reading (Node String) ts) :=
  match ts with
  | .scalar style text :: ts =>
    some (.head (.scalar p.anchor p.tag style text) _ ts)
  | .flowSequence :: ts => (flowItems true ts).map fun r => (r.map (.sequence p.anchor)).cons
  | .flowMapping :: ts => (flowMembers true ts).map fun r => (r.map (.mapping p.anchor)).cons
  | .blockSequence :: ts => (blockItems ts).map fun r => (r.map (.sequence p.anchor)).cons
  | .blockMapping :: ts => (blockMembers ts).map fun r => (r.map (.mapping p.anchor)).cons
  | .blockEntry :: ts => (looseItems (.blockEntry :: ts)).map (.map (.sequence p.anchor))
  | _ => none
termination_by 5 * ts.length + 1
decreasing_by all_goals (try simp only [List.length_cons]); omega

/-- A node, or nothing in front of one of the given tokens. -/
def optional (site : Site) (stops : List Token) (ts : List Token) :
    Option (Trailing (Node String) ts) :=
  if ts.head?.any stops.contains then some (.none .empty ts)
  else (node site ts).map (·.trailing)
termination_by 5 * ts.length + 3

/-- The entries of an indented block sequence, up to its end. -/
def blockItems (ts : List Token) : Option (Reading (List (Node String)) ts) :=
  match ts with
  | .blockEnd :: ts => some (.head [] _ ts)
  | .blockEntry :: ts =>
    match optional .block [.blockEntry, .blockEnd] ts with
    | none => none
    | some n =>
      have := n.bounded
      (blockItems n.rest).map fun r => (n.after (r.map (n.value :: ·))).cons
  | _ => none
termination_by 5 * ts.length
decreasing_by all_goals (try simp only [List.length_cons]); omega

/-- The entries of a block sequence that is not indented, one at least. -/
def looseItems (ts : List Token) : Option (Reading (List (Node String)) ts) :=
  match ts with
  | .blockEntry :: ts =>
    match optional .block [.blockEntry, .key, .value, .blockEnd] ts with
    | none => none
    | some n =>
      have := n.bounded
      if n.rest.head? = some .blockEntry then
        (looseItems n.rest).map fun r => (n.after (r.map (n.value :: ·))).cons
      else some (n.map ([·])).cons
  | _ => none
termination_by 5 * ts.length
decreasing_by all_goals (try simp only [List.length_cons]); omega

/-- The value of a block mapping's key, empty where there is no colon. -/
def blockValue (ts : List Token) : Option (Trailing (Node String) ts) :=
  match ts with
  | .value :: ts =>
    (optional .member [.key, .value, .blockEnd] ts).map fun n => n.cons.trailing
  | ts => some (.none .empty ts)
termination_by 5 * ts.length + 4
decreasing_by all_goals (try simp only [List.length_cons]); omega

/-- The members of a block mapping, up to its end. -/
def blockMembers (ts : List Token) : Option (Reading (List (Node String × Node String)) ts) :=
  match ts with
  | .blockEnd :: ts => some (.head [] _ ts)
  | .key :: ts =>
    match optional .member [.key, .value, .blockEnd] ts with
    | none => none
    | some k =>
      have := k.bounded
      match blockValue k.rest with
      | none => none
      | some v =>
        have := v.bounded
        (blockMembers v.rest).map fun r =>
          (k.after (v.after (r.map ((k.value, v.value) :: ·)))).cons
  | _ => none
termination_by 5 * ts.length
decreasing_by all_goals (try simp only [List.length_cons]); omega

/-- The value of a key between brackets, which ends at a comma or at the closing bracket. -/
def flowValue (close : Token) (ts : List Token) : Option (Trailing (Node String) ts) :=
  match ts with
  | .value :: ts => (optional .flow [.flowEntry, close] ts).map fun n => n.cons.trailing
  | ts => some (.none .empty ts)
termination_by 5 * ts.length + 4
decreasing_by all_goals (try simp only [List.length_cons]); omega

/-- The key of a single pair in a flow sequence. Where it is left out, the token after its mark is
taken for it. -/
def pairKey (ts : List Token) : Option (Trailing (Node String) ts) :=
  match ts with
  | .value :: ts => some (Reading.head .empty _ ts).trailing
  | .flowEntry :: ts => some (Reading.head .empty _ ts).trailing
  | .flowSequenceEnd :: ts => some (Reading.head .empty _ ts).trailing
  | ts => (node .flow ts).map (·.trailing)
termination_by 5 * ts.length + 3

/-- One item of a flow sequence: a node, or a pair as a mapping of its own. -/
def flowItem (ts : List Token) : Option (Reading (Node String) ts) :=
  match ts with
  | .key :: ts =>
    match pairKey ts with
    | none => none
    | some k =>
      have := k.bounded
      (flowValue .flowSequenceEnd k.rest).map fun v =>
        (k.trans (v.map fun n => .mapping none [(k.value, n)])).cons
  | ts => node .flow ts
termination_by 5 * ts.length + 3
decreasing_by all_goals (try simp only [List.length_cons]); omega

/-- The items of a flow sequence, up to its end. Each but the first follows a comma, and a comma
may stand before the end. -/
def flowItems (first : Bool) (ts : List Token) : Option (Reading (List (Node String)) ts) :=
  match ts with
  | .flowSequenceEnd :: ts => some (.head [] _ ts)
  | .flowEntry :: .flowSequenceEnd :: ts =>
    if first then none else some (Reading.head [] _ ts).cons
  | .flowEntry :: ts =>
    if first then none
    else
      match flowItem ts with
      | none => none
      | some n =>
        have := n.shorter
        (flowItems false n.rest).map fun r => (n.after (r.map (n.value :: ·))).cons
  | ts =>
    if first then
      match flowItem ts with
      | none => none
      | some n =>
        have := n.shorter
        (flowItems false n.rest).map fun r => n.after (r.map (n.value :: ·))
    else none
termination_by 5 * ts.length + 4
decreasing_by all_goals (try simp only [List.length_cons]); omega

/-- One member of a flow mapping. A key without a mark has no value of its own here. -/
def flowMember (ts : List Token) : Option (Reading (Node String × Node String) ts) :=
  match ts with
  | .key :: ts =>
    match optional .flow [.value, .flowEntry, .flowMappingEnd] ts with
    | none => none
    | some k =>
      have := k.bounded
      (flowValue .flowMappingEnd k.rest).map fun v => (k.trans (v.map (k.value, ·))).cons
  | ts => (node .flow ts).map (.map (·, .empty))
termination_by 5 * ts.length + 3
decreasing_by all_goals (try simp only [List.length_cons]); omega

/-- The members of a flow mapping, up to its end, with commas as in a sequence. -/
def flowMembers (first : Bool) (ts : List Token) :
    Option (Reading (List (Node String × Node String)) ts) :=
  match ts with
  | .flowMappingEnd :: ts => some (.head [] _ ts)
  | .flowEntry :: .flowMappingEnd :: ts =>
    if first then none else some (Reading.head [] _ ts).cons
  | .flowEntry :: ts =>
    if first then none
    else
      match flowMember ts with
      | none => none
      | some n =>
        have := n.shorter
        (flowMembers false n.rest).map fun r => (n.after (r.map (n.value :: ·))).cons
  | ts =>
    if first then
      match flowMember ts with
      | none => none
      | some n =>
        have := n.shorter
        (flowMembers false n.rest).map fun r => n.after (r.map (n.value :: ·))
    else none
termination_by 5 * ts.length + 4
decreasing_by all_goals (try simp only [List.length_cons]); omega

end

end Grammar

/-! ## Documents -/

def defaultHandles : Handles :=
  [("!", Tag.ofText "!"), ("!!", Tag.ofText "tag:yaml.org,2002:")]

/-- The directives in front of a document: at most one version, which is 1.1 or 1.2, and no
handle twice. -/
def directives (version : Bool) (handles : Handles) : List Token → Option (Handles × List Token)
  | .version major minor :: ts =>
    if version ∨ major ≠ 1 ∨ (minor ≠ 1 ∧ minor ≠ 2) then none else directives true handles ts
  | .handle name meaning :: ts =>
    if handles.contains name then none else directives version ((name, meaning) :: handles) ts
  | ts => some (handles, ts)

def startsDocument : Token → Bool
  | .version .. | .handle .. | .documentStart => true
  | _ => false

/-- The root of a document from behind its start. -/
def root (handles : Handles) (ts : List Token) : Option (Node String × List Token) :=
  match ts with
  | [] => some (.empty, [])
  | t :: _ =>
    if startsDocument t || t == .documentEnd then some (.empty, ts)
    else (Grammar.node handles .block ts).map fun r => (r.value, r.rest)

/-- The root of the one document of a text. A text without a document has an empty one. -/
def document (ts : List Token) : Option (Node String) := do
  let (n, rest) ←
    match ts with
    | [] => some (.empty, [])
    | t :: _ =>
      if startsDocument t then
        let (own, ts) ← directives false [] ts
        match ts with
        | .documentStart :: ts => root (own ++ defaultHandles) ts
        | _ => none
      else (Grammar.node defaultHandles .block ts).map fun r => (r.value, r.rest)
  if rest.all (· == .documentEnd) then some n else none

/-- The tree of a text, or nothing where it is not well formed or has several documents. -/
def parse? (text : String) : Option (Node Nat) := do
  let ts ← tokens? text
  let n ← document ts
  let (n, _) ← n.number? []
  return n

end SchemaStack.Yaml
