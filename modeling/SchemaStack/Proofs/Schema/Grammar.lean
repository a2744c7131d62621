import SchemaStack.Schema.Basic
import SchemaStack.Schema.Token
import SchemaStack.Proofs.Entries
/-!
# The grammar of schema texts

A phrase relates the tokens in front of it, what it stands for and the tokens behind it. Nothing
here says how a phrase is found: which of several readings of a list is meant, and that there is
one at most, is a matter of the whole document.
-/

namespace SchemaStack

/-- How many lists a type has inside each other. -/
def TypeRef.lists : TypeRef → Nat
  | .named _ => 0
  | .list t => t.lists + 1
  | .nonNull t => t.lists

namespace Grammar

/-- `p ts a rest` says that `ts` is a phrase for `a` with `rest` behind it. -/
abbrev Phrase (α : Type) := List Lexeme → α → List Lexeme → Prop

variable {α : Type}

/-- Phrases one after the other. -/
inductive Many (p : Phrase α) : Phrase (List α)
  | nil (ts : List Lexeme) : Many p ts [] ts
  | cons {ts mid rest : List Lexeme} {a : α} {as : List α} (head : p ts a mid)
      (tail : Many p mid as rest) : Many p ts (a :: as) rest

/-- A phrase with or without a description in front of it. -/
inductive Described (p : Phrase α) : Phrase α
  | plain {ts rest : List Lexeme} {a : α} (h : p ts a rest) : Described p ts a rest
  | described {ts rest : List Lexeme} {a : α} (s : String) (line : Nat) (h : p ts a rest) :
      Described p (⟨.string s, line⟩ :: ts) a rest

/-! ## Types -/

/-- What becomes of a type: a `!` that follows is part of it. -/
inductive Bang (t : TypeRef) : Phrase TypeRef
  | absent (ts : List Lexeme) : Bang t ts t ts
  | present (line : Nat) (ts : List Lexeme) : Bang t (⟨.punct '!', line⟩ :: ts) (.nonNull t) ts

inductive Reference : Phrase TypeRef
  | named {ts rest : List Lexeme} {t : TypeRef} (n : String) (line : Nat)
      (bang : Bang (.named n) ts t rest) : Reference (⟨.name n, line⟩ :: ts) t rest
  | list {ts mid rest : List Lexeme} {item t : TypeRef} (line close : Nat)
      (inner : Reference ts item (⟨.punct ']', close⟩ :: mid))
      (bang : Bang (.list item) mid t rest) : Reference (⟨.punct '[', line⟩ :: ts) t rest

/-! ## Values -/

/-- What entries with repeated keys come to: a key keeps its first position and has its last
value. -/
structure Condenses (es fields : Entries α) : Prop where
  keys : Entries.keys fields = (Entries.keys es).eraseDups
  last : ∀ k, Entries.get? fields k = Entries.get? es.reverse k

inductive Entry (value : Phrase α) : Phrase (String × α)
  | mk {ts rest : List Lexeme} {a : α} (k : String) (line colon : Nat) (h : value ts a rest) :
      Entry value (⟨.name k, line⟩ :: ⟨.punct ':', colon⟩ :: ts) (k, a) rest

/-- Values whose parts are `part`. -/
inductive ValueOf (part : Phrase Literal) : Phrase Literal
  | string (s : String) (line : Nat) (ts : List Lexeme) :
      ValueOf part (⟨.string s, line⟩ :: ts) (.string s) ts
  | int (n : Int) (line : Nat) (ts : List Lexeme) :
      ValueOf part (⟨.int n, line⟩ :: ts) (.int n) ts
  | float (x : Binary64) (line : Nat) (ts : List Lexeme) :
      ValueOf part (⟨.float x, line⟩ :: ts) (.float x) ts
  | yes (line : Nat) (ts : List Lexeme) :
      ValueOf part (⟨.name "true", line⟩ :: ts) (.bool true) ts
  | no (line : Nat) (ts : List Lexeme) :
      ValueOf part (⟨.name "false", line⟩ :: ts) (.bool false) ts
  | null (line : Nat) (ts : List Lexeme) : ValueOf part (⟨.name "null", line⟩ :: ts) .null ts
  | enum (n : String) (line : Nat) (ts : List Lexeme) (bare : n ∉ ["true", "false", "null"]) :
      ValueOf part (⟨.name n, line⟩ :: ts) (.enum n) ts
  | list {ts rest : List Lexeme} {vs : List Literal} (line close : Nat)
      (items : Many part ts vs (⟨.punct ']', close⟩ :: rest)) :
      ValueOf part (⟨.punct '[', line⟩ :: ts) (.list vs) rest
  | object {ts rest : List Lexeme} {es fields : Entries Literal} (line close : Nat)
      (entries : Many (Entry part) ts es (⟨.punct '}', close⟩ :: rest))
      (condenses : Condenses es fields) :
      ValueOf part (⟨.punct '{', line⟩ :: ts) (.object fields) rest

/-- Values with at most so many levels, of which a scalar has one. -/
def Value : Nat → Phrase Literal
  | 0 => fun _ _ _ => False
  | levels + 1 => ValueOf (Value levels)

/-! ## Definitions -/

inductive Applied : Phrase Directive
  | bare (n : String) (line l : Nat) (ts : List Lexeme) :
      Applied (⟨.punct '@', line⟩ :: ⟨.name n, l⟩ :: ts) ⟨n, [], line⟩ ts
  | arguments {ts rest : List Lexeme} {args : Entries Literal} (n : String)
      (line l opening close : Nat)
      (entries : Many (Entry (Value Schema.maxNesting)) ts args (⟨.punct ')', close⟩ :: rest))
      (distinct : (Entries.keys args).Nodup) :
      Applied (⟨.punct '@', line⟩ :: ⟨.name n, l⟩ :: ⟨.punct '(', opening⟩ :: ts)
        ⟨n, args, line⟩ rest

inductive FieldDefinition : Phrase Field
  | mk {ts mid rest : List Lexeme} {t : TypeRef} {ds : List Directive} (n : String)
      (line colon : Nat) (type : Reference ts t mid) (bounded : t.lists ≤ Schema.maxNesting)
      (directives : Many Applied mid ds rest) :
      FieldDefinition (⟨.name n, line⟩ :: ⟨.punct ':', colon⟩ :: ts) ⟨n, t, ds, line⟩ rest

inductive EnumValue : Phrase String
  | mk (n : String) (line : Nat) (ts : List Lexeme) : EnumValue (⟨.name n, line⟩ :: ts) n ts

inductive TypeDefinition : Phrase Definition
  | object {ts mid rest : List Lexeme} {ds : List Directive} {fs : List Field} (n : String)
      (line l opening close : Nat) (directives : Many Applied ts ds (⟨.punct '{', opening⟩ :: mid))
      (fields : Many (Described FieldDefinition) mid fs (⟨.punct '}', close⟩ :: rest)) :
      TypeDefinition (⟨.name "type", line⟩ :: ⟨.name n, l⟩ :: ts) (.object ⟨n, ds, fs, line⟩) rest
  | enum {ts rest : List Lexeme} {vs : List String} (n : String) (line l opening close : Nat)
      (values : Many (Described EnumValue) ts vs (⟨.punct '}', close⟩ :: rest)) :
      TypeDefinition (⟨.name "enum", line⟩ :: ⟨.name n, l⟩ :: ⟨.punct '{', opening⟩ :: ts)
        (.enum ⟨n, vs, line⟩) rest

/-- Definitions up to the end, where a description may be left over. -/
inductive TypeSystemDocument : List Lexeme → Schema → Prop
  | plain {ts : List Lexeme} {ds : List Definition}
      (definitions : Many (Described TypeDefinition) ts ds []) : TypeSystemDocument ts ⟨ds⟩
  | described {ts : List Lexeme} {ds : List Definition} (s : String) (line : Nat)
      (definitions : Many (Described TypeDefinition) ts ds [⟨.string s, line⟩]) :
      TypeSystemDocument ts ⟨ds⟩

end Grammar

end SchemaStack
