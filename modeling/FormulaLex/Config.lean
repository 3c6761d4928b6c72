import FormulaLex.Value

/-!
Lexer options and the scopes in which they are active.
-/
namespace FormulaLex

/-- Three options, each kept as it was given; a value acts by whether it counts as true. -/
structure Config where
  /-- Emit a token that is still open when the input ends. -/
  flushAtEnd : Value := .bool true
  /-- Start a new line at each consumed newline. -/
  countNewlines : Value := .bool true
  /-- Show whitespace tokens. -/
  keepWhitespace : Value := .bool false
  deriving Inhabited

inductive ConfigError where
  | unknownOption (key : String)
  /-- The key is taken by the configuration itself. -/
  | ownKey
  | notARecord (given : Value)

/-- The key under which a configuration is handed to its own maker. -/
def Config.ownKey : String := "self"

def ConfigError.message : ConfigError → String
  | unknownOption key => "LexerConfig.__init__() got an unexpected keyword argument '" ++ key ++ "'"
  | ownKey => "LexerConfig.__init__() got multiple values for argument '" ++ Config.ownKey ++ "'"
  | notARecord given => "'" ++ given.typeName ++ "' object has no attribute 'items'"

namespace Config

def flushes (c : Config) : Bool := c.flushAtEnd.isTruthy

def countsNewlines (c : Config) : Bool := c.countNewlines.isTruthy

def keepsWhitespace (c : Config) : Bool := c.keepWhitespace.isTruthy

def options (c : Config) : List (String × Value) :=
  [("flush_at_eof", c.flushAtEnd), ("count_newlines", c.countNewlines),
    ("keep_whitespace", c.keepWhitespace)]

/-- Sets the option of the given key, if there is one. -/
def set? (c : Config) (key : String) (v : Value) : Option Config :=
  if key == "flush_at_eof" then some { c with flushAtEnd := v }
  else if key == "count_newlines" then some { c with countNewlines := v }
  else if key == "keep_whitespace" then some { c with keepWhitespace := v }
  else none

/-- The defaults changed by the given options, each of which has to exist; the first that does not
is reported. -/
def ofOptions (given : List (String × Value)) : Except ConfigError Config :=
  given.foldlM (fun c (key, v) =>
    match c.set? key v with
    | some c => .ok c
    | none => .error (if key == ownKey then .ownKey else .unknownOption key)) {}

/-- The defaults changed by those fields of a record that are options. -/
def ofRecord : Value → Except ConfigError Config
  | .record fields => .ok (fields.foldl (fun c (key, v) => (c.set? key v).getD c) {})
  | given => .error (.notARecord given)

def isDefault (c : Config) : Bool :=
  c.flushAtEnd.equalsBool true && c.countNewlines.equalsBool true &&
    c.keepWhitespace.equalsBool false

def literal (c : Config) : String :=
  "LexerConfig(" ++ ", ".intercalate (c.options.map fun (key, v) => key ++ "=" ++ v.literal) ++ ")"

end Config

/-- The active options, and those to which each open block returns. -/
structure Scope where
  active : Config := {}
  saved : List Config := []

namespace Scope

def set (s : Scope) (c : Config) : Scope := { s with active := c }

def reset (s : Scope) : Scope := s.set {}

/-- Opens a block with its own options. -/
def enter (s : Scope) (c : Config) : Scope := ⟨c, s.active :: s.saved⟩

/-- Closes the innermost block: what was active before is active again, whatever was set in it. -/
def leave? (s : Scope) : Option Scope :=
  match s.saved with
  | [] => none
  | c :: rest => some ⟨c, rest⟩

@[simp] theorem leave?_enter (s : Scope) (c : Config) : (s.enter c).leave? = some s := rfl

@[simp] theorem leave?_set (s : Scope) (c : Config) : (s.set c).leave? = s.leave? := rfl

@[simp] theorem active_set (s : Scope) (c : Config) : (s.set c).active = c := rfl

end Scope

end FormulaLex
