import FormulaLex.Session.Command
import FormulaLex.Session.Store

/-!
Sessions: the resources made so far, their names, and the active options. A name stands for the
resource it was given to last; a resource may have several names, or none.
-/
namespace FormulaLex

open Session in
structure Session where
  store : Store := {}
  names : List (String × Resource) := []
  scope : Scope := {}

namespace Session

/-- What a command gives: its answer, what it logged, and the session after it. -/
abbrev Result := Except Failure Answer × List Event × Session

def resource? (s : Session) (name : String) : Option Resource := s.names.lookup name

def withName (s : Session) (name : String) (x : Resource) : Session :=
  { s with names := (name, x) :: s.names }

/-- The lexer that a name stands for. -/
def lexer? (s : Session) (name : String) : Option Lexer :=
  match s.resource? name with
  | some (.lexer n) => s.store.lexers[n]?.map Prod.fst
  | _ => none

def answer (a : Answer) (s : Session) : Result := (.ok a, [], s)

def failWith (e : Failure) (s : Session) : Result := (.error e, [], s)

/-- The answer to an operation of a stream or a source. -/
def reply {α : Type} (result : Except Fault α) (toAnswer : α → Answer) (s : Session) : Result :=
  match result with
  | .ok a => s.answer (toAnswer a)
  | .error e => s.failWith (.interrupt (.source e))

/-- Gives a name to a resource just made. -/
def introduce (s : Session) (name : String) (made : Resource × Store) : Result :=
  { s with store := made.2 }.withName name made.1 |>.answer (.text (made.2.typeName made.1))

/-- Keeps a new source under a name. -/
def addSource (s : Session) (name : String) (source : AnySource) : Result :=
  s.introduce name ((s.store.addSource source).map .source id)

/-- Keeps a new source over the named resource, whatever that is, under a name. -/
def addSourceOver (s : Session) (name stream : String) (ownsStream : Bool) : Result :=
  match s.resource? stream with
  | some x => s.addSource name (.buffered { stream := x, ownsStream })
  | none => s.failWith (.unknownName stream)

/-- The number of the source over a resource, and whether it is the resource itself. -/
def adaptResource (s : Session) (x : Resource) : Except AdaptError (Nat × Bool × Session) :=
  match (s.store.offer x).adapt, x with
  | .error e, _ => .error e
  | .ok .asIs, .source n => .ok (n, true, s)
  | .ok .stream, x =>
    let (n, store) := s.store.addSource (.buffered { stream := x })
    .ok (n, false, { s with store })
  | .ok _, x => .error (.unscannable (s.store.typeName x))

/-- Gives a name to the source over a resource. -/
def adaptNamed (s : Session) (name resource : String) : Result :=
  match s.resource? resource with
  | none => s.failWith (.unknownName resource)
  | some x =>
    match s.adaptResource x with
    | .error e => s.failWith (.adapt e)
    | .ok (n, same, s) =>
      s.withName name (.source n) |>.answer (.adapted (s.store.typeName (.source n)) same)

/-- What a lexer is asked to scan, once its name was looked up. -/
inductive Subject where
  | resource (x : Resource)
  | value (v : Value)

def subject (s : Session) : Input → Except Failure Subject
  | .value v => .ok (.value v)
  | .named name =>
    match s.resource? name with
    | some x => .ok (.resource x)
    | none => .error (.unknownName name)

/-- The number of the source over a subject. Of the values only a text can be scanned. -/
def adaptSubject (s : Session) : Subject → Except AdaptError (Nat × Session)
  | .resource x => (s.adaptResource x).map fun (n, _, s) => (n, s)
  | .value (.text t) =>
    let (n, store) := s.store.addSource (.text (.ofString t))
    .ok (n, { s with store })
  | .value v => .error (.unscannable v.typeName)

/-- The given options, or else those active now. -/
def configOf (s : Session) : Option Options → Except ConfigError Config
  | some options => Config.ofOptions options
  | none => .ok s.scope.active

/-- Makes a lexer. Its options are fixed now and do not change with the active ones. An unknown name
is reported before wrong options, and these before what cannot be scanned. -/
def addLexer (s : Session) (name : String) (input : Input) (sourceName : Option String)
    (options : Option Options) : Result :=
  let made : Except Failure (Config × Nat × Session) := do
    let subject ← s.subject input
    let config ← (s.configOf options).mapError .config
    return (config, ← (s.adaptSubject subject).mapError .adapt)
  match made with
  | .error e => s.failWith e
  | .ok (config, source, s) =>
    let (lx, event) := Lexer.create (s.store.sourceAt source).label sourceName config
    let (result, _, s) := s.introduce name (s.store.addLexer lx source)
    (result, [event], s)

/-- Changes the options if the given ones exist. -/
def withOptions (s : Session) (options : Options) (change : Scope → Config → Scope) : Result :=
  match Config.ofOptions options with
  | .ok c => { s with scope := change s.scope c }.answer .nothing
  | .error e => s.failWith (.config e)

/-- Leaves the innermost block. -/
def leaveBlock (s : Session) (result : Except Failure Answer) : Result :=
  match s.scope.leave? with
  | some scope => (result, [], { s with scope })
  | none => s.failWith .noBlock

end Session

end FormulaLex
