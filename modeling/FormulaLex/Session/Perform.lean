import FormulaLex.Session.Basic

/-!
Operations on the resources of a session.
-/
namespace FormulaLex.Session

/-- An operation that a resource does not have. -/
def unsupported (s : Session) (x : Resource) (op : Operation) : Result :=
  s.failWith (.interrupt (.source (.missing (s.store.typeName x) op.name)))

/-- The lexeme that an operation leaves, if lexemes have the operation. -/
def lexemeAfter? (l : Lexeme) : Operation → Option Lexeme
  | .push piece here => some (l.push piece here)
  | .clear => some .empty
  | .get => some l
  | _ => none

def performOnLexeme (s : Session) (n : Nat) (op : Operation) : Result :=
  match s.store.lexemes[n]?.bind (lexemeAfter? · op) with
  | some l =>
    let lexemes := s.store.lexemes.setIfInBounds n l
    { s with store := { s.store with lexemes } }.answer (.lexeme l)
  | none => s.unsupported (.lexeme n) op

def performOnSource (s : Session) (n : Nat) (op : Operation) : Result :=
  let src := s.store.sourceAt n
  match op, s.store.sources[n]? with
  | .peek, _ =>
    let (result, store) := src.peek s.store
    { s with store }.reply result .text
  | .read _, _ =>
    let (result, store) := src.read s.store
    { s with store }.reply result .text
  | .close, _ =>
    let (result, store) := src.close s.store
    { s with store }.reply result fun _ => .nothing
  | .closed, some (.text t) => s.answer (.flag t.closed)
  | .closed, some (.buffered b) => s.answer (.flag b.closed)
  | .closed, some (.feed f) => s.answer (.number f.closings)
  | .extend items, some (.feed f) =>
    { s with store := s.store.setSource n (.feed (f.extend items)) }.answer .nothing
  | _, _ => s.unsupported (.source n) op

/-- Puts a stream back after an operation on it. -/
def putStream {α : Type} (s : Session) (n : Nat) (result : Except Fault α × AnyStream)
    (toAnswer : α → Answer) : Result :=
  { s with store := s.store.setStream n result.2 }.reply result.1 toAnswer

def performOnStream (s : Session) (n : Nat) (op : Operation) : Result :=
  match op, s.store.streams[n]? with
  | .read amount, some stream => s.putStream n (stream.read amount) .text
  | .close, some stream => s.putStream n stream.close fun _ => .nothing
  | .closed, some stream => s.reply stream.closed .flag
  | .tell, some (.memory m) => s.putStream n (m.tell.map id .memory) fun k => .number k
  | .seek position, some (.memory m) =>
    s.putStream n ((m.seek position).map id .memory) fun k => .number k
  | .append text, some (.memory m) =>
    s.putStream n ((m.append text).map id .memory) fun _ => .nothing
  | _, _ => s.unsupported (.stream n) op

/-- The failure that an end of pulls comes to, if it is one. -/
def failure? : Lexer.Ending Fault → Option Failure
  | .finished => none
  | .failed e => some (.invalid e)
  | .interrupted cause => some (.interrupt cause)

def performOnLexer (s : Session) (n : Nat) (op : Operation) : Result :=
  match s.store.lexers[n]? with
  | none => s.unsupported (.lexer n) op
  | some (lx, source) =>
    let src := s.store.sourceAt source
    let put (lx : Lexer) (store : Store) : Session :=
      { s with store := store.setLexer n lx source }
    let call (c : Lexer.Call) : Result :=
      let response := lx.call src (Lexer.enoughTurns src s.store) s.store c
      ((response.result.mapError .ofRefusal).map .ofLexer, response.events,
        put response.lexer response.source)
    match op with
    | .advance => call .advance
    | .next => call .next
    | .enter => call .enter
    | .exit => call .exit
    | .close => call .close
    | .raise message =>
      let (result, events, s) := call .exit
      (result.bind fun _ => .error (.raised message), events, s)
    | .take count =>
      let harvest := lx.take src (Lexer.enoughTurns src s.store) count s.store
      let result := match harvest.ending.bind failure? with
        | none => .ok (.tokens harvest.tokens)
        | some e => .error e
      (result, harvest.events, put harvest.lexer harvest.source)
    | .collect =>
      let harvest := lx.collect src s.store
      (.ok (.collected harvest.tokens (harvest.ending.bind failure?)), harvest.events,
        put harvest.lexer harvest.source)
    | .iterate => s.answer (.flag true)
    | .position => s.answer (.location lx.location)
    | .state => s.answer (.state lx.state lx.done)
    | .finalize =>
      match lx.finalize? with
      | some (t, lx) => (put lx s.store).answer (.token t)
      | none => s.failWith (.interrupt .startFinalized)
    | _ => s.unsupported (.lexer n) op

def perform (s : Session) (name : String) (op : Operation) : Result :=
  match s.resource? name with
  | none => s.failWith (.unknownName name)
  | some (.stream n) => s.performOnStream n op
  | some (.source n) => s.performOnSource n op
  | some (.lexer n) => s.performOnLexer n op
  | some (.lexeme n) => s.performOnLexeme n op

end FormulaLex.Session
