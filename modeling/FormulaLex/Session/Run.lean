import FormulaLex.Session.Perform

/-!
Running the commands of a session.
-/
namespace FormulaLex.Session

/-- Commands on a separate scope give the old one back. -/
def returnTo (scope : Scope) (replies : List Reply × Session) : Result :=
  { replies.2 with scope }.answer (.replies replies.1)

mutual

/-- One command, without the frame of its reply. -/
def execute (s : Session) : Command → Result
  | .textSource name text => s.addSource name (.text (.ofString text))
  | .memoryStream name text => s.introduce name (s.store.addStream (.memory (.ofString text)))
  | .byteStream name bytes => s.introduce name (s.store.addStream (.bytes { bytes }))
  | .pieceStream name pieces => s.introduce name (s.store.addStream (.pieces ⟨pieces⟩))
  | .feed name items closeFault => s.addSource name (.feed { items, closeFault })
  | .lexeme name => s.introduce name s.store.addLexeme
  | .streamSource name stream owns => s.addSourceOver name stream owns
  | .lexer name input sourceName options => s.addLexer name input sourceName options
  | .adapt name resource => s.adaptNamed name resource
  | .getConfig => s.answer (.config s.scope.active)
  | .setConfig options => s.withOptions options Scope.set
  | .resetConfig => { s with scope := s.scope.reset }.answer .nothing
  | .enterBlock options => s.withOptions options Scope.enter
  | .leaveBlock => s.leaveBlock (.ok .nothing)
  | .raiseInBlock message => s.leaveBlock (.error (.raised message))
  | .inCopy commands =>
    returnTo s.scope (run { s with scope := { active := s.scope.active } } commands)
  | .inThread commands => returnTo s.scope (run { s with scope := {} } commands)
  | .perform name op => s.perform name op

/-- The replies to commands, in order, and the session after them. -/
def run (s : Session) : List Command → List Reply × Session
  | [] => ([], s)
  | command :: rest =>
    let (result, events, s) := execute s command
    let reply := Reply.mk result (command.subject?.bind s.lexer?) events
    let (replies, s) := run s rest
    (reply :: replies, s)

end

end FormulaLex.Session
