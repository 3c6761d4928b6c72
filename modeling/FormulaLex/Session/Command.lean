import FormulaLex.Lexer.Call
import FormulaLex.Source.Feed
import FormulaLex.Source.Offer

/-!
The language of sessions: commands that make named streams, sources and lexers, use them, and change
the active options; and the replies to commands.
-/
namespace FormulaLex.Session

/-- What is done with a resource. -/
inductive Operation where
  | advance
  | next
  | take (count : Nat)
  | collect
  | iterate
  | enter
  | exit
  /-- Raises inside a block that closes the lexer when it is left. -/
  | raise (message : String)
  | position
  | state
  | finalize
  | push (piece : String) (here : Position)
  | clear
  | get
  | peek
  | read (amount : Int)
  | close
  | closed
  | extend (items : List FeedItem)
  | tell
  | seek (position : Int)
  | append (text : String)

def Operation.name : Operation → String
  | advance => "advance"
  | next => "next"
  | take _ => "take"
  | collect => "collect"
  | iterate => "iterate"
  | enter => "enter"
  | exit => "exit"
  | raise _ => "raise"
  | position => "position"
  | state => "state"
  | finalize => "finalize"
  | push _ _ => "append"
  | clear => "clear"
  | get => "get"
  | peek => "peek"
  | read _ => "read"
  | close => "close"
  | closed => "closed"
  | extend _ => "extend"
  | tell => "tell"
  | seek _ => "seek"
  | append _ => "append"

/-- What a lexer is asked to scan. -/
inductive Input where
  | named (name : String)
  | value (v : Value)

/-- Options as they are given: by key. -/
abbrev Options := List (String × Value)

inductive Command where
  | textSource (name text : String)
  | memoryStream (name text : String)
  | byteStream (name : String) (bytes : List UInt8)
  | pieceStream (name : String) (pieces : List String)
  | feed (name : String) (items : List FeedItem) (closeFault : Option String)
  | lexeme (name : String)
  | streamSource (name stream : String) (owns : Bool)
  | lexer (name : String) (input : Input) (sourceName : Option String) (options : Option Options)
  | adapt (name resource : String)
  | getConfig
  | setConfig (options : Options)
  | resetConfig
  | enterBlock (options : Options)
  | leaveBlock
  | raiseInBlock (message : String)
  /-- Commands whose changes of the options do not come back. -/
  | inCopy (commands : List Command)
  /-- The same, from the default options. -/
  | inThread (commands : List Command)
  | perform (name : String) (op : Operation)

/-- The name whose lexer the reply shows. -/
def Command.subject? : Command → Option String
  | textSource name _ | memoryStream name _ | byteStream name _ | pieceStream name _
  | feed name _ _ | lexeme name | streamSource name _ _ | lexer name _ _ _ | adapt name _
  | perform name _ => some name
  | _ => none

/-- Why a command has no answer. -/
inductive Failure where
  | config (e : ConfigError)
  | adapt (e : AdaptError)
  | interrupt (cause : Lexer.Interrupt Fault)
  | invalid (e : InvalidCharacter)
  /-- No token is left. -/
  | exhausted
  /-- What the session itself raised. -/
  | raised (message : String)
  | unknownName (name : String)
  | noBlock

def Failure.ofRefusal : Lexer.Refusal Fault → Failure
  | .interrupt cause => .interrupt cause
  | .invalid e => .invalid e
  | .exhausted => .exhausted

mutual

inductive Answer where
  | nothing
  | flag (b : Bool)
  | number (n : Int)
  | text (s : String)
  | adapted (typeName : String) (same : Bool)
  | config (c : Config)
  | outcome (o : Lexer.Outcome)
  | token (t : Token)
  | tokens (ts : List Token)
  | collected (ts : List Token) (failure : Option Failure)
  | location (l : Location)
  | state (q : State) (done : Bool)
  | lexeme (l : Lexeme)
  | replies (rs : List Reply)

/-- The reply to a command: its answer, the lexer that it was about, and what it logged. -/
inductive Reply where
  | mk (result : Except Failure Answer) (lexer : Option Lexer) (events : List Event)

end

def Answer.ofLexer : Lexer.Answer → Answer
  | .nothing => .nothing
  | .itself => .flag true
  | .outcome o => .outcome o
  | .token t => .token t

end FormulaLex.Session
