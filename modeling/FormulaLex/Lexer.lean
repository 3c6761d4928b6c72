import FormulaLex.Config
import FormulaLex.Diagnostic
import FormulaLex.Event
import FormulaLex.Lexeme
import FormulaLex.Source.Basic
import FormulaLex.State

/-!
The lexer: it pulls tokens out of a character source by running the automaton with one character of
lookahead. A token grows as long as the lookahead extends it and is finalized in front of the first
character that does not. State, lexeme and position survive between pulls, and also a fault of the
source in the middle of a token.
-/
namespace FormulaLex

/-- A lexer apart from its source. -/
structure Lexer where
  config : Config
  sourceName : Option String := none
  state : State := .start
  lexeme : Lexeme := .empty
  /-- The place of the next character to be consumed. -/
  position : Position := .start
  done : Bool := false

namespace Lexer

/-- What a pull ends with. -/
inductive Outcome where
  | emitted (token : Token)
  | failed (error : InvalidCharacter)
  | finished

/-- What cuts a pull short. -/
inductive Interrupt (ε : Type) where
  /-- A fault of the source. -/
  | source (fault : ε)
  /-- A token was to be made in the start state. -/
  | startFinalized
  /-- The given number of turns did not suffice. -/
  | outOfFuel

/-- The wording of an interrupt, given that of the faults. -/
def Interrupt.message {ε : Type} (wording : ε → String) : Interrupt ε → String
  | source fault => wording fault
  | startFinalized => "START state cannot be finalized"
  | outOfFuel => "the lexer was stopped"

/-- A pull: its outcome, the lexer and the source after it, and what it logged. -/
structure Pull (σ ε : Type) where
  outcome : Except (Interrupt ε) Outcome
  lexer : Lexer
  source : σ
  events : List Event := []

/-- One turn of the engine goes on or ends the pull. -/
inductive Turn (σ ε : Type) where
  | again (lexer : Lexer) (source : σ)
  | stop (pull : Pull σ ε)

variable {σ ε : Type}

/-- A new lexer, and the event of its making: it scans an input of a known name, or else a source
of the given label. -/
def create (label : String) (sourceName : Option String) (config : Config) : Lexer × Event :=
  ({ config, sourceName }, .scanning ((knownName sourceName).getD label))

def location (lx : Lexer) : Location := ⟨lx.position, lx.sourceName⟩

/-- Whether a token is emitted or passed over. -/
def shows (lx : Lexer) (t : Token) : Bool := lx.config.keepsWhitespace || t.kind != .whitespace

/-- The token of the current state and lexeme, and the lexer with an empty lexeme. -/
def finalize? (lx : Lexer) : Option (Token × Lexer) :=
  lx.state.kind?.map fun kind =>
    ({ kind, text := lx.lexeme.text, position := lx.lexeme.start, sourceName := lx.sourceName },
      { lx with lexeme := .empty })

/-- Takes the lookahead into the lexeme and moves behind it. -/
def consume (lx : Lexer) (ahead : String) (next : State) : Lexer :=
  { lx with
    lexeme := lx.lexeme.push ahead lx.position
    position := lx.position.after lx.config.countsNewlines ahead
    state := next }

/-- Between tokens. -/
def restart (lx : Lexer) : Lexer := { lx with state := .start }

/-- Ends the sequence of tokens, then closes the source. -/
def close (src : CharSource σ ε) (lx : Lexer) (s : σ) : Except ε Unit × Lexer × σ :=
  let (result, s) := src.close s
  (result, { lx with done := true }, s)

/-- Ends a pull and the sequence with it. A fault in closing the source takes the place of the
outcome. -/
def conclude (src : CharSource σ ε) (lx : Lexer) (s : σ) (outcome : Outcome) (event : Event) :
    Pull σ ε :=
  match lx.close src s with
  | (.ok _, lx, s) => ⟨.ok outcome, lx, s, [event]⟩
  | (.error e, lx, s) => ⟨.error (.source e), lx, s, [event]⟩

/-- The end of the input without a token: an open one is dropped. -/
def exhaust (src : CharSource σ ε) (lx : Lexer) (s : σ) : Pull σ ε :=
  let lx := { lx with lexeme := .empty, state := .start }
  lx.conclude src s .finished (.finished lx.location)

/-- The end of the input: an open token is flushed if the options say so. The sequence ends only
when there is no token to emit. -/
def finish (src : CharSource σ ε) (lx : Lexer) (s : σ) : Pull σ ε :=
  if lx.state.isAccepting && lx.config.flushes then
    match lx.finalize? with
    | none => ⟨.error .startFinalized, lx, s, []⟩
    | some (t, lx) =>
      let lx := lx.restart
      if lx.shows t then ⟨.ok (.emitted t), lx, s, []⟩ else lx.exhaust src s
  else lx.exhaust src s

/-- A character with which no token starts. -/
def fail (src : CharSource σ ε) (lx : Lexer) (s : σ) (ahead : String) : Pull σ ε :=
  let lx := { lx with lexeme := .empty }
  lx.conclude src s (.failed ⟨ahead, lx.position, lx.sourceName⟩) (.stopped lx.location)

/-- One turn: look ahead, and consume, finalize, finish or fail. -/
def turn (src : CharSource σ ε) (lx : Lexer) (s : σ) : Turn σ ε :=
  match src.peek s with
  | (.error e, s) => .stop ⟨.error (.source e), lx, s, []⟩
  | (.ok ahead, s) =>
    if ahead == "" then .stop (lx.finish src s)
    else match lx.state.stepOn? ahead with
      | none => .stop (lx.fail src s ahead)
      | some (.extend next) =>
        match src.read s with
        | (.error e, s) => .stop ⟨.error (.source e), lx, s, []⟩
        | (.ok _, s) => .again (lx.consume ahead next) s
      | some .finalize =>
        match lx.finalize? with
        | none => .stop ⟨.error .startFinalized, lx, s, []⟩
        | some (t, lx) =>
          let lx := lx.restart
          if lx.shows t then .stop ⟨.ok (.emitted t), lx, s, []⟩ else .again lx s

/-- Turns until one ends the pull, as many as `fuel` allows. -/
def scan (src : CharSource σ ε) : (fuel : Nat) → Lexer → σ → Pull σ ε
  | 0, lx, s => ⟨.error .outOfFuel, lx, s, []⟩
  | fuel + 1, lx, s =>
    match lx.turn src s with
    | .again lx s => scan src fuel lx s
    | .stop pull => pull

/-- A pull of at most `fuel` turns. After the end of the sequence every pull is finished. -/
def advance (src : CharSource σ ε) (fuel : Nat) (lx : Lexer) (s : σ) : Pull σ ε :=
  if lx.done then ⟨.ok .finished, lx, s, []⟩ else lx.scan src fuel s

/-- The turns that a pull may need: every character is consumed once, and between two of them at
most one token is finalized. -/
def enoughTurns (src : CharSource σ ε) (s : σ) : Nat := 2 * src.size s + 2

/-- A pull on a source that is as large as it says. -/
def next (src : CharSource σ ε) (lx : Lexer) (s : σ) : Pull σ ε :=
  lx.advance src (enoughTurns src s) s

/-- How a sequence of pulls ended. -/
inductive Ending (ε : Type) where
  | finished
  | failed (error : InvalidCharacter)
  | interrupted (cause : Interrupt ε)

/-- The tokens of a sequence of pulls, its end if it came to one, and what it left and logged. -/
structure Harvest (σ ε : Type) where
  tokens : List Token
  ending : Option (Ending ε)
  lexer : Lexer
  source : σ
  events : List Event

/-- Pulls until `count` tokens were emitted or a pull gave none. -/
def take (src : CharSource σ ε) (fuel : Nat) : (count : Nat) → Lexer → σ → Harvest σ ε
  | 0, lx, s => ⟨[], none, lx, s, []⟩
  | count + 1, lx, s =>
    let pull := lx.advance src fuel s
    match pull.outcome with
    | .ok (.emitted t) =>
      let rest := take src fuel count pull.lexer pull.source
      { rest with tokens := t :: rest.tokens, events := pull.events ++ rest.events }
    | .ok .finished => ⟨[], some .finished, pull.lexer, pull.source, pull.events⟩
    | .ok (.failed e) => ⟨[], some (.failed e), pull.lexer, pull.source, pull.events⟩
    | .error cause => ⟨[], some (.interrupted cause), pull.lexer, pull.source, pull.events⟩

/-- Pulls to the end. At most one token is open already, each further one has a character of its
own, and the last pull gives none. -/
def collect (src : CharSource σ ε) (lx : Lexer) (s : σ) : Harvest σ ε :=
  let harvest := lx.take src (enoughTurns src s) (src.size s + 2) s
  { harvest with ending := some (harvest.ending.getD (.interrupted .outOfFuel)) }

end Lexer

/-- All tokens of a source, pulled by a new lexer. -/
def CharSource.tokenize {σ ε : Type} (src : CharSource σ ε) (sourceName : Option String)
    (config : Config) (s : σ) : Lexer.Harvest σ ε :=
  let (lx, event) := Lexer.create src.label sourceName config
  let harvest := lx.collect src s
  { harvest with events := event :: harvest.events }

end FormulaLex
