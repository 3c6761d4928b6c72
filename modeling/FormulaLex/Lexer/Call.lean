import FormulaLex.Lexer

/-!
The calls that the owner of a lexer makes on it. A pull is asked for its outcome, or for the next item
of an iteration, which raises where there is none. A lexer may also be closed, by itself or when a
block that was entered with it is left.
-/
namespace FormulaLex.Lexer

inductive Call where
  | advance
  | next
  | close
  | enter
  | exit
  deriving DecidableEq, Repr

/-- What a call gives back. -/
inductive Answer where
  | nothing
  /-- The lexer itself. -/
  | itself
  | outcome (o : Outcome)
  | token (t : Token)

/-- What a call raises in place of an answer. -/
inductive Refusal (ε : Type) where
  | interrupt (cause : Interrupt ε)
  | invalid (e : InvalidCharacter)
  /-- No token is left. -/
  | exhausted

/-- The response to a call: its result, the lexer and the source after it, and what it logged. -/
structure Response (σ ε : Type) where
  result : Except (Refusal ε) Answer
  lexer : Lexer
  source : σ
  events : List Event := []

variable {σ ε : Type}

/-- The outcome of a pull, as it is. -/
def report : Except (Interrupt ε) Outcome → Except (Refusal ε) Answer
  | .ok o => .ok (.outcome o)
  | .error cause => .error (.interrupt cause)

/-- The outcome of a pull as an item of an iteration. -/
def item : Except (Interrupt ε) Outcome → Except (Refusal ε) Answer
  | .ok (.emitted t) => .ok (.token t)
  | .ok (.failed e) => .error (.invalid e)
  | .ok .finished => .error .exhausted
  | .error cause => .error (.interrupt cause)

/-- The response with which a pull is answered. -/
def Pull.respond (pull : Pull σ ε)
    (result : Except (Interrupt ε) Outcome → Except (Refusal ε) Answer) : Response σ ε :=
  ⟨result pull.outcome, pull.lexer, pull.source, pull.events⟩

/-- A call, in which a pull has at most `fuel` turns. -/
def call (src : CharSource σ ε) (fuel : Nat) (lx : Lexer) (s : σ) : Call → Response σ ε
  | .advance => (lx.advance src fuel s).respond report
  | .next => (lx.advance src fuel s).respond item
  | .enter => ⟨.ok .itself, lx, s, []⟩
  | .close | .exit =>
    match lx.close src s with
    | (.ok _, lx, s) => ⟨.ok .nothing, lx, s, []⟩
    | (.error e, lx, s) => ⟨.error (.interrupt (.source e)), lx, s, []⟩

end FormulaLex.Lexer
