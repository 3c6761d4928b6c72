import FormulaLex.Charset
import FormulaLex.Token

/-!
The finite automaton of the lexer: thirteen states, the kind of token each one accepts, and the
step that one character of lookahead allows.
-/
namespace FormulaLex

inductive State where
  | start
  | realInt
  | realFrac
  | plus
  | minus
  | star
  | exponent
  | slash
  | equals
  | identifier
  | leftParen
  | rightParen
  | whitespace
  deriving DecidableEq, Repr

/-- A step takes the lookahead into the token, or ends the token in front of it. -/
inductive Step where
  | extend (next : State)
  | finalize
  deriving DecidableEq, Repr

namespace State

def all : List State :=
  [start, realInt, realFrac, plus, minus, star, exponent, slash, equals, identifier, leftParen,
    rightParen, whitespace]

def name : State → String
  | start => "START"
  | realInt => "REAL_INT"
  | realFrac => "REAL_FRAC"
  | plus => "PLUS"
  | minus => "MINUS"
  | star => "STAR"
  | exponent => "EXPONENT"
  | slash => "SLASH"
  | equals => "EQUALS"
  | identifier => "IDENTIFIER"
  | leftParen => "LPAREN"
  | rightParen => "RPAREN"
  | whitespace => "WHITESPACE"

def ofName? (s : String) : Option State := all.find? (·.name == s)

/-- The kind of token that ends in a state; none ends in the start state. -/
def kind? : State → Option Kind
  | start => none
  | realInt | realFrac => some .real
  | plus => some .plus
  | minus => some .minus
  | star => some .star
  | exponent => some .exponent
  | slash => some .slash
  | equals => some .equals
  | identifier => some .identifier
  | leftParen => some .leftParen
  | rightParen => some .rightParen
  | whitespace => some .whitespace

def isAccepting (q : State) : Bool := q != start

/-- The states that a single operator or parenthesis leads to. -/
def operators : List (Char × State) :=
  [('+', plus), ('-', minus), ('*', star), ('/', slash), ('=', equals), ('(', leftParen),
    (')', rightParen)]

/-- The state in which a first character puts the lexer, if any token starts with it. -/
def ofFirst? (c : Char) : Option State :=
  match operators.lookup c with
  | some q => some q
  | none =>
    if Charset.isLetter c then some identifier
    else if Charset.isDigit c then some realInt
    else if Charset.isBlank c then some whitespace
    else none

/-- The state after one more character of an open token, if the character extends it. -/
def extend? : State → Char → Option State
  | realInt, c =>
    if Charset.isDigit c then some realInt
    else if c == Charset.decimalPoint then some realFrac
    else none
  | realFrac, c => if Charset.isDigit c then some realFrac else none
  | star, c => if c == '*' then some exponent else none
  | identifier, c => if Charset.isAlphanumeric c then some identifier else none
  | _, _ => none

/-- The step on one character: `none` when no token starts with it. -/
def step? (q : State) (c : Char) : Option Step :=
  if q = start then (ofFirst? c).map .extend
  else match q.extend? c with
    | some q' => some (.extend q')
    | none => some .finalize

/-- The step on a lookahead of any length; only a single character can extend a token. -/
def stepOn? (q : State) (ahead : String) : Option Step :=
  match ahead.toList with
  | [c] => q.step? c
  | _ => if q = start then none else some .finalize

theorem kind?_eq_none_iff {q : State} : q.kind? = none ↔ q = start := by
  cases q <;> simp [kind?]

@[simp] theorem stepOn?_singleton (q : State) (c : Char) :
    q.stepOn? (String.singleton c) = q.step? c := by
  simp [stepOn?]

theorem step?_eq_none_iff {q : State} {c : Char} :
    q.step? c = none ↔ q = start ∧ ofFirst? c = none := by
  unfold step?
  split
  next hq => simp [hq]
  next hq => split <;> simp [hq]

theorem step?_eq_finalize_iff {q : State} {c : Char} :
    q.step? c = some .finalize ↔ q ≠ start ∧ q.extend? c = none := by
  unfold step?
  split
  next hq => simp [hq]
  next hq => split <;> simp_all

/-- Only between tokens can a character have no step. -/
theorem eq_start_of_stepOn?_eq_none {q : State} {ahead : String} (h : q.stepOn? ahead = none) :
    q = start := by
  unfold stepOn? step? at h
  grind

/-- Between tokens nothing is finalized. -/
theorem stepOn?_start_ne_finalize (ahead : String) : start.stepOn? ahead ≠ some .finalize := by
  unfold stepOn? step?
  split <;> simp

end State

end FormulaLex
