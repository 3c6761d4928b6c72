/-!
Character sources: one character of lookahead, and consuming it. An operation gives its result or a
fault, and the state of the source in either case.
-/
namespace FormulaLex

/-- The operations of a character source with states in `σ` and faults in `ε`. Nothing is assumed of
them: what a source looks ahead to and what it then consumes need not agree. -/
structure CharSource (σ ε : Type) where
  /-- What the source is called when its input has no name. -/
  label : String
  /-- The next character without consuming it; the empty text at the end. -/
  peek : σ → Except ε String × σ
  /-- Consumes the next character. -/
  read : σ → Except ε String × σ
  close : σ → Except ε Unit × σ
  /-- A bound on the number of characters still to come. -/
  size : σ → Nat

end FormulaLex
