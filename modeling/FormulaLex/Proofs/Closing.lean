import FormulaLex.Proofs.Exchange
import Mathlib.Data.List.Forall2

/-!
What comes of a fault in closing the source: it takes the place of what the call that closes would
give, and changes nothing else. So of two lexers on sources that agree until they are closed, the
results differ in one call at most, and in that call by just what the closing gave.
-/
namespace FormulaLex

variable {σ σ' ε : Type}

/-- The second source agrees with the first until they are closed, of which only the second can
fail. Behind that they are related by `C`, given what its closing gave, and stay as they are. -/
structure CharSource.AgreesUntilClosed (src : CharSource σ ε) (src' : CharSource σ' ε)
    (R : σ → σ' → Prop) (C : Except ε Unit → σ → σ' → Prop) : Prop extends src.Agrees src' R where
  close {s : σ} {s' : σ'} (h : R s s') : ∃ result t t',
    src.close s = (.ok (), t) ∧ src'.close s' = (result, t') ∧ C result t t'
  closed {result : Except ε Unit} {s : σ} {s' : σ'} (h : C result s s') :
    src.close s = (.ok (), s) ∧ src'.close s' = (.ok (), s')

namespace Lexer

variable {R : σ → σ' → Prop} {C : Except ε Unit → σ → σ' → Prop} {src : CharSource σ ε}
  {src' : CharSource σ' ε} {lx : Lexer} {s : σ} {s' : σ'}

/-- An exchange, if its call closes the source and that gives the result given: a fault takes the
place of what the call would give. -/
def Exchange.displacedBy (x : Exchange σ ε) : Except ε Unit → Exchange σ ε
  | .ok _ => x
  | .error e => { x with response := { x.response with result := .error (.interrupt (.source e)) } }

/-- Two lexers between calls: they are the same, but for their sources. -/
inductive Abreast (R : σ → σ' → Prop) (C : Except ε Unit → σ → σ' → Prop) (lx : Lexer) (s : σ)
    (s' : σ') : Prop
  | going (hd : lx.done = false) (h : R s s')
  | ended {result : Except ε Unit} (hd : lx.done = true) (h : C result s s')

/-- The same call on each of them. -/
inductive Exchange.Abreast (R : σ → σ' → Prop) (C : Except ε Unit → σ → σ' → Prop)
    (x : Exchange σ ε) (x' : Exchange σ' ε) : Prop
  | going (hd : x.response.lexer.done = false) (h : R x.response.source x'.response.source)
      (seen : x'.seen = x.seen)
  | closing {result : Except ε Unit} (hb : x.before.done = false)
      (hd : x.response.lexer.done = true) (h : C result x.response.source x'.response.source)
      (seen : x'.seen = x.seen.displacedBy result)
  | behind {result : Except ε Unit} (hb : x.before.done = true)
      (hd : x.response.lexer.done = true) (h : C result x.response.source x'.response.source)
      (seen : x'.seen = x.seen)

theorem Exchange.Abreast.lexers {x : Exchange σ ε} {x' : Exchange σ' ε} (h : x.Abreast R C x') :
    x'.before = x.before ∧ x'.response.lexer = x.response.lexer := by
  have hseen {y : Exchange Unit ε} (hy : x'.seen = y) :
      x'.before = y.before ∧ x'.response.lexer = y.response.lexer := by
    rw [← hy]
    exact ⟨rfl, rfl⟩
  cases h with
  | going hd h seen => exact hseen seen
  | behind hb hd h seen => exact hseen seen
  | @closing result hb hd h seen =>
    cases result with
    | ok => exact hseen seen
    | error e => exact hseen seen

theorem Exchange.Abreast.next {x : Exchange σ ε} {x' : Exchange σ' ε} (h : x.Abreast R C x') :
    Lexer.Abreast R C x.response.lexer x.response.source x'.response.source := by
  cases h with
  | going hd h => exact .going hd h
  | closing hb hd h => exact .ended hd h
  | behind hb hd h => exact .ended hd h

theorem Pull.Agrees.abreast (hsrc : src.AgreesUntilClosed src' R C) (hd : lx.done = false)
    {pull : Pull σ ε} {pull' : Pull σ' ε} (h : pull.Agrees src src' R pull') (c : Call)
    {result : Except (Interrupt ε) Outcome → Except (Refusal ε) Answer}
    (hcut : ∀ cause, result (.error cause) = .error (.interrupt cause)) :
    Exchange.Abreast R C ⟨c, lx, pull.respond result⟩ ⟨c, lx, pull'.respond result⟩ := by
  cases h with
  | goes hd' h => exact .going hd' h rfl
  | @concludes lx' s s' o event h =>
    obtain ⟨closing, t, t', hclose, hclose', hclosed⟩ := hsrc.close h
    rw [conclude_eq, conclude_eq, hclose, hclose']
    refine .closing hd rfl hclosed ?_
    cases closing with
    | ok => rfl
    | error e =>
      simp only [Pull.respond, Except.map, Except.mapError, hcut]
      rfl

theorem Abreast.call (hsrc : src.AgreesUntilClosed src' R C) (h : Abreast R C lx s s') (fuel : Nat)
    (c : Call) :
    Exchange.Abreast R C ⟨c, lx, lx.call src fuel s c⟩ ⟨c, lx, lx.call src' fuel s' c⟩ := by
  cases h with
  | ended hd h =>
    obtain ⟨hclosed, hclosed'⟩ := hsrc.closed h
    rw [call_of_closed hd hclosed, call_of_closed hd hclosed']
    exact .behind hd hd h rfl
  | going hd h =>
    have hpull := advance_agrees hsrc.toAgrees fuel hd h
    have hclose (c : Call) : Exchange.Abreast R C ⟨c, lx, lx.call src fuel s .close⟩
        ⟨c, lx, lx.call src' fuel s' .close⟩ := by
      obtain ⟨closing, t, t', hclose, hclose', hclosed⟩ := hsrc.close h
      cases closing with
      | ok =>
        simp only [Lexer.call, close, hclose, hclose']
        exact .closing hd rfl hclosed rfl
      | error e =>
        simp only [Lexer.call, close, hclose, hclose']
        exact .closing hd rfl hclosed rfl
    cases c with
    | advance => exact hpull.abreast hsrc hd .advance fun _ => rfl
    | next => exact hpull.abreast hsrc hd .next fun _ => rfl
    | enter => exact .going hd h rfl
    | close => exact hclose .close
    | exit => exact hclose .exit

theorem Abreast.exchanges (hsrc : src.AgreesUntilClosed src' R C) (h : Abreast R C lx s s')
    (calls : List (Nat × Call)) :
    List.Forall₂ (Exchange.Abreast R C) (lx.exchanges src calls s)
      (lx.exchanges src' calls s') := by
  induction calls generalizing lx s s' with
  | nil => exact .nil
  | cons fc calls ih =>
    obtain ⟨fuel, c⟩ := fc
    have hcall := h.call hsrc fuel c
    have hlexer : (lx.call src' fuel s' c).lexer = (lx.call src fuel s c).lexer := hcall.lexers.2
    have hrest := ih hcall.next
    apply List.Forall₂.cons hcall
    rw [hlexer]
    exact hrest

end Lexer

end FormulaLex
