import FormulaLex.Proofs.Simulation
import FormulaLex.Source.Buffered

/-!
Sources and streams that keep a record of what was done to them. The record changes nothing else, so
what is proved of the recorded run is true of the run without it.
-/
namespace FormulaLex

variable {σ ε : Type}

/-- A source, with the characters that were read from it. -/
structure Recorded (σ : Type) where
  source : σ
  taken : List Char := []

namespace CharSource

/-- What a reading takes; a fault takes nothing. -/
def takenBy : Except ε String → List Char
  | .ok s => s.toList
  | .error _ => []

def recorded (src : CharSource σ ε) : CharSource (Recorded σ) ε where
  label := src.label
  peek r := ((src.peek r.source).1, { r with source := (src.peek r.source).2 })
  read r :=
    ((src.read r.source).1, ⟨(src.read r.source).2, r.taken ++ takenBy (src.read r.source).1⟩)
  close r := ((src.close r.source).1, { r with source := (src.close r.source).2 })
  size r := src.size r.source

theorem recorded_simulates (src : CharSource σ ε) :
    src.recorded.Simulates src fun r s => r.source = s where
  peek {r s} h := by
    subst h
    exact ⟨_, _, _, rfl, rfl, rfl⟩
  read {r s} h := by
    subst h
    exact ⟨_, _, _, rfl, rfl, rfl⟩
  close {r s} h := by
    subst h
    exact ⟨_, _, _, rfl, rfl, rfl⟩

end CharSource

/-- A stream, with what its readings gave and what came of closing it, the latest last. -/
structure Watched (τ ε : Type) where
  stream : τ
  readings : List (Except ε String) := []
  closings : List (Except ε Unit) := []

variable {τ : Type}

def TextStream.watched (str : TextStream τ ε) : TextStream (Watched τ ε) ε where
  readOne w :=
    let (result, stream) := str.readOne w.stream
    (result, { w with stream, readings := w.readings ++ [result] })
  close w :=
    let (result, stream) := str.close w.stream
    (result, { w with stream, closings := w.closings ++ [result] })
  size w := str.size w.stream

namespace Buffered

def unwatched (b : Buffered (Watched τ ε)) : Buffered τ :=
  ⟨b.stream.stream, b.lookahead, b.closed, b.ownsStream⟩

theorem unwatched_peek (str : TextStream τ ε) (b : Buffered (Watched τ ε)) :
    ∃ r b', b.peek str.watched = (r, b') ∧ b.unwatched.peek str = (r, b'.unwatched) := by
  rcases b with ⟨w, lookahead, closed, owns⟩
  cases lookahead with
  | some ahead => exact ⟨_, _, rfl, rfl⟩
  | none =>
    rcases hr : str.readOne w.stream with ⟨_ | ahead, t⟩
    · exact ⟨_, _, rfl, by simp only [peek, unwatched, TextStream.watched, hr]⟩
    · exact ⟨_, _, rfl, by simp only [peek, unwatched, TextStream.watched, hr]⟩

theorem unwatched_read (str : TextStream τ ε) (b : Buffered (Watched τ ε)) :
    ∃ r b', b.read str.watched = (r, b') ∧ b.unwatched.read str = (r, b'.unwatched) := by
  obtain ⟨r, b', hp, hp'⟩ := unwatched_peek str b
  simp only [read, hp, hp']
  cases r with
  | error e => exact ⟨_, _, rfl, rfl⟩
  | ok ahead =>
    refine ⟨_, _, rfl, ?_⟩
    dsimp only
    split
    · rfl
    · rfl

theorem unwatched_close (str : TextStream τ ε) (b : Buffered (Watched τ ε)) :
    ∃ r b', b.close str.watched = (r, b') ∧ b.unwatched.close str = (r, b'.unwatched) := by
  rcases b with ⟨w, lookahead, closed, owns⟩
  cases closed with
  | true => exact ⟨_, _, rfl, rfl⟩
  | false =>
    cases owns with
    | true => exact ⟨_, _, rfl, rfl⟩
    | false => exact ⟨_, _, rfl, rfl⟩

theorem watched_simulates (str : TextStream τ ε) :
    (source str.watched).Simulates (source str) fun b b' => b.unwatched = b' where
  peek {b b'} h := by
    subst h
    obtain ⟨r, b', hp, hp'⟩ := unwatched_peek str b
    exact ⟨r, b', _, hp, hp', rfl⟩
  read {b b'} h := by
    subst h
    obtain ⟨r, b', hr, hr'⟩ := unwatched_read str b
    exact ⟨r, b', _, hr, hr', rfl⟩
  close {b b'} h := by
    subst h
    obtain ⟨r, b', hc, hc'⟩ := unwatched_close str b
    exact ⟨r, b', _, hc, hc', rfl⟩

end Buffered

end FormulaLex
