import FormulaLex.Proofs.Translation
import FormulaLex.Source.Feed

/-!
A token leaves nothing behind. A lexer that has just emitted one is a new lexer put in at its place,
and so goes on as a new one would, whatever its source does from then on.
-/
namespace FormulaLex.Lexer

variable {σ ε : Type} {src : CharSource σ ε} {lx lx' : Lexer} {s : σ} {t : Token}

/-- A lexer that was never run, with the options and the name of another one, at its place. -/
def renewed (lx : Lexer) : Lexer :=
  { config := lx.config, sourceName := lx.sourceName, position := lx.position }

/-- What a lexer is set up with is that of another. -/
structure SetUpAs (lx' lx : Lexer) : Prop where
  config : lx'.config = lx.config
  sourceName : lx'.sourceName = lx.sourceName

theorem SetUpAs.trans {lx'' : Lexer} (h : lx''.SetUpAs lx') (h' : lx'.SetUpAs lx) :
    lx''.SetUpAs lx :=
  ⟨h.config.trans h'.config, h.sourceName.trans h'.sourceName⟩

/-- A pull leaves the set-up as it is, and if it emits a token, it leaves nothing else. -/
structure Pull.Renews (lx : Lexer) (pull : Pull σ ε) : Prop where
  setUp : pull.lexer.SetUpAs lx
  renewed (t : Token) (h : pull.outcome = .ok (.emitted t)) : pull.lexer = pull.lexer.renewed

theorem cleared_eq_renewed (hd : lx.done = false) : lx.cleared = lx.cleared.renewed := by
  cases lx
  cases hd
  rfl

theorem conclude_renews (src : CharSource σ ε) (h : lx'.SetUpAs lx) (s : σ) {o : Outcome}
    (hquiet : ∀ t, o ≠ .emitted t) (event : Event) : (lx'.conclude src s o event).Renews lx := by
  constructor
  · rw [conclude_eq]
    exact ⟨h.config, h.sourceName⟩
  · intro t ht
    exact absurd (outcome_of_conclude ht).symm (hquiet t)

theorem turn_renews (src : CharSource σ ε) (h : lx'.SetUpAs lx) (hd : lx'.done = false) (s : σ) :
    (lx'.turn src s).Leads (fun lx' _ => lx'.SetUpAs lx ∧ lx'.done = false) (Pull.Renews lx) := by
  have hturned := turn_turned src lx' s
  generalize lx'.turn src s = turn at hturned
  generalize lx'.turnFinalizes src s = ts at hturned
  cases hturned with
  | peekFault => exact ⟨h, nofun⟩
  | readFault => exact ⟨h, nofun⟩
  | consumed => exact ⟨⟨h.config, h.sourceName⟩, hd⟩
  | emitted => exact ⟨⟨h.config, h.sourceName⟩, fun _ _ => cleared_eq_renewed hd⟩
  | hidden => exact ⟨⟨h.config, h.sourceName⟩, hd⟩
  | hiddenAtEnd =>
    apply conclude_renews
    · exact ⟨h.config, h.sourceName⟩
    · exact Outcome.finished_ne_emitted
  | ended =>
    apply conclude_renews
    · exact ⟨h.config, h.sourceName⟩
    · exact Outcome.finished_ne_emitted
  | failed =>
    apply conclude_renews
    · exact ⟨h.config, h.sourceName⟩
    · exact Outcome.failed_ne_emitted _

theorem advance_renews (src : CharSource σ ε) (fuel : Nat) (lx : Lexer) (s : σ) :
    (lx.advance src fuel s).Renews lx := by
  cases hd : lx.done with
  | true =>
    rw [advance_eq_finished src hd]
    exact ⟨⟨rfl, rfl⟩, nofun⟩
  | false =>
    rw [advance_eq_scan src hd]
    refine scan_leads (I := fun lx' _ => lx'.SetUpAs lx ∧ lx'.done = false) ?_ ?_ fuel
      ⟨⟨rfl, rfl⟩, hd⟩
    · rintro lx' s ⟨h, hd⟩
      exact turn_renews src h hd s
    · rintro lx' s ⟨h, -⟩
      exact ⟨h, nofun⟩

/-- The turns that a pull is granted, and what the owner of the source does to it beforehand. -/
structure Occasion (σ : Type) where
  fuel : Nat
  prepare : σ → σ := id

/-- Pulls one after the other. Between them the source may be fed, or anything else may happen to
it. -/
def pulls (src : CharSource σ ε) : List (Occasion σ) → Lexer → σ → List (Pull σ ε)
  | [], _, _ => []
  | o :: rest, lx, s =>
    let pull := lx.advance src o.fuel (o.prepare s)
    pull :: pulls src rest pull.lexer pull.source

theorem pulls_renew (src : CharSource σ ε) (occasions : List (Occasion σ)) (lx : Lexer) (s : σ) :
    ∀ pull ∈ lx.pulls src occasions s, pull.Renews lx := by
  induction occasions generalizing lx s with
  | nil =>
    intro pull hpull
    cases hpull
  | cons o rest ih =>
    have hfirst := advance_renews src o.fuel lx (o.prepare s)
    rw [pulls]
    generalize lx.advance src o.fuel (o.prepare s) = first at hfirst
    refine List.forall_mem_cons.2 ⟨hfirst, ?_⟩
    intro pull hpull
    have hrest := ih first.lexer first.source pull hpull
    exact ⟨hrest.setUp.trans hfirst.setUp, hrest.renewed⟩

theorem moved_pulls (origin : Position) (src : CharSource σ ε) (h : lx.WellPlaced)
    (occasions : List (Occasion σ)) (s : σ) :
    (lx.moved origin).pulls src occasions s =
      (lx.pulls src occasions s).map (Pull.moved origin) := by
  induction occasions generalizing lx s with
  | nil => rfl
  | cons o rest ih =>
    have hplaced := advance_wellPlaced src h o.fuel (o.prepare s)
    have hrest := ih hplaced (lx.advance src o.fuel (o.prepare s)).source
    rw [pulls, pulls, moved_advance origin src h, List.map_cons]
    exact congrArg (_ :: ·) hrest

theorem renewed_eq_moved {label : String} {sourceName : Option String} {config : Config}
    (h : lx.SetUpAs (create label sourceName config).1) :
    lx.renewed = (create label sourceName config).1.moved lx.position := by
  have hmoved : (create label sourceName config).1.moved lx.position =
      ⟨config, sourceName, .start, .empty, Position.start.moved lx.position, false⟩ := rfl
  have hconfig : lx.config = config := h.config
  have hsourceName : lx.sourceName = sourceName := h.sourceName
  rw [hmoved, Position.moved_start, renewed, hconfig, hsourceName]

/-- Whenever a pull has emitted a token, also if the input seemed to be at its end: whatever source
the lexer is pulled on from then on, the one it had included, and whatever happens to that source,
all pulls are those of a new lexer on it, with every place moved to where the lexer is. -/
theorem pulls_behind_emitted (src : CharSource σ ε) (sourceName : Option String) (config : Config)
    (past : List (Occasion σ)) (s₀ : σ) :
    let new := (create src.label sourceName config).1
    ∀ pull ∈ new.pulls src past s₀, ∀ t, pull.outcome = .ok (.emitted t) →
      ∀ {σ' : Type} (src' : CharSource σ' ε) (future : List (Occasion σ')) (s : σ'),
        pull.lexer.pulls src' future s =
          (new.pulls src' future s).map (Pull.moved pull.lexer.position) := by
  intro new pull hpull t ht σ' src' future s
  have hrenews := pulls_renew src past new s₀ pull hpull
  have hnew : pull.lexer = new.moved pull.lexer.position :=
    (hrenews.renewed t ht).trans (renewed_eq_moved hrenews.setUp)
  have hplaced : new.WellPlaced := wellPlaced_create _ _ _
  have hmoved := moved_pulls pull.lexer.position src' hplaced future s
  rw [← hnew] at hmoved
  exact hmoved

/-- Behind a token that was flushed, a feed goes on: with the rest of the line, and then on the next
one. -/
theorem fed_behind_flush :
    let new := (create Feed.label none {}).1
    let past : List (Occasion Feed) := [⟨9, id⟩]
    let future : List (Occasion Feed) := [⟨9, (·.extend [.text "b", .text "\n"])⟩,
      ⟨9, (·.extend [.text "c", .text "="])⟩]
    ∃ pull ∈ new.pulls Feed.source past ⟨[.text "="], none, 0⟩,
      pull.outcome = .ok (.emitted ⟨.equals, "=", ⟨1, 1⟩, none, []⟩) ∧
      pull.lexer.pulls Feed.source future pull.source =
        (new.pulls Feed.source future pull.source).map (Pull.moved ⟨1, 2⟩) ∧
      (pull.lexer.pulls Feed.source future pull.source).map Pull.outcome =
        [.ok (.emitted ⟨.identifier, "b", ⟨1, 2⟩, none, []⟩),
          .ok (.emitted ⟨.identifier, "c", ⟨2, 1⟩, none, []⟩)] := by
  intro new past future
  obtain ⟨pull, hpull, ht, hplace⟩ : ∃ pull, pull ∈ new.pulls Feed.source past
      ⟨[.text "="], none, 0⟩ ∧
        pull.outcome = .ok (.emitted ⟨.equals, "=", ⟨1, 1⟩, none, []⟩) ∧
        pull.lexer.position = ⟨1, 2⟩ ∧ pull.source = ⟨[], none, 0⟩ :=
    ⟨_, .head _, rfl, rfl, rfl⟩
  have hbehind := pulls_behind_emitted Feed.source none {} past _ pull hpull _ ht Feed.source future
    pull.source
  rw [hplace.1] at hbehind
  refine ⟨pull, hpull, ht, hbehind, ?_⟩
  rw [hbehind, hplace.2]
  rfl

end FormulaLex.Lexer
