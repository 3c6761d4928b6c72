import FormulaLex.Fault
import FormulaLex.Proofs.Exchange
import FormulaLex.Source.Text

/-!
Scripts over the active options and any number of lexers: blocks that a body may leave by raising,
handlers around them, and calls on the lexers in any order. After a block the options are what they
were before it, and each lexer does what it would do alone with the options that it was made with.
-/
namespace FormulaLex.Scripting

open Lexer

variable {ε : Type}

/-- What a lexer is made of: a source of any kind, and options of its own or else the active
ones. -/
structure Recipe (ε : Type) where
  {Kind : Type}
  src : CharSource Kind ε
  source : Kind
  sourceName : Option String := none
  explicit : Option Config := none

/-- What ends a script early. -/
inductive Raised (ε : Type) where
  | refusal (e : Refusal ε)
  /-- No lexer has this number. -/
  | unbound (n : Nat)
  | other (message : String)

/-- Lexers are numbered in the order in which they are made. A call that is refused raises, and what
is raised goes up to the first handler around it that catches it. -/
inductive Script (ε : Type) : Type 1 where
  | done
  | raise (message : String)
  | set (c : Config) (next : Script ε)
  | reset (next : Script ε)
  | block (c : Config) (body next : Script ε)
  | attempt (body : Script ε) (catches : Raised ε → Bool) (handler next : Script ε)
  | make (m : Recipe ε) (next : Script ε)
  | call (n fuel : Nat) (c : Call) (next : Script ε)

/-- A lexer at work, with its source. -/
structure Running (ε : Type) where
  {Kind : Type}
  src : CharSource Kind ε
  lexer : Lexer
  source : Kind

/-- What a script did. -/
inductive Entry (ε : Type) where
  | opened (c : Config)
  | closed
  | set (c : Config)
  | reset
  | made (m : Recipe ε)
  | called (n fuel : Nat) (x : Exchange Unit ε)

structure World (ε : Type) where
  scope : Scope := {}
  lexers : List (Running ε) := []
  /-- The newest entry comes first. -/
  history : List (Entry ε) := []

structure Run (ε : Type) where
  raised : Option (Raised ε)
  world : World ε

/-- The lexer, new, where the given options are active. -/
def Recipe.lexer (m : Recipe ε) (active : Config) : Lexer :=
  (create m.src.label m.sourceName (m.explicit.getD active)).1

namespace World

def record (w : World ε) (e : Entry ε) : World ε := { w with history := e :: w.history }

def set (w : World ε) (c : Config) : World ε := { w with scope := w.scope.set c }.record (.set c)

def reset (w : World ε) : World ε := { w with scope := w.scope.reset }.record .reset

def enter (w : World ε) (c : Config) : World ε :=
  { w with scope := w.scope.enter c }.record (.opened c)

def leave (w : World ε) : World ε :=
  match w.scope.leave? with
  | some scope => { w with scope }.record .closed
  | none => w

def make (w : World ε) (m : Recipe ε) : World ε :=
  let running : Running ε := ⟨m.src, m.lexer w.scope.active, m.source⟩
  { w with lexers := w.lexers ++ [running] }.record (.made m)

def call (w : World ε) (n fuel : Nat) (c : Call) : Run ε :=
  match w.lexers[n]? with
  | none => ⟨some (.unbound n), w⟩
  | some r =>
    let response := r.lexer.call r.src fuel r.source c
    let lexers := w.lexers.set n { r with lexer := response.lexer, source := response.source }
    let raised := match response.result with
      | .ok _ => none
      | .error e => some (.refusal e)
    ⟨raised, { w with lexers }.record (.called n fuel (Exchange.seen ⟨c, r.lexer, response⟩))⟩

end World

/-- Goes on unless something was raised. -/
def Run.andThen (r : Run ε) (next : World ε → Run ε) : Run ε :=
  match r.raised with
  | none => next r.world
  | some _ => r

def Script.exec : Script ε → World ε → Run ε
  | done, w => ⟨none, w⟩
  | raise message, w => ⟨some (.other message), w⟩
  | set c next, w => next.exec (w.set c)
  | reset next, w => next.exec w.reset
  | block c body next, w =>
    let ⟨raised, w⟩ := body.exec (w.enter c)
    Run.andThen ⟨raised, w.leave⟩ next.exec
  | attempt body catches handler next, w =>
    let run := body.exec w
    let run := match run.raised with
      | none => run
      | some e => if catches e then handler.exec run.world else run
    run.andThen next.exec
  | make m next, w => next.exec (w.make m)
  | call n fuel c next, w => (w.call n fuel c).andThen next.exec

/-- The options that a history, the newest entry first, leaves active `depth` blocks further out:
those of the latest change on that level, or else those that its block was opened with. -/
def latest : Nat → List (Entry ε) → Config
  | _, [] => {}
  | depth, .closed :: older => latest (depth + 1) older
  | 0, .opened c :: _ => c
  | depth + 1, .opened _ :: older => latest depth older
  | 0, .set c :: _ => c
  | 0, .reset :: _ => {}
  | depth, _ :: older => latest depth older

/-- How many lexers were made. -/
def countMade : List (Entry ε) → Nat
  | [] => 0
  | .made _ :: older => countMade older + 1
  | _ :: older => countMade older

/-- The calls on a lexer, the oldest first. -/
def callsOn (n : Nat) : List (Entry ε) → List (Nat × Call)
  | [] => []
  | .called k fuel x :: older => callsOn n older ++ if k = n then [(fuel, x.call)] else []
  | _ :: older => callsOn n older

/-- What the owner of a lexer saw of it, the oldest first. -/
def seenOf (n : Nat) : List (Entry ε) → List (Exchange Unit ε)
  | [] => []
  | .called k _ x :: older => seenOf n older ++ if k = n then [x] else []
  | _ :: older => seenOf n older

/-- One action of a script that is no block. -/
inductive Step : World ε → World ε → Prop
  | set (w : World ε) (c : Config) : Step w (w.set c)
  | reset (w : World ε) : Step w w.reset
  | make (w : World ε) (m : Recipe ε) : Step w (w.make m)
  | call (w : World ε) (n fuel : Nat) (c : Call) : Step w (w.call n fuel c).world

section Relation

variable {R : World ε → World ε → Prop} {w w' : World ε}

theorem andThen_relates (htrans : ∀ {w w' w''}, R w w' → R w' w'' → R w w'') {run : Run ε}
    {next : World ε → Run ε} (h : R w run.world) (hnext : ∀ w, R w (next w).world) :
    R w (run.andThen next).world := by
  obtain ⟨raised, w'⟩ := run
  cases raised with
  | none => exact htrans h (hnext w')
  | some e => exact h

/-- Blocks and steps relate a world to a later one, and so do scripts, wherever they raise. -/
theorem exec_relates (hrefl : ∀ w, R w w) (htrans : ∀ {w w' w''}, R w w' → R w' w'' → R w w'')
    (hstep : ∀ {w w'}, Step w w' → R w w')
    (hblock : ∀ {w w'} c, R (w.enter c) w' → R w w'.leave) (s : Script ε) (w : World ε) :
    R w (s.exec w).world := by
  induction s generalizing w with
  | done => exact hrefl w
  | raise message => exact hrefl w
  | set c next ih => exact htrans (hstep (.set w c)) (ih _)
  | reset next ih => exact htrans (hstep (.reset w)) (ih _)
  | block c body next ihbody ihnext =>
    exact andThen_relates (R := R) htrans (hblock c (ihbody (w.enter c))) ihnext
  | attempt body catches handler next ihbody ihhandler ihnext =>
    rw [Script.exec]
    refine andThen_relates (R := R) htrans ?_ ihnext
    have hbody := ihbody w
    generalize body.exec w = run at hbody
    cases run.raised with
    | none => exact hbody
    | some e =>
      dsimp only
      split
      · exact htrans hbody (ihhandler run.world)
      · exact hbody
  | make m next ih => exact htrans (hstep (.make w m)) (ih _)
  | call n fuel c next ih => exact andThen_relates (R := R) htrans (hstep (.call w n fuel c)) ih

theorem scope_leave {c : Config} (h : w'.scope.saved = (w.enter c).scope.saved) :
    w'.leave.scope = w.scope := by
  have hleave : w'.scope.leave? = some w.scope := by
    rw [Scope.leave?, h]
    rfl
  simp only [World.leave, hleave]
  rfl

theorem Step.saved (h : Step w w') : w'.scope.saved = w.scope.saved := by
  cases h with
  | set c => rfl
  | reset => rfl
  | make m => rfl
  | call n fuel c =>
    rw [World.call]
    cases w.lexers[n]? with
    | none => rfl
    | some r => rfl

/-- A script leaves just the blocks that it enters. -/
theorem saved_exec (s : Script ε) (w : World ε) :
    (s.exec w).world.scope.saved = w.scope.saved :=
  exec_relates (R := fun w w' => w'.scope.saved = w.scope.saved) (fun _ => rfl)
    (fun h h' => h'.trans h) Step.saved (fun _ h => congrArg Scope.saved (scope_leave h)) s w

end Relation

@[simp] theorem latest_made (depth : Nat) (m : Recipe ε) (older : List (Entry ε)) :
    latest depth (.made m :: older) = latest depth older := by
  cases depth with
  | zero => rfl
  | succ depth => rfl

@[simp] theorem latest_called (depth n fuel : Nat) (x : Exchange Unit ε)
    (older : List (Entry ε)) : latest depth (.called n fuel x :: older) = latest depth older := by
  cases depth with
  | zero => rfl
  | succ depth => rfl

/-- The active options, and those saved for the open blocks, are the latest ones level by level. -/
structure Tracks (w : World ε) : Prop where
  latest : ∀ depth, latest depth w.history = (w.scope.active :: w.scope.saved).getD depth {}
  count : countMade w.history = w.lexers.length

section Tracks

variable {w w' : World ε}

theorem Tracks.new : Tracks ({} : World ε) := by
  refine ⟨fun depth => ?_, rfl⟩
  cases depth with
  | zero => rfl
  | succ depth => rfl

theorem Tracks.enter (h : Tracks w) (c : Config) : Tracks (w.enter c) := by
  refine ⟨fun depth => ?_, h.count⟩
  cases depth with
  | zero => rfl
  | succ depth => exact h.latest depth

theorem Tracks.leave (h : Tracks w) : Tracks w.leave := by
  obtain ⟨hlatest, hcount⟩ := h
  rw [World.leave]
  rcases hscope : w.scope with ⟨active, _ | ⟨c, saved⟩⟩
  · exact ⟨hlatest, hcount⟩
  · rw [hscope] at hlatest
    exact ⟨fun depth => hlatest (depth + 1), hcount⟩

theorem Step.tracks (hstep : Step w w') (h : Tracks w) : Tracks w' := by
  cases hstep with
  | set c =>
    refine ⟨fun depth => ?_, h.count⟩
    cases depth with
    | zero => rfl
    | succ depth => exact h.latest (depth + 1)
  | reset =>
    refine ⟨fun depth => ?_, h.count⟩
    cases depth with
    | zero => rfl
    | succ depth => exact h.latest (depth + 1)
  | make m =>
    refine ⟨fun depth => (latest_made depth m w.history).trans (h.latest depth), ?_⟩
    simp [World.make, World.record, countMade, h.count]
  | call n fuel c =>
    rw [World.call]
    cases w.lexers[n]? with
    | none => exact h
    | some r =>
      refine ⟨fun depth => (latest_called depth _ _ _ w.history).trans (h.latest depth), ?_⟩
      simpa [World.record, countMade] using h.count

end Tracks

section Calls

variable {σ : Type}

/-- The lexer and its source behind the given calls. -/
def afterCalls (src : CharSource σ ε) : List (Nat × Call) → Lexer → σ → Lexer × σ
  | [], lx, s => (lx, s)
  | (fuel, c) :: calls, lx, s =>
    let response := lx.call src fuel s c
    afterCalls src calls response.lexer response.source

variable (src : CharSource σ ε) (calls : List (Nat × Call)) (fuel : Nat) (c : Call) (lx : Lexer)
  (s : σ)

theorem afterCalls_concat :
    let (lx', s') := afterCalls src calls lx s
    let response := lx'.call src fuel s' c
    afterCalls src (calls ++ [(fuel, c)]) lx s = (response.lexer, response.source) ∧
      lx.exchanges src (calls ++ [(fuel, c)]) s =
        lx.exchanges src calls s ++ [⟨c, lx', response⟩] := by
  induction calls generalizing lx s with
  | nil => exact ⟨rfl, rfl⟩
  | cons fc calls ih =>
    obtain ⟨hafter, hexchanges⟩ :=
      ih (lx.call src fc.1 s fc.2).lexer (lx.call src fc.1 s fc.2).source
    exact ⟨hafter, congrArg (_ :: ·) hexchanges⟩

end Calls

/-- What the lexer comes to where the given options are active, all alone. -/
def Recipe.after (m : Recipe ε) (active : Config) (calls : List (Nat × Call)) : Running ε :=
  let reached := afterCalls m.src calls (m.lexer active) m.source
  ⟨m.src, reached.1, reached.2⟩

/-- What the owner sees of it, all alone. -/
def Recipe.seen (m : Recipe ε) (active : Config) (calls : List (Nat × Call)) :
    List (Exchange Unit ε) :=
  ((m.lexer active).exchanges m.src calls m.source).map Exchange.seen

/-- The lexer of the given number, which was made of `m` before all the entries, is what it would be
alone, and so is what was seen of it. -/
structure Alone (m : Recipe ε) (active : Config) (n : Nat) (later : List (Entry ε))
    (lexers : List (Running ε)) : Prop where
  running : lexers[n]? = some (m.after active (callsOn n later))
  seen : seenOf n later = m.seen active (callsOn n later)

section Alone

variable {m : Recipe ε} {active : Config} {n : Nat} {later : List (Entry ε)}
  {lexers lexers' : List (Running ε)} {e : Entry ε}

/-- A call on the lexer of the given number. -/
def Entry.IsCallOn (n : Nat) : Entry ε → Prop
  | called k _ _ => k = n
  | _ => False

/-- Other entries leave a lexer as it is. -/
theorem Alone.cons (h : Alone m active n later lexers) (he : ¬e.IsCallOn n)
    (hlexers : ∀ r, lexers[n]? = some r → lexers'[n]? = some r) :
    Alone m active n (e :: later) lexers' := by
  have hcalls : callsOn n (e :: later) = callsOn n later ∧
      seenOf n (e :: later) = seenOf n later := by
    cases e with
    | called k fuel x =>
      have hk : k ≠ n := he
      simp [callsOn, seenOf, hk]
    | _ => exact ⟨rfl, rfl⟩
  constructor
  · rw [hcalls.1]
    exact hlexers _ h.running
  · rw [hcalls.1, hcalls.2]
    exact h.seen

theorem Alone.called (h : Alone m active n later lexers) {r : Running ε} (hr : lexers[n]? = some r)
    (fuel : Nat) (c : Call) :
    let response := r.lexer.call r.src fuel r.source c
    Alone m active n (.called n fuel (Exchange.seen ⟨c, r.lexer, response⟩) :: later)
      (lexers.set n { r with lexer := response.lexer, source := response.source }) := by
  intro response
  have hn : n < lexers.length := (List.getElem?_eq_some_iff.1 hr).1
  cases Option.some.inj (hr.symm.trans h.running)
  obtain ⟨hafter, hexchanges⟩ :=
    afterCalls_concat m.src (callsOn n later) fuel c (m.lexer active) m.source
  have hcalls : ∀ lx, callsOn n (.called n fuel (Exchange.seen ⟨c, lx, response⟩) :: later) =
      callsOn n later ++ [(fuel, c)] := by
    simp [callsOn, Exchange.seen]
  have hrunning : m.after active (callsOn n later ++ [(fuel, c)]) =
      ⟨m.src, response.lexer, response.source⟩ := by
    simp only [Recipe.after, hafter]
    rfl
  constructor
  · rw [hcalls, hrunning]
    exact List.getElem?_set_self hn
  · rw [hcalls, Recipe.seen, hexchanges, List.map_append, seenOf, if_pos rfl, h.seen]
    rfl

end Alone

/-- Each lexer that was made is as it would be alone. -/
def EachAlone (w : World ε) : Prop :=
  ∀ later m earlier, w.history = later ++ .made m :: earlier →
    Alone m (latest 0 earlier) (countMade earlier) later w.lexers

theorem EachAlone.record {w : World ε} (h : EachAlone w) {scope : Scope} {e : Entry ε}
    (hmade : ∀ m, e ≠ .made m) (hcalled : ∀ n, ¬e.IsCallOn n) :
    EachAlone ({ w with scope }.record e) := by
  intro later m earlier hhistory
  cases later with
  | nil => exact absurd (List.cons.inj hhistory).1 (hmade m)
  | cons e later =>
    obtain ⟨rfl, htail⟩ := List.cons.inj hhistory
    exact (h later m earlier htail).cons (hcalled _) fun _ => id

theorem EachAlone.make {w : World ε} (h : EachAlone w) (htracks : Tracks w) (m : Recipe ε) :
    EachAlone (w.make m) := by
  intro later m' earlier hhistory
  cases later with
  | nil =>
    obtain ⟨hm, rfl⟩ := List.cons.inj hhistory
    cases hm
    constructor
    · rw [htracks.count, htracks.latest 0]
      exact List.getElem?_concat_length
    · rfl
  | cons e later =>
    obtain ⟨rfl, htail⟩ := List.cons.inj hhistory
    apply (h later m' earlier htail).cons id
    intro r hr
    rw [← hr]
    exact List.getElem?_append_left (List.getElem?_eq_some_iff.1 hr).1

theorem EachAlone.call {w : World ε} (h : EachAlone w) (n fuel : Nat) (c : Call) :
    EachAlone (w.call n fuel c).world := by
  rw [World.call]
  cases hr : w.lexers[n]? with
  | none => exact h
  | some r =>
    intro later m earlier hhistory
    cases later with
    | nil => cases (List.cons.inj hhistory).1
    | cons e later =>
      obtain ⟨rfl, htail⟩ := List.cons.inj hhistory
      have halone := h later m earlier htail
      by_cases hn : n = countMade earlier
      · subst hn
        exact halone.called hr fuel c
      · refine halone.cons hn ?_
        intro r' hr'
        rw [← hr']
        exact List.getElem?_set_ne hn

theorem EachAlone.leave {w : World ε} (h : EachAlone w) : EachAlone w.leave := by
  rw [World.leave]
  cases w.scope.leave? with
  | none => exact h
  | some scope => exact h.record nofun fun _ => id

theorem Step.eachAlone {w w' : World ε} (hstep : Step w w') (htracks : Tracks w)
    (h : EachAlone w) : EachAlone w' := by
  cases hstep with
  | set c => exact h.record nofun fun _ => id
  | reset => exact h.record nofun fun _ => id
  | make m => exact h.make htracks m
  | call n fuel c => exact h.call n fuel c

theorem eachAlone_exec (s : Script ε) : EachAlone (s.exec {}).world := by
  have hnew : EachAlone ({} : World ε) := by
    intro later m earlier hhistory
    simp at hhistory
  have hrun := exec_relates (R := fun w w' => Tracks w ∧ EachAlone w → Tracks w' ∧ EachAlone w')
    (fun _ => id) (fun h h' => h' ∘ h) (fun hstep h => ⟨hstep.tracks h.1, hstep.eachAlone h.1 h.2⟩)
    (fun c hbody h => ?_) s {}
  · exact (hrun ⟨.new, hnew⟩).2
  · have hleft := hbody ⟨h.1.enter c, h.2.record nofun fun _ => id⟩
    exact ⟨hleft.1.leave, hleft.2.leave⟩

/-- Whatever a script does, and wherever it raises, what comes behind a block, or above it where its
body raises, finds the options from before. Each lexer gives to the calls on it what it would give
to these calls alone: with options of its own, or else with the latest ones, at the time it was
made, of the block that it was made in. -/
theorem exec_scoped (s : Script ε) :
    (∀ (c : Config) (body next : Script ε) (w : World ε), ∃ w', w'.scope = w.scope ∧
      (Script.block c body next).exec w =
        Run.andThen ⟨(body.exec (w.enter c)).raised, w'⟩ next.exec) ∧
      ∀ later m earlier, (s.exec {}).world.history = later ++ .made m :: earlier →
        let lx := (create m.src.label m.sourceName (m.explicit.getD (latest 0 earlier))).1
        let n := countMade earlier
        seenOf n later = (lx.exchanges m.src (callsOn n later) m.source).map Exchange.seen := by
  constructor
  · intro c body next w
    exact ⟨_, scope_leave (saved_exec body (w.enter c)), rfl⟩
  · intro later m earlier hhistory
    exact (eachAlone_exec s later m earlier hhistory).seen

def Recipe.ofText (text : String) : Recipe Fault :=
  { src := TextSource.source, source := .ofString text }

/-- Makes a lexer, and another one behind a change of the options, and then raises. -/
def raisingBody : Script Fault :=
  .make (.ofText " 1") (.set { flushAtEnd := .bool false } (.make (.ofText " 2") (.raise "stop")))

/-- Calls lexers made in and behind a block that was left by raising. -/
def raisingScript : Script Fault :=
  .attempt (.block { keepWhitespace := .bool true } raisingBody .done) (fun _ => true) .done
    (.make (.ofText " 3") (.call 0 9 .next (.call 2 9 .next (.call 1 9 .next .done))))

/-- The first lexer of the block shows whitespace as the block has it, and the second one drops a
token that is open at the end as the change has it. Neither heeds the options that are active when it
is called. -/
theorem raisingScript_scoped :
    let history := (raisingScript.exec {}).world.history
    history = history.take 7 ++ .made (.ofText " 1") :: history.drop 8 ∧
      history = history.take 5 ++ .made (.ofText " 2") :: history.drop 6 ∧
      ((Script.block { keepWhitespace := .bool true } raisingBody .done).exec {}).world.scope = {} ∧
      (seenOf 0 (history.take 7)).map (·.response.outcome?) =
        [some (.emitted { kind := .whitespace, text := " ", position := ⟨1, 1⟩ })] ∧
      (seenOf 1 (history.take 5)).map (·.response.outcome?) = [some .finished] := by
  intro history
  have hfirst : history = history.take 7 ++ .made (.ofText " 1") :: history.drop 8 := rfl
  have hsecond : history = history.take 5 ++ .made (.ofText " 2") :: history.drop 6 := rfl
  obtain ⟨hblocks, hlexers⟩ := exec_scoped raisingScript
  obtain ⟨w, hscope, hblock⟩ := hblocks { keepWhitespace := .bool true } raisingBody .done {}
  have hfirst' := hlexers _ _ _ hfirst
  have hsecond' := hlexers _ _ _ hsecond
  refine ⟨hfirst, hsecond, ?_, ?_, ?_⟩
  · rw [hblock]
    exact hscope
  · exact (congrArg (List.map (·.response.outcome?)) hfirst').trans rfl
  · exact (congrArg (List.map (·.response.outcome?)) hsecond').trans rfl

end FormulaLex.Scripting
