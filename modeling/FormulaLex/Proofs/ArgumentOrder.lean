import FormulaLex.Program
import Mathlib.Data.List.Infix

/-!
Command lines that ask for settings: each option in full or abbreviated, the level in an argument of
its own or joined to its option, the operand anywhere. What is asked for is granted, whatever the
order.
-/
namespace FormulaLex.CommandLine

/-- What arguments ask for. -/
inductive Request where
  | positions
  | keepWhitespace
  | noFlush
  | level (l : Level)
  | file (name : String)
  deriving DecidableEq

/-- The argument begins a spelling of the option, and goes on behind its dashes. -/
def Abbreviates (arg : String) (o : Switch) : Prop :=
  ∃ spelling, (spelling, o) ∈ Switch.spellings ∧ arg.toList <+: spelling.toList ∧
    separator.toList.length < arg.toList.length

/-- The arguments by which something is asked for. -/
inductive Written : Request → List String → Prop
  | positions {arg : String} (h : Abbreviates arg .positions) : Written .positions [arg]
  | keepWhitespace {arg : String} (h : Abbreviates arg .keepWhitespace) :
      Written .keepWhitespace [arg]
  | noFlush {arg : String} (h : Abbreviates arg .noFlush) : Written .noFlush [arg]
  | levelApart {arg : String} {l : Level} (h : Abbreviates arg .logLevel) :
      Written (.level l) [arg, l.name]
  | levelJoined {arg : String} {l : Level} (h : Abbreviates arg .logLevel) :
      Written (.level l) [arg ++ "=" ++ l.name]
  | file {name : String} (h : name.toList.head? ≠ some '-') : Written (.file name) [name]

namespace Request

def level? : Request → Option Level
  | level l => some l
  | _ => none

def file? : Request → Option String
  | file name => some name
  | _ => none

/-- The settings once the request is granted. -/
def grant (s : Settings) : Request → Settings
  | positions => { s with positions := true }
  | keepWhitespace => { s with keepWhitespace := true }
  | noFlush => { s with noFlush := true }
  | level l => { s with level := l }
  | file name => { s with file := name }

end Request

/-- The settings that are asked for, the last level and the operand among them. -/
def Settings.asked (requests : List Request) : Settings where
  positions := .positions ∈ requests
  keepWhitespace := .keepWhitespace ∈ requests
  noFlush := .noFlush ∈ requests
  level := (requests.filterMap Request.level?).getLast?.getD .warning
  file := (requests.filterMap Request.file?).getLast?

section Classes

open Argument

/-- All that abbreviates an option. -/
def abbreviations (o : Switch) : List String :=
  (Switch.spellings.filter (·.2 == o)).flatMap fun (spelling, _) =>
    (spelling.toList.inits.filter (separator.toList.length < ·.length)).map String.ofList

variable {arg : String} {o : Switch}

theorem Abbreviates.mem (h : Abbreviates arg o) : arg ∈ abbreviations o := by
  obtain ⟨spelling, hmem, hbegins, hlong⟩ := h
  refine List.mem_flatMap.2 ⟨(spelling, o), ?_, List.mem_map.2 ⟨arg.toList, ?_, ?_⟩⟩
  · simpa using hmem
  · simpa [List.mem_inits] using ⟨hbegins, hlong⟩
  · exact String.ofList_toList

/-- No two options begin alike, so that each argument has its class. -/
theorem classify_abbreviations (o : Switch) : ∀ arg ∈ abbreviations o,
    arg ≠ separator ∧ classify arg = .ok (.option o false none) := by
  cases o <;> decide +kernel

theorem classify_joined : ∀ arg ∈ abbreviations .logLevel, ∀ l ∈ Level.all,
    arg ++ "=" ++ l.name ≠ separator ∧
      classify (arg ++ "=" ++ l.name) = .ok (.option .logLevel false (some l.name)) := by
  decide +kernel

theorem classify_operand (h : arg.toList.head? ≠ some '-') :
    arg ≠ separator ∧ classify arg = .ok .operand := by
  constructor
  · rintro rfl
    exact h rfl
  · rw [classify, if_pos]
    simpa using h

end Classes

/-- What the arguments of a request do, wherever they stand, as long as there is no separator: none
of them is passed over, and together they grant the request. -/
structure Acts (r : Request) (piece : List String) (arguments : List Argument) : Prop where
  classified : ∀ rest, Argument.classifyAll (piece ++ rest) =
    (Argument.classifyAll rest).map (arguments ++ ·)
  unseparated : ∀ a ∈ arguments, a.argClass ≠ .separator
  consumed : ∀ (settings : Settings) (operandMet : Bool) (rest : List Argument),
    (r.file?.isSome → operandMet = false) → (∀ a ∈ rest, a.argClass ≠ .separator) →
    Settings.consume { settings, operandMet } (arguments ++ rest) =
      Settings.consume { settings := r.grant settings
                         operandMet := operandMet || r.file?.isSome } rest

theorem classifyAll_cons {arg : String} {argClass : ArgClass}
    (h : arg ≠ separator ∧ Argument.classify arg = .ok argClass) (rest : List String) :
    Argument.classifyAll (arg :: rest) =
      (Argument.classifyAll rest).map (⟨arg, argClass⟩ :: ·) := by
  obtain ⟨hne, hclass⟩ := h
  rw [Argument.classifyAll, if_neg (by simpa using hne), hclass]
  cases Argument.classifyAll rest with
  | error e => rfl
  | ok arguments => rfl

theorem Level.ofName?_name (l : Level) : ofName? l.name = some l := by
  cases l <;> decide

theorem Level.head?_name (l : Level) : l.name.toList.head? ≠ some '-' := by
  cases l <;> decide

theorem Level.mem_all (l : Level) : l ∈ all := by
  cases l <;> decide

theorem Progress.setLevel_name (p : Progress) (l : Level) : p.setLevel l.name =
    .ok { p with settings := { p.settings with level := l }, levelLost := false } := by
  have hne : l.name ≠ separator := (classify_operand l.head?_name).1
  rw [setLevel, if_neg (by simpa using hne), l.ofName?_name]

theorem acts_flag {r : Request} {o : Switch} {arg : String} (h : Abbreviates arg o)
    (hlevel : o ≠ .logLevel) (hfile : r.file? = none)
    (hact : ∀ p : Progress, p.act o = .ok { p with settings := r.grant p.settings }) :
    Acts r [arg] [⟨arg, .option o false none⟩] where
  classified := classifyAll_cons (classify_abbreviations o arg h.mem)
  unseparated := by simp
  consumed settings operandMet rest hmet hrest := by
    rw [List.singleton_append, Settings.consume]
    · rw [hact, hfile, Option.isSome_none, Bool.or_false]
      rfl
    · exact fun _ _ _ => hlevel

theorem acts_levelApart {arg : String} {l : Level} (h : Abbreviates arg .logLevel) :
    Acts (.level l) [arg, l.name]
      [⟨arg, .option .logLevel false none⟩, ⟨l.name, .operand⟩] where
  classified rest := by
    have harg := classify_abbreviations .logLevel arg h.mem
    rw [List.cons_append, classifyAll_cons harg, List.singleton_append,
      classifyAll_cons (classify_operand l.head?_name)]
    cases Argument.classifyAll rest with
    | error e => rfl
    | ok arguments => rfl
  unseparated := by simp
  consumed settings operandMet rest hmet hrest := by
    rw [List.cons_append, List.singleton_append, Settings.consume, Progress.setLevel_name]
    simp only [Request.file?, Option.isSome_none, Bool.or_false]
    rfl

theorem acts_levelJoined {arg : String} {l : Level} (h : Abbreviates arg .logLevel) :
    Acts (.level l) [arg ++ "=" ++ l.name]
      [⟨arg ++ "=" ++ l.name, .option .logLevel false (some l.name)⟩] where
  classified := classifyAll_cons (classify_joined arg h.mem l l.mem_all)
  unseparated := by simp
  consumed settings operandMet rest hmet hrest := by
    rw [List.singleton_append, Settings.consume, Progress.actWith, if_pos rfl,
      Progress.setLevel_name]
    simp only [Request.file?, Option.isSome_none, Bool.or_false]
    rfl

theorem acts_file {name : String} (h : name.toList.head? ≠ some '-') :
    Acts (.file name) [name] [⟨name, .operand⟩] where
  classified := classifyAll_cons (classify_operand h)
  unseparated := by simp
  consumed settings operandMet rest hmet hrest := by
    rw [hmet rfl, List.singleton_append, Settings.consume, if_neg Bool.false_ne_true]
    · rfl
    · rintro _ _ rfl
      exact hrest _ List.mem_cons_self rfl

theorem Written.acts {r : Request} {piece : List String} (h : Written r piece) :
    ∃ arguments, Acts r piece arguments := by
  cases h with
  | positions h => exact ⟨_, acts_flag h nofun rfl fun _ => rfl⟩
  | keepWhitespace h => exact ⟨_, acts_flag h nofun rfl fun _ => rfl⟩
  | noFlush h => exact ⟨_, acts_flag h nofun rfl fun _ => rfl⟩
  | levelApart h => exact ⟨_, acts_levelApart h⟩
  | levelJoined h => exact ⟨_, acts_levelJoined h⟩
  | file h => exact ⟨_, acts_file h⟩

section Runs

variable {requests requests' : List Request} {pieces pieces' : List (List String)}

/-- All requests are granted, one after the other. -/
theorem consume_written (h : List.Forall₂ Written requests pieces) :
    ∃ arguments, Argument.classifyAll pieces.flatten = .ok arguments ∧
      (∀ a ∈ arguments, a.argClass ≠ .separator) ∧
      ∀ (settings : Settings) (operandMet : Bool),
        (requests.filterMap Request.file?).length + operandMet.toNat ≤ 1 →
        ∃ operandMet', Settings.consume { settings, operandMet } arguments =
          .ok { settings := requests.foldl Request.grant settings, operandMet := operandMet' } := by
  induction h with
  | nil => exact ⟨[], rfl, nofun, fun settings operandMet _ => ⟨operandMet, rfl⟩⟩
  | @cons r piece requests pieces hr hrest ih =>
    obtain ⟨arguments, hacts⟩ := hr.acts
    obtain ⟨later, hlater, hunseparated, hconsume⟩ := ih
    refine ⟨arguments ++ later, ?_, ?_, ?_⟩
    · rw [List.flatten_cons, hacts.classified, hlater]
      rfl
    · intro a ha
      rcases List.mem_append.1 ha with ha | ha
      · exact hacts.unseparated a ha
      · exact hunseparated a ha
    · intro settings operandMet hone
      have hfile : r.file?.isSome → operandMet = false := by
        intro hsome
        obtain ⟨name, hname⟩ := Option.isSome_iff_exists.1 hsome
        rw [List.filterMap_cons_some hname, List.length_cons] at hone
        exact Bool.toNat_eq_zero.1 (by omega)
      have hmore : (requests.filterMap Request.file?).length +
          (operandMet || r.file?.isSome).toNat ≤ 1 := by
        cases hname : r.file? with
        | none => simpa [List.filterMap_cons_none hname] using hone
        | some name =>
          rw [List.filterMap_cons_some hname, List.length_cons] at hone
          have hle := Bool.toNat_le (operandMet || (some name).isSome)
          omega
      rw [hacts.consumed settings operandMet later hfile hunseparated]
      exact hconsume (r.grant settings) (operandMet || r.file?.isSome) hmore

/-- Of the requests for one setting the last one counts, and a flag that is set stays so. -/
theorem foldl_grant (requests : List Request) (s : Settings) :
    requests.foldl Request.grant s =
      { positions := s.positions || (Settings.asked requests).positions
        keepWhitespace := s.keepWhitespace || (Settings.asked requests).keepWhitespace
        noFlush := s.noFlush || (Settings.asked requests).noFlush
        level := (requests.filterMap Request.level?).getLast?.getD s.level
        file := (requests.filterMap Request.file?).getLast?.or s.file } := by
  induction requests generalizing s with
  | nil => simp [Settings.asked]
  | cons r requests ih =>
    rw [List.foldl_cons, ih]
    cases r <;> simp [Settings.asked, Request.grant, Request.level?, Request.file?,
      List.getLast?_cons]

theorem ofArguments_asked (h : List.Forall₂ Written requests pieces)
    (hone : (requests.filterMap Request.file?).length ≤ 1) :
    Settings.ofArguments pieces.flatten = .ok (.asked requests) := by
  obtain ⟨arguments, hclassified, -, hconsumed⟩ := consume_written h
  obtain ⟨operandMet, hconsume⟩ := hconsumed {} false hone
  have hasked : requests.foldl Request.grant {} = Settings.asked requests := by
    simp [foldl_grant, Settings.asked]
  rw [hasked] at hconsume
  simp only [Settings.ofArguments, hclassified]
  change (Settings.consume {} arguments >>= _) = _
  rw [hconsume]
  rfl

/-- Arguments in any order, some of them more than once, give the settings that they ask for, and
the program does what these settings say. So it does the same on all arguments that ask for the
same. -/
theorem run_asked (h : List.Forall₂ Written requests pieces)
    (hone : (requests.filterMap Request.file?).length ≤ 1) (stdin : List UInt8)
    (files : FileTree) :
    let settings := Settings.asked requests
    let exit := Program.run pieces.flatten stdin files
    Settings.ofArguments pieces.flatten = .ok settings ∧
      (settings.file = none →
        exit = Program.list settings Program.standardInput false stdin) ∧
      (∀ name, settings.file = some name →
        (∀ bytes, files.open? name = .ok bytes → exit = Program.list settings name true bytes) ∧
        ∀ e, files.open? name = .error e → exit =
          if e = .embeddedNull then .error (.openFailed e) else .ok (Program.cannotOpen name e)) ∧
      ∀ requests' pieces', List.Forall₂ Written requests' pieces' →
        (requests'.filterMap Request.file?).length ≤ 1 → Settings.asked requests' = settings →
        Program.run pieces'.flatten stdin files = exit := by
  intro settings exit
  have hsettings := ofArguments_asked h hone
  refine ⟨hsettings, ?_, ?_, ?_⟩
  · intro hfile
    simp only [exit, Program.run, hsettings, hfile, settings]
  · intro name hfile
    constructor
    · intro bytes hbytes
      simp only [exit, Program.run, hsettings, hfile, hbytes, settings]
    · intro e he
      simp only [exit, Program.run, hsettings, hfile, he, settings]
      cases e <;> rfl
  · intro requests' pieces' h' hone' hsame
    have hsettings' := ofArguments_asked h' hone'
    rw [hsame] at hsettings'
    simp only [exit, Program.run, hsettings, hsettings', settings]

end Runs

/-- The file stands between two levels, of which the later counts; in the other order it comes
last. -/
theorem file_between_levels :
    let requests : List Request := [.level .debug, .noFlush, .file "in", .level .info, .noFlush]
    let requests' : List Request := [.level .info, .noFlush, .file "in"]
    let pieces := [["--log-l", "DEBUG"], ["--n"], ["in"], ["--log-level=INFO"], ["--no-flush"]]
    let pieces' := [["--l", "INFO"], ["--no-fl"], ["in"]]
    List.Forall₂ Written requests pieces ∧ List.Forall₂ Written requests' pieces' ∧
      (requests.filterMap Request.file?).length ≤ 1 ∧
      (requests'.filterMap Request.file?).length ≤ 1 ∧
      Settings.ofArguments pieces.flatten =
        .ok { noFlush := true, level := .info, file := some "in" } ∧
      Program.run pieces'.flatten [] {} = Program.run pieces.flatten [] {} := by
  intro requests requests' pieces pieces'
  have hlevel : Abbreviates "--log-l" .logLevel ∧ Abbreviates "--log-level" .logLevel ∧
      Abbreviates "--l" .logLevel :=
    ⟨⟨"--log-level", by decide⟩, ⟨"--log-level", by decide⟩, ⟨"--log-level", by decide⟩⟩
  have hflag : Abbreviates "--n" .noFlush ∧ Abbreviates "--no-flush" .noFlush ∧
      Abbreviates "--no-fl" .noFlush :=
    ⟨⟨"--no-flush", by decide⟩, ⟨"--no-flush", by decide⟩, ⟨"--no-flush", by decide⟩⟩
  have hfile : Written (.file "in") ["in"] := .file (by decide)
  have h : List.Forall₂ Written requests pieces :=
    .cons (.levelApart hlevel.1) (.cons (.noFlush hflag.1) (.cons hfile
      (.cons (.levelJoined hlevel.2.1) (.cons (.noFlush hflag.2.1) .nil))))
  have h' : List.Forall₂ Written requests' pieces' :=
    .cons (.levelApart hlevel.2.2) (.cons (.noFlush hflag.2.2) (.cons hfile .nil))
  obtain ⟨hsettings, -, -, hsame⟩ := run_asked h (by decide) [] {}
  exact ⟨h, h', by decide, by decide, hsettings, hsame requests' pieces' h' (by decide) (by decide)⟩

end FormulaLex.CommandLine
