import FormulaLex.Program
import FormulaLex.Proofs.Encoding
import FormulaLex.Proofs.Report

/-!
Where a listing says that its input is no text. The offset is counted from the first byte that the
failing portion was decoded with, so it is that in the input only as long as no character was
decoded before.
-/
namespace FormulaLex

namespace Lexer.Ending

variable {ε : Type}

/-- The fault of the source that cut a run short. -/
def fault? : Ending ε → Option ε
  | interrupted (.source fault) => some fault
  | _ => none

theorem fault?_eq_some_iff {ending : Ending ε} {fault : ε} :
    ending.fault? = some fault ↔ ending = .interrupted (.source fault) := by
  constructor
  · intro h
    unfold fault? at h
    split at h
    · cases h
      rfl
    · cases h
  · intro h
    rw [h]
    rfl

end Lexer.Ending

namespace ByteStream

theorem flatten_take_portions (n : Nat) (bytes : List UInt8) :
    ((portions bytes).take n).flatten = bytes.take (n * Chunk.leastSize) := by
  induction n generalizing bytes with
  | zero => simp
  | succ n ih =>
    by_cases hbytes : bytes = []
    · rw [hbytes, portions_nil, List.take_nil, List.take_nil]
      rfl
    · rw [portions_of_ne_nil hbytes, List.take_succ_cons, List.flatten_cons, ih, Nat.succ_mul,
        Nat.add_comm, List.take_add]

/-- The portions in front of the one that does not decode are decoded but for the bytes of an open
sequence, and the defect is counted from these on. -/
theorem exists_of_supply_stop {kept : List UInt8} {held : Bool} {chunks : List (List UInt8)}
    {defect : Utf8.Defect} {start : Nat} (hkept : Utf8.decode false kept = .ok ([], kept))
    (hstop : (supply kept held chunks).2 = some (defect, start)) :
    ∃ n chars opened, Utf8.decode false (kept ++ (chunks.take n).flatten) = .ok (chars, opened) ∧
      Utf8.decode true (kept ++ chunks.flatten) = .error (defect,
        (kept ++ (chunks.take n).flatten).length - opened.length + start) := by
  induction chunks generalizing kept held with
  | nil =>
    rw [supply] at hstop
    cases hdecode : Utf8.decode true kept with
    | error e =>
      rw [hdecode] at hstop
      cases hstop
      refine ⟨0, [], kept, by simpa using hkept, ?_⟩
      simp [hdecode]
    | ok result =>
      rw [hdecode] at hstop
      cases hstop
  | cons chunk chunks ih =>
    rw [supply] at hstop
    cases hdecode : Utf8.decode false (kept ++ chunk) with
    | error e =>
      rw [hdecode] at hstop
      cases hstop
      refine ⟨0, [], kept, by simpa using hkept, ?_⟩
      rw [List.flatten_cons, ← List.append_assoc, Utf8.decode_append_of_error hdecode]
      simp
    | ok result =>
      obtain ⟨chars, kept'⟩ := result
      rw [hdecode] at hstop
      obtain ⟨n, chars', opened, hfetched, hwhole⟩ := ih (Utf8.decode_kept hdecode) hstop
      obtain ⟨front, hfront, happend⟩ := Utf8.decode_append hdecode
      have hle := Utf8.length_le_of_decode hfetched
      refine ⟨n + 1, chars ++ chars', opened, ?_, ?_⟩
      · rw [List.take_succ_cons, List.flatten_cons, ← List.append_assoc, happend, hfetched]
        rfl
      · rw [List.take_succ_cons, List.flatten_cons, List.flatten_cons, ← List.append_assoc,
          happend, hwhole, ← List.append_assoc, hfront]
        simp only [Utf8.behind, List.length_append, Except.error.injEq, Prod.mk.injEq,
          true_and] at hle ⊢
        omega

theorem exists_of_interrupted {bytes : List UInt8} {owns : Bool} {sourceName : Option String}
    {config : Config} {reason : String} {start : Nat}
    (h : ((Buffered.source stream).tokenize sourceName config
      { stream := { bytes }, ownsStream := owns }).ending =
        some (.interrupted (.source (.undecodable reason start)))) :
    ∃ n defect chars opened, reason = defect.reason ∧
      Utf8.decode false (bytes.take (n * Chunk.leastSize)) = .ok (chars, opened) ∧
      Utf8.decode true bytes = .error (defect,
        (bytes.take (n * Chunk.leastSize)).length - opened.length + start) := by
  let supplied := supply [] false (portions bytes)
  obtain ⟨Holds, hserves, hholds⟩ := (offers_new bytes).exists_serves owns
  have hholds' : Holds { stream := { bytes }, ownsStream := owns }
      (String.ofList supplied.1).toList := by
    rw [String.toList_ofList]
    exact hholds
  obtain ⟨⟨defect, start'⟩, hstop, hfault⟩ :=
    Option.map_eq_some_iff.1 (hserves.stop_of_interrupted hholds' h)
  cases hfault
  obtain ⟨n, chars, opened, hfetched, hwhole⟩ := exists_of_supply_stop rfl hstop
  rw [List.nil_append, flatten_take_portions] at hfetched hwhole
  rw [List.nil_append, flatten_portions] at hwhole
  exact ⟨n, defect, chars, opened, rfl, hfetched, hwhole⟩

end ByteStream

open String (utf8EncodeChar)

/-- If a listing ends because its input is no text, the offset in its last line is too small by the
bytes of all the characters that were decoded before the failing portion was fetched: it is the
offset in the input just if there were none. -/
theorem Listing.undecodable_offset {bytes : List UInt8} {owns : Bool} {config : Config}
    {reason : String} {start : Nat} (name : String) (positions : Bool) :
    let src := Buffered.source ByteStream.stream
    let source : Buffered ByteStream := { stream := { bytes }, ownsStream := owns }
    (src.tokenize none config source).ending =
        some (.interrupted (.source (.undecodable reason start))) →
      (∃ front, (ofSource src name config positions source).output =
        front ++ (name ++ ": cannot decode input: " ++ reason ++ " at byte " ++ toString start) ++
          "\n") ∧
      ∃ n chars opened,
        Utf8.decode false (bytes.take (n * Chunk.leastSize)) = .ok (chars, opened) ∧
        Utf8.FirstDefect bytes ((chars.flatMap utf8EncodeChar).length + start) ∧
        (Utf8.FirstDefect bytes start ↔ chars = []) := by
  intro src source h
  obtain ⟨n, defect, chars, opened, -, hfetched, hwhole⟩ := ByteStream.exists_of_interrupted h
  have hsplit := Utf8.encode_of_decode hfetched
  have hdefect := Utf8.firstDefect_of_decode hwhole
  rw [hsplit, List.length_append, Nat.add_sub_cancel] at hdefect
  refine ⟨?_, n, chars, opened, hfetched, hdefect, ?_⟩
  · have houtput := (ofSource_eq src name config positions source).1
    rw [h] at houtput
    rw [← undecodableLine_eq]
    exact ⟨_, houtput.trans (String.append_assoc ..).symm⟩
  · constructor
    · intro habsolute
      have hlength := hdefect.unique habsolute
      cases chars with
      | nil => rfl
      | cons c chars =>
        have hpos := List.length_pos_iff.2 (String.utf8EncodeChar_ne_nil (c := c))
        rw [List.flatMap_cons, List.length_append] at hlength
        omega
    · intro hnil
      rw [hnil, List.flatMap_nil, List.length_nil, Nat.zero_add] at hdefect
      exact hdefect

/-- A character that is followed by the first byte of a longer one: the line tells offset 0. -/
theorem Listing.open_sequence_behind_letter :
    let src := Buffered.source ByteStream.stream
    let source : Buffered ByteStream := { stream := { bytes := [0x61, 0xC3] } }
    (src.tokenize none {} source).ending =
        some (.interrupted (.source (.undecodable "unexpected end of data" 0))) ∧
      ∃ n chars opened, Utf8.decode false ([0x61, 0xC3].take (n * Chunk.leastSize)) =
          .ok (chars, opened) ∧
        Utf8.FirstDefect [0x61, 0xC3] ((chars.flatMap utf8EncodeChar).length + 0) ∧
        (Utf8.FirstDefect [0x61, 0xC3] 0 ↔ chars = []) := by
  intro src source
  have hfault : (src.tokenize none {} source).ending.bind Lexer.Ending.fault? =
      some (.undecodable "unexpected end of data" 0) := by decide +kernel
  obtain ⟨ending, hending, hcut⟩ := Option.bind_eq_some_iff.1 hfault
  rw [Lexer.Ending.fault?_eq_some_iff] at hcut
  rw [hcut] at hending
  obtain ⟨-, hoffset⟩ := undecodable_offset "<stdin>" false hending
  exact ⟨hending, hoffset⟩

/-- On the same input the program itself prints an offset where no defect starts. -/
theorem Program.undecodable_offset_not_absolute :
    ∃ exit, Program.run [] [0x61, 0xC3] {} = .ok exit ∧ exit.status = 1 ∧
      exit.output = "<stdin>: cannot decode input: unexpected end of data at byte 0\n" ∧
      Utf8.FirstDefect [0x61, 0xC3] 1 ∧ ¬ Utf8.FirstDefect [0x61, 0xC3] 0 := by
  have hrun : (Program.run [] [0x61, 0xC3] {}).toOption.map
      (fun exit => (exit.status, exit.output)) =
      some (1, "<stdin>: cannot decode input: unexpected end of data at byte 0\n") := by
    decide +kernel
  have hdecode : Utf8.decode true [0x61, 0xC3] = .error (.unexpectedEnd, 1) := rfl
  have hdefect := Utf8.firstDefect_of_decode hdecode
  cases hexit : Program.run [] [0x61, 0xC3] {} with
  | error crash =>
    rw [hexit] at hrun
    cases hrun
  | ok exit =>
    rw [hexit] at hrun
    obtain ⟨hstatus, houtput⟩ := Prod.mk.inj (Option.some.inj hrun)
    refine ⟨exit, rfl, hstatus, houtput, hdefect, ?_⟩
    intro hzero
    cases hdefect.unique hzero

end FormulaLex
