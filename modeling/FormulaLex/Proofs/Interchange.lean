import FormulaLex.Proofs.Closing
import FormulaLex.Proofs.Delivery
import FormulaLex.Proofs.Recording
import FormulaLex.Stream.Memory
import FormulaLex.Stream.Pieces

/-!
A source over a stream and a source over the text that the stream delivers are the same to whoever
uses them, but for one call: the one in which the stream is closed gives the fault of that, if there
is one. The stream is watched, so that it is known what its closing gave.
-/
namespace FormulaLex

variable {τ ε : Type}

/-- `Holds t w` says that in the state `t` the stream has the characters `w` to deliver: one by one,
and then the empty text. What it gives behind that is left open. -/
structure TextStream.Delivers (str : TextStream τ ε) (Holds : τ → List Char → Prop) : Prop where
  readOne_nil {t : τ} (h : Holds t []) : ∃ t', str.readOne t = (.ok "", t')
  readOne_cons {t : τ} {c : Char} {w : List Char} (h : Holds t (c :: w)) :
    ∃ t', str.readOne t = (.ok (String.singleton c), t') ∧ Holds t' w

namespace MemoryStream

theorem readOne_eq {m : MemoryStream} (hopen : m.closed = false) : stream.readOne m =
    (.ok (String.ofList ((m.content.toList.drop m.position).take 1)),
      { m with position := m.position + ((m.content.toList.drop m.position).take 1).length }) := by
  have htaken : (m.content.extract m.position (m.position + 1)).toList =
      (m.content.toList.drop m.position).take 1 := by
    simp
  simp only [stream, read, whenOpen, hopen, Bool.false_eq_true, ↓reduceIte, htaken]
  rw [← Array.length_toList, htaken]

/-- A text in memory is delivered from the position on. -/
theorem delivers : stream.Delivers fun m w =>
    m.closed = false ∧ m.content.toList.drop m.position = w where
  readOne_nil {m} h := by
    obtain ⟨hopen, hrest⟩ := h
    rw [readOne_eq hopen, hrest]
    exact ⟨_, rfl⟩
  readOne_cons {m c w} h := by
    obtain ⟨hopen, hrest⟩ := h
    rw [readOne_eq hopen, hrest]
    refine ⟨_, rfl, hopen, ?_⟩
    have hdrop := congrArg (List.drop 1) hrest
    rw [List.drop_drop] at hdrop
    exact hdrop

end MemoryStream

theorem PieceStream.delivers : stream.Delivers fun p w => p.pieces = w.map String.singleton where
  readOne_nil {p} h := by
    simp only [List.map_nil] at h
    simp only [stream, read, h]
    exact ⟨_, rfl⟩
  readOne_cons {p c w} h := by
    simp only [List.map_cons] at h
    simp only [stream, read, h]
    exact ⟨_, rfl, rfl⟩

namespace CharSource

/-- What is asked of a source. -/
inductive Call where
  | peek
  | read
  | close
  deriving DecidableEq, Repr

/-- What a source gives: a text or a fault, and what came of closing it. -/
inductive Reply (ε : Type) where
  | text (result : Except ε String)
  | closing (result : Except ε Unit)

/-- One call, with the source that it found, the reply, and the source after it. -/
structure Exchange (σ ε : Type) where
  before : σ
  reply : Reply ε
  after : σ

variable {σ σ' : Type}

def call (src : CharSource σ ε) (s : σ) : Call → Exchange σ ε
  | .peek => ⟨s, .text (src.peek s).1, (src.peek s).2⟩
  | .read => ⟨s, .text (src.read s).1, (src.read s).2⟩
  | .close => ⟨s, .closing (src.close s).1, (src.close s).2⟩

/-- The calls are made one after the other. -/
def exchanges (src : CharSource σ ε) : List Call → σ → List (Exchange σ ε)
  | [], _ => []
  | c :: calls, s => src.call s c :: exchanges src calls (src.call s c).after

def Exchange.map (f : σ → σ') (x : Exchange σ ε) : Exchange σ' ε := ⟨f x.before, x.reply, f x.after⟩

theorem map_exchanges {src : CharSource σ ε} {src' : CharSource σ' ε} {f : σ → σ'}
    (hsrc : src.Simulates src' fun s s' => f s = s') (calls : List Call) (s : σ) :
    (src.exchanges calls s).map (Exchange.map f) = src'.exchanges calls (f s) := by
  have hcall (s : σ) (c : Call) : (src.call s c).map f = src'.call (f s) c := by
    cases c with
    | peek =>
      obtain ⟨r, t, t', hp, hp', rfl⟩ := hsrc.peek (s := s) rfl
      simp only [call, Exchange.map, hp, hp']
    | read =>
      obtain ⟨r, t, t', hr, hr', rfl⟩ := hsrc.read (s := s) rfl
      simp only [call, Exchange.map, hr, hr']
    | close =>
      obtain ⟨r, t, t', hc, hc', rfl⟩ := hsrc.close (s := s) rfl
      simp only [call, Exchange.map, hc, hc']
  induction calls generalizing s with
  | nil => rfl
  | cons c calls ih =>
    rw [exchanges, exchanges, List.map_cons, ih, ← hcall]
    rfl

end CharSource

/-- The places where a buffered source can be while a source over a text is at its own: nothing was
looked at yet, or the next character is ahead, or the end is. -/
inductive Mirrors (Holds : τ → List Char → Prop) (owns : Bool) :
    TextSource → Buffered (Watched τ ε) → Prop
  | unread {w : List Char} {t : τ} {readings : List (Except ε String)} (h : Holds t w) :
      Mirrors Holds owns ⟨w, false⟩ ⟨⟨t, readings, []⟩, none, false, owns⟩
  | ahead {c : Char} {w : List Char} {t : τ} {readings : List (Except ε String)} (h : Holds t w) :
      Mirrors Holds owns ⟨c :: w, false⟩
        ⟨⟨t, readings, []⟩, some (String.singleton c), false, owns⟩
  | ended {t : τ} {readings : List (Except ε String)} :
      Mirrors Holds owns ⟨[], false⟩ ⟨⟨t, readings, []⟩, some "", false, owns⟩

/-- Both are closed, and so is the stream if it is owned. -/
inductive MirrorsShut : Bool → Except ε Unit → TextSource → Buffered (Watched τ ε) → Prop
  | owned {result : Except ε Unit} {t : τ} {readings : List (Except ε String)} :
      MirrorsShut true result ⟨[], true⟩ ⟨⟨t, readings, [result]⟩, some "", true, true⟩
  | borrowed {t : τ} {readings : List (Except ε String)} :
      MirrorsShut false (.ok ()) ⟨[], true⟩ ⟨⟨t, readings, []⟩, some "", true, false⟩

namespace Mirrors

variable {Holds : τ → List Char → Prop} {owns : Bool} {s : TextSource} {b : Buffered (Watched τ ε)}
  {str : TextStream τ ε}

/-- To look ahead reads the stream once at most, and then the answer is kept. -/
theorem peek (hstr : str.Delivers Holds) (h : Mirrors Holds owns s b) :
    ∃ b', b.peek str.watched = (.ok s.peek, b') ∧ b'.lookahead = some s.peek ∧
      Mirrors Holds owns s b' := by
  cases h with
  | @unread w t readings h =>
    cases w with
    | nil =>
      obtain ⟨t', ht⟩ := hstr.readOne_nil h
      have hpeek : Buffered.peek str.watched ⟨⟨t, readings, []⟩, none, false, owns⟩ =
          (.ok "", ⟨⟨t', readings ++ [.ok ""], []⟩, some "", false, owns⟩) := by
        simp only [Buffered.peek, TextStream.watched, ht]
      exact ⟨_, hpeek, rfl, .ended⟩
    | cons c w =>
      obtain ⟨t', ht, h'⟩ := hstr.readOne_cons h
      have hpeek : Buffered.peek str.watched ⟨⟨t, readings, []⟩, none, false, owns⟩ =
          (.ok (String.singleton c), ⟨⟨t', readings ++ [.ok (String.singleton c)], []⟩,
            some (String.singleton c), false, owns⟩) := by
        simp only [Buffered.peek, TextStream.watched, ht]
      exact ⟨_, hpeek, rfl, .ahead h'⟩
  | ahead h => exact ⟨_, rfl, rfl, .ahead h⟩
  | ended => exact ⟨_, rfl, rfl, .ended⟩

theorem read (hstr : str.Delivers Holds) (h : Mirrors Holds owns s b) :
    ∃ b', b.read str.watched = (.ok s.read.1, b') ∧ Mirrors Holds owns s.read.2 b' := by
  obtain ⟨b', hpeek, hahead, h'⟩ := h.peek hstr
  have hread : b.read str.watched =
      (.ok s.peek, if s.peek == "" then b' else { b' with lookahead := none }) := by
    simp only [Buffered.read, hpeek]
  rw [hread]
  cases h' with
  | unread => cases hahead
  | @ahead c w t readings ht =>
    have hne : (String.singleton c == "") = false :=
      beq_eq_false_iff_ne.2 (Lexer.singleton_ne_empty c)
    simp only [TextSource.peek, TextSource.read, hne, Bool.false_eq_true, ↓reduceIte]
    exact ⟨_, rfl, .unread ht⟩
  | ended => exact ⟨_, rfl, .ended⟩

theorem close (str : TextStream τ ε) (h : Mirrors Holds owns s b) :
    ∃ result b', b.close str.watched = (result, b') ∧ MirrorsShut owns result s.close b' := by
  have hopen {t : τ} {readings : List (Except ε String)} {ahead : Option String} :
      ∃ result b', Buffered.close str.watched ⟨⟨t, readings, []⟩, ahead, false, owns⟩ =
        (result, b') ∧ MirrorsShut owns result s.close b' := by
    cases owns with
    | true => exact ⟨_, _, rfl, .owned⟩
    | false => exact ⟨_, _, rfl, .borrowed⟩
  cases h with
  | unread => exact hopen
  | ahead => exact hopen
  | ended => exact hopen

/-- Until they are closed, no operation tells the two sources apart. -/
theorem agrees (hstr : str.Delivers Holds) : (TextSource.source (ε := ε)).AgreesUntilClosed
    (Buffered.source str.watched) (Mirrors Holds owns) (MirrorsShut owns) where
  peek {s b} h := by
    obtain ⟨b', hpeek, -, h'⟩ := h.peek hstr
    exact ⟨_, _, _, rfl, hpeek, h'⟩
  read {s b} h := by
    obtain ⟨b', hread, h'⟩ := h.read hstr
    exact ⟨_, _, _, rfl, hread, h'⟩
  close {s b} h := by
    obtain ⟨result, b', hclose, h'⟩ := h.close str
    exact ⟨_, _, _, rfl, hclose, h'⟩
  closed h := by
    cases h with
    | owned => exact ⟨rfl, rfl⟩
    | borrowed => exact ⟨rfl, rfl⟩

end Mirrors

/-- Both sources are closed or neither is. The stream was closed if its source is closed and owns
it, and then once. -/
structure Coupled (owns : Bool) (s : TextSource) (b : Buffered (Watched τ ε)) : Prop where
  closed : b.closed = s.closed
  closings : b.stream.closings.length = if owns && s.closed then 1 else 0

section Coupled

variable {Holds : τ → List Char → Prop} {owns : Bool} {s : TextSource} {b : Buffered (Watched τ ε)}
  {result : Except ε Unit}

theorem Mirrors.unclosed (h : Mirrors Holds owns s b) :
    s.closed = false ∧ b.closed = false ∧ b.stream.closings = [] := by
  cases h with
  | unread => exact ⟨rfl, rfl, rfl⟩
  | ahead => exact ⟨rfl, rfl, rfl⟩
  | ended => exact ⟨rfl, rfl, rfl⟩

theorem Mirrors.coupled (h : Mirrors Holds owns s b) : Coupled owns s b := by
  obtain ⟨hs, hb, hclosings⟩ := h.unclosed
  refine ⟨hb.trans hs.symm, ?_⟩
  rw [hclosings, hs, Bool.and_false]
  rfl

theorem MirrorsShut.coupled (h : MirrorsShut owns result s b) : Coupled owns s b := by
  cases h with
  | owned => exact ⟨rfl, rfl⟩
  | borrowed => exact ⟨rfl, rfl⟩

theorem MirrorsShut.closed (h : MirrorsShut owns result s b) : s.closed = true := by
  cases h with
  | owned => rfl
  | borrowed => rfl

/-- What is not closed might as well have been closed without a fault. -/
theorem MirrorsShut.elim_closings (h : MirrorsShut owns result s b) {α : Type} {a : α}
    {f : Except ε Unit → α} (hf : f (.ok ()) = a) :
    b.stream.closings.head?.elim a f = f result := by
  cases h with
  | owned => rfl
  | borrowed => exact hf.symm

end Coupled

namespace CharSource

/-- What closing the stream gave, if the call closed it: then it found the source open. -/
def Exchange.closing? (x : Exchange (Buffered (Watched τ ε)) ε) : Option (Except ε Unit) :=
  if x.before.closed then none else x.after.stream.closings.head?

/-- The same call on a source over a text and on one over a stream. The reply is the same, but for
the call that closes the stream: that gives what the closing of the stream gives. -/
structure Exchange.Mirrors (owns : Bool) (x : Exchange TextSource ε)
    (x' : Exchange (Buffered (Watched τ ε)) ε) : Prop where
  coupled : Coupled owns x.after x'.after
  reply : x'.reply = x'.closing?.elim x.reply .closing

variable {Holds : τ → List Char → Prop} {owns : Bool} {s : TextSource} {b : Buffered (Watched τ ε)}
  {str : TextStream τ ε} {result : Except ε Unit}

theorem call_mirrors (hstr : str.Delivers Holds) (h : Mirrors Holds owns s b) (c : Call) :
    let x := TextSource.source.call s c
    let x' := (Buffered.source str.watched).call b c
    x.Mirrors owns x' ∧ (FormulaLex.Mirrors Holds owns x.after x'.after ∨
      ∃ result, MirrorsShut owns result x.after x'.after) := by
  intro x x'
  have hkept {b' : Buffered (Watched τ ε)} (hx' : x' = ⟨b, x.reply, b'⟩)
      (h' : FormulaLex.Mirrors Holds owns x.after b') :
      x.Mirrors owns x' ∧ (FormulaLex.Mirrors Holds owns x.after x'.after ∨
        ∃ result, MirrorsShut owns result x.after x'.after) := by
    obtain ⟨-, -, hclosings⟩ := h'.unclosed
    rw [hx']
    refine ⟨⟨h'.coupled, ?_⟩, .inl h'⟩
    rw [Exchange.closing?, hclosings, List.head?_nil, ite_self]
    rfl
  cases c with
  | peek =>
    obtain ⟨b', hpeek, -, h'⟩ := h.peek hstr
    apply hkept ?_ h'
    simp only [x', x, call, Buffered.source, hpeek]
    rfl
  | read =>
    obtain ⟨b', hread, h'⟩ := h.read hstr
    apply hkept ?_ h'
    simp only [x', x, call, Buffered.source, hread]
    rfl
  | close =>
    obtain ⟨result, b', hclose, h'⟩ := h.close str
    have hx' : x' = ⟨b, .closing result, b'⟩ := by
      simp only [x', call, Buffered.source, hclose]
    obtain ⟨-, hopen, -⟩ := h.unclosed
    rw [hx']
    refine ⟨⟨h'.coupled, ?_⟩, .inr ⟨result, h'⟩⟩
    rw [Exchange.closing?, hopen, if_neg Bool.false_ne_true]
    exact (h'.elim_closings rfl).symm

theorem call_mirrors_shut (str : TextStream τ ε) (h : MirrorsShut owns result s b) (c : Call) :
    let x := TextSource.source.call s c
    let x' := (Buffered.source str.watched).call b c
    x.Mirrors owns x' ∧ MirrorsShut owns result x.after x'.after := by
  cases h with
  | owned =>
    cases c with
    | peek => exact ⟨⟨⟨rfl, rfl⟩, rfl⟩, .owned⟩
    | read => exact ⟨⟨⟨rfl, rfl⟩, rfl⟩, .owned⟩
    | close => exact ⟨⟨⟨rfl, rfl⟩, rfl⟩, .owned⟩
  | borrowed =>
    cases c with
    | peek => exact ⟨⟨⟨rfl, rfl⟩, rfl⟩, .borrowed⟩
    | read => exact ⟨⟨⟨rfl, rfl⟩, rfl⟩, .borrowed⟩
    | close => exact ⟨⟨⟨rfl, rfl⟩, rfl⟩, .borrowed⟩

theorem exchanges_mirror (hstr : str.Delivers Holds)
    (h : Mirrors Holds owns s b ∨ ∃ result, MirrorsShut owns result s b) (calls : List Call) :
    List.Forall₂ (Exchange.Mirrors owns) (TextSource.source.exchanges calls s)
      ((Buffered.source str.watched).exchanges calls b) := by
  induction calls generalizing s b with
  | nil => exact .nil
  | cons c calls ih =>
    rcases h with h | ⟨result, h⟩
    · obtain ⟨hcall, hnext⟩ := call_mirrors hstr h c
      exact .cons hcall (ih hnext)
    · obtain ⟨hcall, hnext⟩ := call_mirrors_shut str h c
      exact .cons hcall (ih (.inr ⟨result, hnext⟩))

end CharSource

namespace Lexer

/-- What closing the stream gave, if the call closed it: then it found the sequence going on. -/
def Exchange.closing? (x : Exchange (Buffered (Watched τ ε)) ε) : Option (Except ε Unit) :=
  if x.before.done then none else x.response.source.stream.closings.head?

/-- The same call on a lexer over a text and on one over a stream. All that can be seen is the same,
but for the call that closes the stream: a fault of the closing takes the place of its result. -/
structure Exchange.Mirrors (owns : Bool) (x : Exchange TextSource ε)
    (x' : Exchange (Buffered (Watched τ ε)) ε) : Prop where
  coupled : Coupled owns x.response.source x'.response.source
  done : x.response.lexer.done = x.response.source.closed
  seen : x'.seen = x'.closing?.elim x.seen x.seen.displacedBy

theorem Exchange.Abreast.mirrors {Holds : τ → List Char → Prop} {owns : Bool}
    {x : Exchange TextSource ε} {x' : Exchange (Buffered (Watched τ ε)) ε}
    (h : x.Abreast (FormulaLex.Mirrors Holds owns) (MirrorsShut owns) x') : x.Mirrors owns x' := by
  have hbefore := h.lexers.1
  cases h with
  | going hd h seen =>
    obtain ⟨hs, -, hclosings⟩ := h.unclosed
    refine ⟨h.coupled, hd.trans hs.symm, ?_⟩
    rw [closing?, hclosings, List.head?_nil, ite_self]
    exact seen
  | behind hb hd h seen =>
    refine ⟨h.coupled, hd.trans h.closed.symm, ?_⟩
    rw [closing?, hbefore, hb]
    exact seen
  | closing hb hd h seen =>
    refine ⟨h.coupled, hd.trans h.closed.symm, ?_⟩
    have hdisplaced := h.elim_closings (a := x.seen) (f := x.seen.displacedBy) rfl
    rw [closing?, hbefore, hb, if_neg Bool.false_ne_true, hdisplaced]
    exact seen

end Lexer

/-- A source over a stream and one over the delivered text, called the same, are closed at the same
calls and give the same, but in one call: the one that closes a stream which is owned gives what
closing the stream gives. Nor can lexers on the two be told apart, other than by the record of their
making, which names the sort of source, and by a fault in closing the stream: that takes the place
of the result of the one call in which the stream is closed. That the stream is watched changes
nothing. -/
theorem buffered_interchangeable {str : TextStream τ ε} {Holds : τ → List Char → Prop}
    (hstr : str.Delivers Holds) {t : τ} {text : String} (ht : Holds t text.toList) (owns : Bool) :
    let s := TextSource.ofString text
    let b : Buffered τ := { stream := t, ownsStream := owns }
    let watched : Buffered (Watched τ ε) := { stream := { stream := t }, ownsStream := owns }
    (∀ calls,
      let run := (Buffered.source str.watched).exchanges calls watched
      run.map (.map Buffered.unwatched) = (Buffered.source str).exchanges calls b ∧
        List.Forall₂ (CharSource.Exchange.Mirrors owns) (TextSource.source.exchanges calls s) run) ∧
    ∀ (sourceName : Option String) (config : Config),
      let subject := (knownName sourceName).getD
      ∃ lx, Lexer.create TextSource.label sourceName config =
          (lx, .scanning (subject "StringSource")) ∧
        Lexer.create Buffered.label sourceName config =
          (lx, .scanning (subject "StreamSource")) ∧
        ∀ calls,
          let run := lx.exchanges (Buffered.source str.watched) calls watched
          run.map Lexer.Exchange.seen =
              (lx.exchanges (Buffered.source str) calls b).map Lexer.Exchange.seen ∧
            List.Forall₂ (Lexer.Exchange.Mirrors owns) (lx.exchanges TextSource.source calls s)
              run := by
  intro s b watched
  have hstart : Mirrors Holds owns s watched := .unread ht
  have hwatched := Buffered.watched_simulates str
  constructor
  · intro calls run
    exact ⟨CharSource.map_exchanges hwatched calls watched,
      CharSource.exchanges_mirror hstr (.inl hstart) calls⟩
  · intro sourceName config subject
    let lx := (Lexer.create TextSource.label sourceName config).1
    have hlx : Lexer.Abreast (Mirrors Holds owns) (MirrorsShut owns) lx s watched :=
      .going rfl hstart
    refine ⟨lx, rfl, rfl, ?_⟩
    intro calls run
    constructor
    · exact Lexer.exchanges_simulates hwatched calls lx rfl
    · exact (hlx.exchanges (Mirrors.agrees hstr) calls).imp fun _ _ h => h.mirrors

/-- A text in memory, and a stream that delivers the same but cannot be closed: a source over that
tells so when it is closed for the first time, and a lexer when it should tell the end. -/
theorem memory_and_pieces_interchangeable :
    let text := "1"
    let m := MemoryStream.ofString text
    let memory : Buffered (Watched MemoryStream Fault) := { stream := { stream := m } }
    let p : PieceStream := ⟨["1"]⟩
    let pieces : Buffered (Watched PieceStream Fault) := { stream := { stream := p } }
    let src := Buffered.source PieceStream.stream.watched
    let fault : Fault := .missing "Reader" "close"
    let lx := (Lexer.create TextSource.label none {}).1
    (m.closed = false ∧ m.content.toList.drop m.position = text.toList) ∧
      p.pieces = text.toList.map String.singleton ∧
      (∀ calls, List.Forall₂ (CharSource.Exchange.Mirrors true)
        (TextSource.source.exchanges calls (.ofString text))
        ((Buffered.source MemoryStream.stream.watched).exchanges calls memory)) ∧
      (src.exchanges [.close, .close] pieces).map CharSource.Exchange.reply =
        [.closing (.error fault), .closing (.ok ())] ∧
      ∃ x y, lx.exchanges src [(9, .next), (9, .next)] pieces = [x, y] ∧ x.closing? = none ∧
        y.closing? = some (.error fault) ∧
        y.response.result = .error (.interrupt (.source fault)) := by
  intro text m memory p pieces src fault lx
  have hm : m.closed = false ∧ m.content.toList.drop m.position = text.toList := ⟨rfl, rfl⟩
  have hp : p.pieces = text.toList.map String.singleton := by decide
  obtain ⟨hmemory, -⟩ := buffered_interchangeable MemoryStream.delivers hm true
  obtain ⟨-, hpieces⟩ := buffered_interchangeable PieceStream.delivers hp true
  obtain ⟨lx', hlx', -, hcalls⟩ := hpieces none {}
  cases hlx'
  have hclosings : (lx.exchanges src [(9, .next), (9, .next)] pieces).map
      Lexer.Exchange.closing? = [none, some (.error fault)] := by
    unfold lx src pieces p
    rfl
  have hpairs : List.Forall₂ (Lexer.Exchange.Mirrors true) _
      (lx.exchanges src [(9, .next), (9, .next)] pieces) := (hcalls _).2
  obtain ⟨x, y, hsplit⟩ : ∃ x y, lx.exchanges src [(9, .next), (9, .next)] pieces = [x, y] :=
    ⟨_, _, rfl⟩
  rw [hsplit] at hclosings hpairs
  obtain ⟨hx, hy⟩ : x.closing? = none ∧ y.closing? = some (.error fault) := by
    simpa using hclosings
  obtain ⟨x', rest, -, hrest, -⟩ := List.forall₂_cons_right_iff.1 hpairs
  obtain ⟨y', rest', hmirrors, -, -⟩ := List.forall₂_cons_right_iff.1 hrest
  have hseen := hmirrors.seen
  rw [hy] at hseen
  refine ⟨hm, hp, fun calls => (hmemory calls).2, rfl, x, y, hsplit, hx, hy, ?_⟩
  exact congrArg (fun z => z.response.result) hseen

/-- A stream that delivers its text but cannot be closed: a lexer that owns it is found out when it
is closed. -/
theorem unclosable_stream_found_out :
    let b : Buffered PieceStream := { stream := ⟨["1"]⟩ }
    ∃ Holds, PieceStream.stream.Delivers Holds ∧ Holds b.stream "1".toList ∧
      ¬ ∀ calls, ((TextSource.lexer none {}).exchanges TextSource.source calls (.ofString "1")).map
          Lexer.Exchange.seen =
        ((TextSource.lexer none {}).exchanges (Buffered.source PieceStream.stream) calls b).map
          Lexer.Exchange.seen := by
  intro b
  refine ⟨_, PieceStream.delivers, rfl, ?_⟩
  intro hsame
  cases hsame [(1, .close)]

end FormulaLex
