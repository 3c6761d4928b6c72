import FormulaLex.Lexer
import FormulaLex.Session.Resource

/-!
The store of a session. Several sources may stand on one stream, and several lexers on one source,
so each resource is kept once, under its number. A source may also stand on another source or on a
lexer: it cannot read there, but it closes what it owns. A resource stands only on resources made
before it.
-/
namespace FormulaLex.Session

structure Store where
  streams : Array AnyStream := #[]
  sources : Array AnySource := #[]
  /-- Each lexer with the number of its source. -/
  lexers : Array (Lexer × Nat) := #[]
  lexemes : Array Lexeme := #[]

namespace Store

variable {α : Type}

def typeName (store : Store) : Resource → String
  | .stream n => (store.streams[n]?.map AnyStream.typeName).getD ""
  | .source n => (store.sources[n]?.map AnySource.typeName).getD ""
  | .lexer _ => "Lexer"
  | .lexeme _ => "LexemeBuffer"

/-- What a resource offers to a lexer that is asked to scan it. -/
def offer (store : Store) (x : Resource) : Offer :=
  match x with
  | .stream n => (store.streams[n]?.map AnyStream.offer).getD { typeName := "" }
  | .source n => (store.sources[n]?.map AnySource.offer).getD { typeName := "" }
  | .lexer _ => { typeName := store.typeName x, canClose := true }
  | .lexeme _ => { typeName := store.typeName x }

def setStream (store : Store) (n : Nat) (s : AnyStream) : Store :=
  { store with streams := store.streams.setIfInBounds n s }

def setSource (store : Store) (n : Nat) (s : AnySource) : Store :=
  { store with sources := store.sources.setIfInBounds n s }

def setLexer (store : Store) (n : Nat) (lx : Lexer) (source : Nat) : Store :=
  { store with lexers := store.lexers.setIfInBounds n (lx, source) }

/-- Reads one character of a resource that is taken for a stream. A number without a stream reads as
an empty stream. -/
def readOne (x : Resource) (store : Store) : Except Fault String × Store :=
  match x with
  | .stream n =>
    match store.streams[n]? with
    | some s => (s.read 1).map id (store.setStream n)
    | none => (.ok "", store)
  | .source _ => (.error (.noAmount (store.typeName x)), store)
  | .lexer _ | .lexeme _ => (.error (.missing (store.typeName x) "read"), store)

/-- A bound on the characters still to come from a resource that is taken for a stream. -/
def streamSize (x : Resource) (store : Store) : Nat :=
  match x with
  | .stream n => (store.streams[n]?.map AnyStream.size).getD 0
  | _ => 0

/-- A resource taken for a stream, given how resources are closed. -/
def streamOn (closing : Resource → Store → Except Fault Unit × Store) (x : Resource) :
    TextStream Store Fault where
  readOne := readOne x
  close := closing x
  size := streamSize x

/-- Applies an operation of sources to the source of a given number, which may change what it stands
on too. A number without a source gives `absent`. -/
def onSource (closing : Resource → Store → Except Fault Unit × Store) (n : Nat) (absent : α)
    (op : {σ : Type} → CharSource σ Fault → σ → Except Fault α × σ) (store : Store) :
    Except Fault α × Store :=
  match store.sources[n]? with
  | none => (.ok absent, store)
  | some (.text s) => (op TextSource.source s).map id fun s => store.setSource n (.text s)
  | some (.feed f) => (op Feed.source f).map id fun f => store.setSource n (.feed f)
  | some (.buffered b) =>
    let src := Buffered.source (streamOn closing b.stream)
    (op src { b with stream := store }).map id fun after =>
      after.stream.setSource n (.buffered { after with stream := b.stream })

/-- Closes a resource and what it owns, along a chain of at most `links` sources and lexers. -/
def closeWithin : (links : Nat) → Resource → Store → Except Fault Unit × Store
  | _, .stream n, store =>
    match store.streams[n]? with
    | some s => s.close.map id (store.setStream n)
    | none => (.ok (), store)
  | _, .lexeme n, store => (.error (.missing (store.typeName (.lexeme n)) "close"), store)
  | 0, _, store => (.ok (), store)
  | links + 1, .source n, store => store.onSource (closeWithin links) n () fun src => src.close
  | links + 1, .lexer n, store =>
    match store.lexers[n]? with
    | some (lx, source) =>
      closeWithin links (.source source) (store.setLexer n { lx with done := true } source)
    | none => (.ok (), store)

/-- Closes a resource. No chain is longer than there are sources and lexers. -/
def close (x : Resource) (store : Store) : Except Fault Unit × Store :=
  closeWithin (store.sources.size + store.lexers.size) x store

def sourceSize (n : Nat) (store : Store) : Nat :=
  match store.sources[n]? with
  | none => 0
  | some (.text s) => s.rest.length
  | some (.feed f) => f.items.length
  | some (.buffered b) => Buffered.size (streamOn close b.stream) { b with stream := store }

/-- The source of a given number, as an operation on the whole store. -/
def sourceAt (store : Store) (n : Nat) : CharSource Store Fault where
  label := store.typeName (.source n)
  peek := onSource close n "" fun src => src.peek
  read := onSource close n "" fun src => src.read
  close := onSource close n () fun src => src.close
  size := sourceSize n

def addStream (store : Store) (s : AnyStream) : Resource × Store :=
  (.stream store.streams.size, { store with streams := store.streams.push s })

/-- Adds a source; the answer has its number. -/
def addSource (store : Store) (s : AnySource) : Nat × Store :=
  (store.sources.size, { store with sources := store.sources.push s })

def addLexer (store : Store) (lx : Lexer) (source : Nat) : Resource × Store :=
  (.lexer store.lexers.size, { store with lexers := store.lexers.push (lx, source) })

def addLexeme (store : Store) : Resource × Store :=
  (.lexeme store.lexemes.size, { store with lexemes := store.lexemes.push .empty })

end Store

end FormulaLex.Session
