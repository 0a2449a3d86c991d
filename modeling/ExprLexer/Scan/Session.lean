import ExprLexer.Log
import ExprLexer.Scan.Cursor

/-!
# Sessions

Several readers may draw tokens from one scanner. The scanner keeps the cursor and the diagnostics;
a reader keeps only its own count. A session is any interleaving of readers on any scanners.
-/

namespace ExprLexer

structure Scanner where
  cursor : Cursor
  found : List Diagnostic
  deriving DecidableEq, Repr

namespace Scanner

def ofSource (source : String) : Scanner := ⟨.ofSource source.toList, []⟩

def next (s : Scanner) : Option Token × Scanner :=
  match s.cursor.turn with
  | .token t found after => (some t, ⟨after, s.found ++ found⟩)
  | .finish found after => (none, ⟨after, s.found ++ found⟩)

/-- All tokens that are left, and the scanner at its end. -/
def drain (s : Scanner) : List Token × Scanner :=
  match _h : s.cursor.turn with
  | .token t found after =>
    let (tokens, last) := drain ⟨after, s.found ++ found⟩
    (t :: tokens, last)
  | .finish found after => ([], ⟨after, s.found ++ found⟩)
termination_by s.cursor.rest.length
decreasing_by exact Cursor.length_lt_of_turn ‹_›

end Scanner

structure Reader where
  scanner : Nat
  /-- How many tokens it has delivered. -/
  count : Nat := 0
  /-- Whether it has neither been closed nor come to its end. -/
  live : Bool := true
  deriving DecidableEq, Repr

/-- The scanners and the readers on them, each numbered in order of creation. The first scanners
are those of the sources; a private reader adds a scanner of its own. -/
structure Session where
  sources : List String
  scanners : List Scanner
  readers : List Reader
  deriving Repr

namespace Session

inductive Event where
  /-- Open a reader on the scanner of a source. -/
  | share (source : Nat)
  /-- Open a reader on a fresh scanner of a source. -/
  | iterate (source : Nat)
  | next (reader : Nat)
  | drain (reader : Nat)
  | close (reader : Nat)
  | diagnostics (source : Nat)
  deriving DecidableEq, Repr

inductive Answer where
  | none
  | reader (number : Nat)
  | token (token : Token)
  | tokens (tokens : List Token)
  | diagnostics (found : List Diagnostic)
  deriving DecidableEq, Repr

def start (sources : List String) : Session := ⟨sources, sources.map .ofSource, []⟩

/-- The number of diagnostics found so far in each source. -/
def counts (s : Session) : List Nat :=
  (s.scanners.take s.sources.length).map (·.found.length)

def live? (s : Session) (reader : Nat) : Option (Reader × Scanner) := do
  let r ← s.readers[reader]?
  let scanner ← s.scanners[r.scanner]?
  if r.live then some (r, scanner) else none

/-- The session after the reader has delivered `delivered` tokens and moved its scanner. -/
def put (s : Session) (reader : Nat) (r : Reader) (delivered : Nat) (live : Bool)
    (scanner : Scanner) : Session :=
  { s with
    scanners := s.scanners.set r.scanner scanner
    readers := s.readers.set reader { r with count := r.count + delivered, live } }

def ending (r : Reader) (delivered : Nat) (scanner : Scanner) : LogRecord :=
  .scanned (r.count + delivered) scanner.found.length

def step (s : Session) : Event → Session × Answer × List LogRecord
  | .share n =>
    ({ s with readers := s.readers ++ [⟨n, 0, true⟩] }, .reader s.readers.length, [])
  | .iterate n =>
    let scanner := Scanner.ofSource (s.sources.getD n "")
    ({ s with
        scanners := s.scanners ++ [scanner]
        readers := s.readers ++ [⟨s.scanners.length, 0, true⟩] }, .reader s.readers.length, [])
  | .next g =>
    match s.live? g with
    | none => (s, .none, [])
    | some (r, scanner) =>
      match scanner.next with
      | (some t, after) => (s.put g r 1 true after, .token t, [])
      | (none, after) => (s.put g r 0 false after, .none, [ending r 0 after])
  | .drain g =>
    match s.live? g with
    | none => (s, .tokens [], [])
    | some (r, scanner) =>
      let (tokens, after) := scanner.drain
      (s.put g r tokens.length false after, .tokens tokens, [ending r tokens.length after])
  | .close g =>
    match s.readers[g]? with
    | none => (s, .none, [])
    | some r => ({ s with readers := s.readers.set g { r with live := false } }, .none, [])
  | .diagnostics n =>
    (s, .diagnostics ((s.scanners[n]?).elim [] Scanner.found), [])

def run (s : Session) : List Event → Session × List (Answer × List LogRecord)
  | [] => (s, [])
  | e :: es =>
    let (s', answer, log) := s.step e
    let (last, rest) := run s' es
    (last, (answer, log) :: rest)

end Session

end ExprLexer
