import Relayout.Layout.Stretch
import Relayout.Layout.Word

/-!
# Segments of a layout

* `segments`: a layout as token names, bracketed text and the text between them.
* `outputSegments`: the same, but a letter run that tokens do not cover end to end is one word,
  and no token is read that shares a letter with it. `yyyyMMdd` is three tokens, `Today` is one word.
-/

namespace Relayout.Layout

inductive Segment
  /-- text between tokens -/
  | literal (text : Text)
  /-- the inside of a bracketed span -/
  | escaped (text : Text)
  /-- a known token name -/
  | token (text : Text)
  /-- a letter run that known tokens do not cover -/
  | word (text : Text)
  deriving DecidableEq

namespace Segment

/-- The text of the layout that the segment stands for, brackets left out. -/
def text : Segment → Text
  | literal t | escaped t | token t | word t => t

/-- The name that a token or a word asks for. -/
def name? : Segment → Option Text
  | literal _ | escaped _ => none
  | token t | word t => some t

end Segment

/-- A segment and the position where it starts. -/
structure Piece where
  start : Nat
  segment : Segment
  deriving DecidableEq

/-- The text between two pieces, as no segment if there is none. -/
def gap : Text → List Segment
  | [] => []
  | text => [.literal text]

/-- The segments of `text`, which starts at `pos`, with the text between the pieces as literals.
The pieces stand in order of their place. -/
def fill (pos : Nat) (text : Text) : List Piece → List Segment
  | [] => gap text
  | p :: ps =>
    let behind := text.drop (p.start - pos)
    gap (text.take (p.start - pos)) ++ p.segment ::
      fill (p.start + p.segment.text.length) (behind.drop p.segment.text.length) ps

def tokenPieces (found : List Occurrence) : List Piece :=
  found.map fun o => ⟨o.start, .token o.text⟩

def wordPieces (words : List Occurrence) : List Piece :=
  words.map fun o => ⟨o.start, .word o.text⟩

/-- The letter runs of a text that the occurrences do not cover end to end. -/
def uncovered (found : List Occurrence) (text : Text) : List Occurrence :=
  (letterRuns text).filter fun run => !covers found run

/-- Ordinary text as tokens and the text between them. -/
def lexTokens (names : List Text) (text : Text) : List Segment :=
  fill 0 text (tokenPieces (occurrences names text))

/-- Ordinary text as words, tokens that share no letter with a word, and the text between them. -/
def lexWords (names : List Text) (text : Text) : List Segment :=
  let found := occurrences names text
  let words := uncovered found text
  let kept := found.filter fun o => words.all fun w => ¬ o.Overlaps w
  fill 0 text ((tokenPieces kept).merge (wordPieces words) fun p q => p.start ≤ q.start)

/-- The segments of a layout whose ordinary text is read by `lex`. -/
def segmentsBy (lex : Text → List Segment) (layout : Text) : List Segment :=
  (stretches layout).flatMap fun
    | .plain text => lex text
    | .bracketed [] => []
    | .bracketed text => [.escaped text]

def segments (names : List Text) (layout : Text) : List Segment :=
  segmentsBy (lexTokens names) layout

def outputSegments (names : List Text) (layout : Text) : List Segment :=
  segmentsBy (lexWords names) layout

end Relayout.Layout
