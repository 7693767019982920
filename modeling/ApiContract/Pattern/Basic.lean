import ApiContract.Text.CaseFold
import ApiContract.Text.CharClass

namespace ApiContract

-- Of a pattern only the question counts whether a text contains a match: groups
-- are plain parentheses, and of a repetition only the counts matter.

inductive CharSet where
  | range (first last : Char)
  | decimal
  | word
  | blank
  | complement (set : CharSet)
  | caseless (set : CharSet)
  | empty
  | union (left right : CharSet)
  | intersection (left right : CharSet)

namespace CharSet

def mem : CharSet → Char → Bool
  | range first last, c => first ≤ c && c ≤ last
  | decimal, c => Text.isDecimal c
  | word, c => Text.isWord c
  | blank, c => Text.isBlank c
  | complement set, c => !set.mem c
  | caseless set, c => (Text.caseVariants c).any set.mem
  | empty, _ => false
  | union left right, c => left.mem c || right.mem c
  | intersection left right, c => left.mem c && right.mem c

def single (c : Char) : CharSet := range c c

def difference (left right : CharSet) : CharSet := intersection left (complement right)

def symmetricDifference (left right : CharSet) : CharSet :=
  union (difference left right) (difference right left)

def foldCase (caseless : Bool) (set : CharSet) : CharSet := if caseless then .caseless set else set

end CharSet

structure Spot where
  before : Option Char
  rest : List Char

inductive Assertion where
  | textStart
  | textEnd
  | lineStart
  | lineEnd
  | wordEdge
  | noWordEdge
  | wordStart
  | wordEnd

namespace Assertion

def isWordBefore (spot : Spot) : Bool := spot.before.any Text.isWord

def isWordAfter (spot : Spot) : Bool := spot.rest.head?.any Text.isWord

def holds (spot : Spot) : Assertion → Bool
  | textStart => spot.before.isNone
  | textEnd => spot.rest.isEmpty
  | lineStart => spot.before.all (· == '\n')
  | lineEnd => spot.rest.head?.all (· == '\n')
  | wordEdge => isWordBefore spot != isWordAfter spot
  | noWordEdge => isWordBefore spot == isWordAfter spot
  | wordStart => !isWordBefore spot && isWordAfter spot
  | wordEnd => isWordBefore spot && !isWordAfter spot

end Assertion

inductive Pattern where
  | empty
  | set (set : CharSet)
  | assertion (assertion : Assertion)
  | sequence (first second : Pattern)
  | choice (left right : Pattern)
  | repeated (pattern : Pattern) (min : Nat) (max : Option Nat)

-- What a check asks of regular expressions: a text that can be read as a pattern
-- is a test of strings. Which texts those are is left to the engine.
class Pattern.Engine where
  test? (pattern : String) : Option (String → Bool)

end ApiContract
