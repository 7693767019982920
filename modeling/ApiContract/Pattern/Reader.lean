import ApiContract.Pattern.Basic
import ApiContract.Text.Hex

namespace ApiContract.Pattern

-- The grammar is that of a linear-time engine: no look-around and no back-references. Classes by Unicode
-- property, the flags `x` and `R`, braces behind `\b` and limits on the size of a pattern are no part of it.

namespace Reader

structure Flags where
  caseless : Bool := false
  multiLine : Bool := false
  dotAll : Bool := false

inductive Escape where
  | char (c : Char)
  | set (set : CharSet)
  | assertion (assertion : Assertion)

-- Punctuation may be escaped, except the angle brackets, which are assertions.
def isEscapable (c : Char) : Bool :=
  c.toNat < 128 && !(('0' ≤ c && c ≤ '9') || ('A' ≤ c && c ≤ 'Z') || ('a' ≤ c && c ≤ 'z')
    || c = '<' || c = '>')

def coded? (count : Nat) : List Char → Option (Escape × List Char)
  | '\x7b' :: rest =>
    let digits := rest.takeWhile (· ≠ '\x7d')
    match rest.dropWhile (· ≠ '\x7d') with
    | _ :: after => if digits.isEmpty then none else (Text.hexChar? digits).map (.char ·, after)
    | [] => none
  | text =>
    let digits := text.take count
    if digits.length < count then none
    else (Text.hexChar? digits).map (.char ·, text.drop count)

def escape? : List Char → Option (Escape × List Char)
  | [] => none
  | c :: rest =>
    match c with
    | 'd' => some (.set .decimal, rest)
    | 'D' => some (.set (.complement .decimal), rest)
    | 'w' => some (.set .word, rest)
    | 'W' => some (.set (.complement .word), rest)
    | 's' => some (.set .blank, rest)
    | 'S' => some (.set (.complement .blank), rest)
    | 'x' => coded? 2 rest
    | 'u' => coded? 4 rest
    | 'U' => coded? 8 rest
    | 'a' => some (.char (Char.ofNat 7), rest)
    | 'f' => some (.char (Char.ofNat 12), rest)
    | 't' => some (.char '\t', rest)
    | 'n' => some (.char '\n', rest)
    | 'r' => some (.char '\r', rest)
    | 'v' => some (.char (Char.ofNat 11), rest)
    | 'A' => some (.assertion .textStart, rest)
    | 'z' => some (.assertion .textEnd, rest)
    | 'b' => some (.assertion .wordEdge, rest)
    | 'B' => some (.assertion .noWordEdge, rest)
    | '<' => some (.assertion .wordStart, rest)
    | '>' => some (.assertion .wordEnd, rest)
    | c => if isEscapable c then some (.char c, rest) else none

inductive Item where
  | char (c : Char)
  | set (set : CharSet)

namespace Item

def toSet : Item → CharSet
  | char c => .single c
  | set s => s

end Item

def item? : List Char → Option (Item × List Char)
  | [] => none
  | '\\' :: rest =>
    match escape? rest with
    | some (.char c, rest) => some (.char c, rest)
    | some (.set s, rest) => some (.set s, rest)
    | _ => none
  | c :: rest => some (.char c, rest)

-- An item or a range. A hyphen before the closing bracket or before another hyphen makes no range.
def range? (text : List Char) : Option (CharSet × List Char) :=
  match item? text with
  | none => none
  | some (item, '-' :: next :: rest) =>
    if next = ']' || next = '-' then some (item.toSet, '-' :: next :: rest)
    else match item, item? (next :: rest) with
      | .char first, some (.char last, rest) =>
        if first ≤ last then some (.range first last, rest) else none
      | _, _ => none
  | some (_, ['-']) => none
  | some (item, rest) => some (item.toSet, rest)

inductive Operator where
  | intersection
  | difference
  | symmetricDifference

def Operator.apply : Operator → CharSet → CharSet → CharSet
  | intersection => .intersection
  | difference => .difference
  | symmetricDifference => .symmetricDifference

def namedSet? (name : String) : Option CharSet :=
  let lower : CharSet := .range 'a' 'z'
  let upper : CharSet := .range 'A' 'Z'
  let digit : CharSet := .range '0' '9'
  let letter : CharSet := .union lower upper
  let alnum : CharSet := .union letter digit
  let graph : CharSet := .range '!' '~'
  match name with
  | "alnum" => some alnum
  | "alpha" => some letter
  | "ascii" => some (.range (Char.ofNat 0) (Char.ofNat 127))
  | "blank" => some (.union (.single '\t') (.single ' '))
  | "cntrl" => some (.union (.range (Char.ofNat 0) (Char.ofNat 31)) (.single (Char.ofNat 127)))
  | "digit" => some digit
  | "graph" => some graph
  | "lower" => some lower
  | "print" => some (.range ' ' '~')
  | "punct" => some (.difference graph alnum)
  | "space" => some (.union (.range '\t' '\r') (.single ' '))
  | "upper" => some upper
  | "word" => some (.union alnum (.single '_'))
  | "xdigit" => some (.union digit (.union (.range 'a' 'f') (.range 'A' 'F')))
  | _ => none

def named? (text : List Char) : Option (CharSet × List Char) :=
  let negated := text.head? == some '^'
  let text := if negated then text.drop 1 else text
  match text.dropWhile (· ≠ ':') with
  | ':' :: ']' :: rest =>
    (namedSet? (String.ofList (text.takeWhile (· ≠ ':')))).map fun set =>
      (if negated then .complement set else set, rest)
  | _ => none

def classStart (text : List Char) : CharSet × List Char :=
  match text with
  | ']' :: rest => (.single ']', rest)
  | '-' :: rest => (.single '-', rest.dropWhile (· = '-'))
  | _ => (.empty, text)

structure ClassState where
  items : CharSet
  pending : Option (CharSet × Operator) := none

namespace ClassState

def add (set : CharSet) (state : ClassState) : ClassState :=
  { state with items := .union state.items set }

-- Operators are applied from left to right, each side with its case variants.
def result (caseless : Bool) (state : ClassState) : CharSet :=
  match state.pending with
  | none => state.items
  | some (left, op) => op.apply (left.foldCase caseless) (state.items.foldCase caseless)

def operator (caseless : Bool) (op : Operator) (state : ClassState) : ClassState :=
  ⟨.empty, some (state.result caseless, op)⟩

end ClassState

mutual
def class? (caseless : Bool) : Nat → List Char → Option (CharSet × List Char)
  | 0, _ => none
  | fuel + 1, text =>
    let negated := text.head? == some '^'
    let start := classStart (if negated then text.drop 1 else text)
    (classItems? caseless fuel ⟨start.1, none⟩ start.2).map fun result =>
      let set := result.1.foldCase caseless
      (if negated then .complement set else set, result.2)
def classItems? (caseless : Bool) : Nat → ClassState → List Char → Option (CharSet × List Char)
  | 0, _, _ => none
  | fuel + 1, state, text =>
    match text with
    | [] => none
    | ']' :: rest => some (state.result caseless, rest)
    | '[' :: rest =>
      let inner := match rest with
        | ':' :: name => (named? name).or (class? caseless fuel rest)
        | _ => class? caseless fuel rest
      match inner with
      | some (chars, rest) => classItems? caseless fuel (state.add chars) rest
      | none => none
    | '&' :: '&' :: rest => classItems? caseless fuel (state.operator caseless .intersection) rest
    | '-' :: '-' :: rest => classItems? caseless fuel (state.operator caseless .difference) rest
    | '~' :: '~' :: rest =>
      classItems? caseless fuel (state.operator caseless .symmetricDifference) rest
    | text =>
      match range? text with
      | some (chars, rest) => classItems? caseless fuel (state.add chars) rest
      | none => none
end

def count? (text : List Char) : Option (Nat × List Char) :=
  let text := text.dropWhile Text.isBlank
  let digits := text.takeWhile fun c => '0' ≤ c && c ≤ '9'
  let value := digits.foldl (fun n c => n * 10 + (c.toNat - 48)) 0
  if digits.isEmpty || Nat.pow 2 32 ≤ value then none
  else some (value, (text.drop digits.length).dropWhile Text.isBlank)

def counts? (text : List Char) : Option (Nat × Option Nat × List Char) :=
  match count? text with
  | some (low, '\x7d' :: rest) => some (low, some low, rest)
  | some (low, ',' :: '\x7d' :: rest) => some (low, none, rest)
  | some (low, ',' :: rest) =>
    match count? rest with
    | some (high, '\x7d' :: rest) => if low ≤ high then some (low, some high, rest) else none
    | _ => none
  | _ => none

-- A repetition may be marked as lazy, which does not change what matches.
def skipLazy : List Char → List Char
  | '?' :: rest => rest
  | text => text

def flags? (flags : Flags) (negated : Bool) (seen : List Char) :
    List Char → Option (Flags × Char × List Char)
  | [] => none
  | c :: rest =>
    if c = ':' || c = ')' then
      if seen.head? == some '-' then none else some (flags, c, rest)
    else if seen.contains c then none
    else match c with
      | '-' => flags? flags true (c :: seen) rest
      | 'i' => flags? { flags with caseless := !negated } negated (c :: seen) rest
      | 'm' => flags? { flags with multiLine := !negated } negated (c :: seen) rest
      | 's' => flags? { flags with dotAll := !negated } negated (c :: seen) rest
      | 'U' => flags? flags negated (c :: seen) rest
      | 'u' => if negated then none else flags? flags negated (c :: seen) rest
      | _ => none

def isNameStart (c : Char) : Bool := c = '_' || (Text.isWord c && !Text.isDecimal c)

def isNamePart (c : Char) : Bool := Text.isWord c || c = '.' || c = '[' || c = ']'

def name? (taken : List (List Char)) (text : List Char) : Option (List Char × List Char) :=
  let name := text.takeWhile (· ≠ '>')
  match text.dropWhile (· ≠ '>'), name with
  | _ :: rest, first :: others =>
    if isNameStart first && others.all isNamePart && !taken.contains name then some (name, rest)
    else none
  | _, _ => none

inductive Opening where
  | group (flags : Flags) (rest : List Char)
  | namedGroup (name : List Char) (rest : List Char)
  | setFlags (flags : Flags) (rest : List Char)

def opening? (flags : Flags) (taken : List (List Char)) : List Char → Option Opening
  | '?' :: '=' :: _ => none
  | '?' :: '!' :: _ => none
  | '?' :: '<' :: '=' :: _ => none
  | '?' :: '<' :: '!' :: _ => none
  | '?' :: 'P' :: '<' :: rest => (name? taken rest).map fun named => .namedGroup named.1 named.2
  | '?' :: '<' :: rest => (name? taken rest).map fun named => .namedGroup named.1 named.2
  | '?' :: rest =>
    match flags? flags false [] rest with
    | some (inner, ':', after) => some (.group inner after)
    | some (inner, _, after) => if rest.head? == some ')' then none else some (.setFlags inner after)
    | none => none
  | rest => some (.group flags rest)

-- In the current alternative, from the last part back, `none` is a change of
-- flags, which cannot be repeated.
structure GroupState where
  flags : Flags
  taken : List (List Char)
  alternatives : List Pattern := []
  parts : List (Option Pattern) := []

namespace GroupState

def sequenceOf (parts : List (Option Pattern)) : Pattern :=
  parts.foldl (fun rest part => match part, rest with
    | none, rest => rest
    | some p, .empty => p
    | some p, rest => .sequence p rest) .empty

def add (p : Pattern) (state : GroupState) : GroupState :=
  { state with parts := some p :: state.parts }

def addSet (set : CharSet) (state : GroupState) : GroupState := state.add (.set set)

def addChar (c : Char) (state : GroupState) : GroupState :=
  state.addSet ((CharSet.single c).foldCase state.flags.caseless)

def close (state : GroupState) : GroupState :=
  { state with alternatives := sequenceOf state.parts :: state.alternatives, parts := [] }

def result (state : GroupState) : Pattern :=
  match state.close.alternatives with
  | [] => .empty
  | last :: earlier => earlier.foldl (fun rest p => .choice p rest) last

def repeatLast? (min : Nat) (max : Option Nat) (state : GroupState) : Option GroupState :=
  match state.parts with
  | some p :: rest => some { state with parts := some (.repeated p min max) :: rest }
  | _ => none

end GroupState

def dot (flags : Flags) : CharSet :=
  if flags.dotAll then .complement .empty else .complement (.single '\n')

def group? (nested : Bool) : Nat → GroupState → List Char →
    Option (Pattern × List (List Char) × List Char)
  | 0, _, _ => none
  | fuel + 1, state, text =>
    let continueWith (next : Option GroupState) (rest : List Char) :=
      next.bind fun state => group? nested fuel state rest
    match text with
    | [] => if nested then none else some (state.result, state.taken, [])
    | ')' :: rest => if nested then some (state.result, state.taken, rest) else none
    | '|' :: rest => continueWith (some state.close) rest
    | '(' :: rest =>
      match opening? state.flags state.taken rest with
      | none => none
      | some (.setFlags flags rest) =>
        continueWith (some { state with flags := flags, parts := none :: state.parts }) rest
      | some (.group flags rest) =>
        (group? true fuel ⟨flags, state.taken, [], []⟩ rest).bind fun inner =>
          continueWith (some { state.add inner.1 with taken := inner.2.1 }) inner.2.2
      | some (.namedGroup name rest) =>
        (group? true fuel ⟨state.flags, name :: state.taken, [], []⟩ rest).bind fun inner =>
          continueWith (some { state.add inner.1 with taken := inner.2.1 }) inner.2.2
    | '[' :: rest =>
      (class? state.flags.caseless (rest.length + 1) rest).bind fun set =>
        continueWith (some (state.addSet set.1)) set.2
    | '*' :: rest => continueWith (state.repeatLast? 0 none) (skipLazy rest)
    | '+' :: rest => continueWith (state.repeatLast? 1 none) (skipLazy rest)
    | '?' :: rest => continueWith (state.repeatLast? 0 (some 1)) (skipLazy rest)
    | '\x7b' :: rest =>
      (counts? rest).bind fun counts =>
        continueWith (state.repeatLast? counts.1 counts.2.1) (skipLazy counts.2.2)
    | '\\' :: rest =>
      match escape? rest with
      | none => none
      | some (.char c, rest) => continueWith (some (state.addChar c)) rest
      | some (.set s, rest) => continueWith (some (state.addSet s)) rest
      | some (.assertion a, rest) => continueWith (some (state.add (.assertion a))) rest
    | '.' :: rest => continueWith (some (state.addSet (dot state.flags))) rest
    | '^' :: rest =>
      continueWith (some (state.add (.assertion
        (if state.flags.multiLine then .lineStart else .textStart)))) rest
    | '$' :: rest =>
      continueWith (some (state.add (.assertion
        (if state.flags.multiLine then .lineEnd else .textEnd)))) rest
    | c :: rest => continueWith (some (state.addChar c)) rest

end Reader

-- Every step of the reader consumes a character.
def parse? (pattern : String) : Option Pattern :=
  let text := pattern.toList
  (Reader.group? false (text.length + 1) ⟨{}, [], [], []⟩ text).map Prod.fst

end ApiContract.Pattern
