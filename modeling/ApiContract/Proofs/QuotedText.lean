import ApiContract.Identifier
import ApiContract.Text.Hex

namespace ApiContract.Quoted

-- What a quoted text means as a string literal of the output. The grammar is that of strict code; the value
-- of a literal is a list of UTF-16 code units.

section Grammar

def unitsOf (code : Nat) : List Nat :=
  if code < 0x10000 then [code]
  else [0xD800 + (code - 0x10000) / 0x400, 0xDC00 + (code - 0x10000) % 0x400]

def units (text : List Char) : List Nat := text.flatMap fun c => unitsOf c.toNat

def isLineEnd (c : Char) : Bool := c == '\n' || c == '\r' || c == '\u2028' || c == '\u2029'

-- The escapes that have a letter or a sign of their own.
def singleEscape? (c : Char) : Option Nat :=
  match c with
  | '\x27' => some 39
  | '"' => some 34
  | '\\' => some 92
  | 'b' => some 8
  | 't' => some 9
  | 'n' => some 10
  | 'v' => some 11
  | 'f' => some 12
  | 'r' => some 13
  | _ => none

-- Characters that a backslash does not leave as they are.
def isEscaping (c : Char) : Bool := (singleEscape? c).isSome || Identifier.isDigit c || c == 'x' || c == 'u'

-- What may follow a backslash, in front of `rest`, and the code units that it stands for.
inductive Escape : List Char → List Char → List Nat → Prop where
  | single {c : Char} {code : Nat} {rest : List Char} (named : singleEscape? c = some code) : Escape [c] rest [code]
  | itself {c : Char} {rest : List Char} (other : isEscaping c = false) (inLine : isLineEnd c = false) :
      Escape [c] rest (unitsOf c.toNat)
  | null {rest : List Char} (ends : ∀ c ∈ rest.head?, Identifier.isDigit c = false) : Escape ['0'] rest [0]
  | byte {a b : Char} {code : Nat} {rest : List Char} (read : Text.hexCode? [a, b] = some code) :
      Escape ['x', a, b] rest [code]
  | unit {a b c d : Char} {code : Nat} {rest : List Char} (read : Text.hexCode? [a, b, c, d] = some code) :
      Escape ['u', a, b, c, d] rest [code]
  | point {digits : List Char} {code : Nat} {rest : List Char} (some : digits ≠ [])
      (read : Text.hexCode? digits = .some code) (small : code ≤ 0x10FFFF) :
      Escape ('u' :: '\x7b' :: (digits ++ ['\x7d'])) rest (unitsOf code)
  | lineEnd {c : Char} {rest : List Char} (ends : isLineEnd c = true) (single : c = '\r' → rest.head? ≠ some '\n') :
      Escape [c] rest []
  | lineEnds {rest : List Char} : Escape ['\r', '\n'] rest []

inductive Body : List Char → List Nat → Prop where
  | nil : Body [] []
  | plain {c : Char} {rest : List Char} {later : List Nat} (unquoted : c ≠ '"') (unescaped : c ≠ '\\')
      (inLine : c ≠ '\n' ∧ c ≠ '\r') (body : Body rest later) : Body (c :: rest) (unitsOf c.toNat ++ later)
  | escape {sequence rest : List Char} {first later : List Nat} (escapes : Escape sequence rest first)
      (body : Body rest later) : Body ('\\' :: (sequence ++ rest)) (first ++ later)

-- The whole text is one literal of this value.
def Denotes (text : List Char) (value : List Nat) : Prop :=
  ∃ body, text = '"' :: (body ++ ['"']) ∧ Body body value

end Grammar

-- The text has no line feed and no carriage return.
def InLine (text : List Char) : Prop := ∀ c ∈ text, c ≠ '\n' ∧ c ≠ '\r'

section Values

-- No character starts like another, because no character is half of a surrogate pair.
theorem unitsOf_append {c d : Char} {rest other : List Nat}
    (equal : unitsOf c.toNat ++ rest = unitsOf d.toNat ++ other) : c = d ∧ rest = other := by
  have first : c.toNat < 0xD800 ∨ 0xDFFF < c.toNat ∧ c.toNat < 0x110000 := c.valid
  have second : d.toNat < 0xD800 ∨ 0xDFFF < d.toNat ∧ d.toNat < 0x110000 := d.valid
  have codes : c.toNat = d.toNat ∧ rest = other := by
    unfold unitsOf at equal
    split at equal <;> split at equal <;>
      simp only [List.cons_append, List.nil_append, List.cons.injEq] at equal
    · exact equal
    · omega
    · omega
    · obtain ⟨high, low, equal⟩ := equal
      refine ⟨?_, equal⟩
      omega
  exact ⟨Char.toNat_inj.mp codes.1, codes.2⟩

theorem unitsOf_ne_nil (code : Nat) : unitsOf code ≠ [] := by
  unfold unitsOf
  split <;> simp

theorem units_injective {text other : List Char} (equal : units text = units other) : text = other := by
  induction text generalizing other with
  | nil =>
    cases other with
    | nil => rfl
    | cons d other => simp [units, unitsOf_ne_nil] at equal
  | cons c text ih =>
    cases other with
    | nil => simp [units, unitsOf_ne_nil] at equal
    | cons d other =>
      have written : unitsOf c.toNat ++ units text = unitsOf d.toNat ++ units other := equal
      obtain ⟨rfl, later⟩ := unitsOf_append written
      rw [ih later]

end Values

section Escaped

-- A backslash and a quote are each written by one escape, and no other escape starts with them.
theorem Escape.written {c : Char} (special : c = '\\' ∨ c = '"') {sequence rest text : List Char} {first : List Nat}
    (escapes : Escape sequence rest first) (equal : sequence ++ rest = c :: text) :
    rest = text ∧ first = unitsOf c.toNat := by
  cases escapes with
  | single named =>
    cases equal
    rcases special with rfl | rfl
    · cases named
      exact ⟨rfl, rfl⟩
    · cases named
      exact ⟨rfl, rfl⟩
  | itself other =>
    cases equal
    rcases special with rfl | rfl
    · cases other
    · cases other
  | null => rcases special with rfl | rfl <;> cases equal
  | byte => rcases special with rfl | rfl <;> cases equal
  | unit => rcases special with rfl | rfl <;> cases equal
  | point => rcases special with rfl | rfl <;> cases equal
  | lineEnd ends =>
    cases equal
    rcases special with rfl | rfl
    · cases ends
    · cases ends
  | lineEnds => rcases special with rfl | rfl <;> cases equal

theorem inLine_cons {c : Char} {text : List Char} : InLine (c :: text) ↔ (c ≠ '\n' ∧ c ≠ '\r') ∧ InLine text :=
  List.forall_mem_cons

theorem special_inLine {c : Char} (special : c = '\\' ∨ c = '"') : c ≠ '\n' ∧ c ≠ '\r' := by
  rcases special with rfl | rfl
  · decide
  · decide

theorem special_escapes {c : Char} (special : c = '\\' ∨ c = '"') (rest : List Char) :
    Escape [c] rest (unitsOf c.toNat) := by
  rcases special with rfl | rfl
  · exact .single rfl
  · exact .single rfl

-- The induction follows the text: each character is read from what was written for it.
theorem body_escapeChars {text : List Char} {value : List Nat} :
    Body (Identifier.escapeChars text) value ↔ InLine text ∧ value = units text := by
  induction text generalizing value with
  | nil =>
    constructor
    · intro body
      cases body
      exact ⟨List.forall_mem_nil _, rfl⟩
    · rintro ⟨_, rfl⟩
      exact .nil
  | cons c text ih =>
    rw [Identifier.escapeChars, inLine_cons]
    by_cases special : c = '\\' ∨ c = '"'
    · rw [if_pos special]
      constructor
      · intro body
        generalize written : '\\' :: c :: Identifier.escapeChars text = whole at body
        cases body with
        | nil => cases written
        | plain _ unescaped =>
          cases written
          exact absurd rfl unescaped
        | escape escapes body =>
          obtain ⟨rfl, rfl⟩ := escapes.written special (List.cons.inj written).2.symm
          obtain ⟨inLine, rfl⟩ := ih.mp body
          exact ⟨⟨special_inLine special, inLine⟩, rfl⟩
      · rintro ⟨⟨_, inLine⟩, rfl⟩
        exact .escape (special_escapes special _) (ih.mpr ⟨inLine, rfl⟩)
    · rw [if_neg special]
      constructor
      · intro body
        generalize written : c :: Identifier.escapeChars text = whole at body
        cases body with
        | nil => cases written
        | plain _ _ here body =>
          cases written
          obtain ⟨inLine, rfl⟩ := ih.mp body
          exact ⟨⟨here, inLine⟩, rfl⟩
        | escape => exact absurd (.inl (List.cons.inj written).1) special
      · rintro ⟨⟨here, inLine⟩, rfl⟩
        obtain ⟨noEscape, noQuote⟩ := not_or.mp special
        exact .plain noQuote noEscape here (ih.mpr ⟨inLine, rfl⟩)

theorem denotes_quote {s : String} {value : List Nat} :
    Denotes (Identifier.quote s).toList value ↔ Body (Identifier.escapeChars s.toList) value := by
  rw [Identifier.toList_quote]
  constructor
  · rintro ⟨body, equal, reads⟩
    have same : Identifier.escapeChars s.toList = body := by simpa using equal
    rwa [same]
  · intro reads
    exact ⟨_, rfl, reads⟩

end Escaped

-- A quoted text is a literal just if the text keeps to one line. Then its value is the text, and no other
-- text has that value.
theorem quote_denotes_text (s : String) :
    (∀ value, Denotes (Identifier.quote s).toList value ↔ InLine s.toList ∧ value = units s.toList) ∧
    ∀ t : String, units t.toList = units s.toList ↔ t = s := by
  constructor
  · intro value
    rw [denotes_quote, body_escapeChars]
  · intro t
    constructor
    · exact fun equal => String.toList_injective (units_injective equal)
    · rintro rfl
      rfl

-- Quotes and backslashes keep their meaning; a line break leaves no literal at all.
theorem quoted_break_denotes_nothing :
    Denotes (Identifier.quote "\\\"").toList [92, 34] ∧ ∀ value, ¬ Denotes (Identifier.quote "a\nb").toList value := by
  constructor
  · apply ((quote_denotes_text "\\\"").1 [92, 34]).mpr
    exact ⟨by simp [InLine], by decide⟩
  · intro value denotes
    have inLine := (((quote_denotes_text "a\nb").1 value).mp denotes).1
    exact (inLine '\n' (by decide)).1 rfl

end ApiContract.Quoted
