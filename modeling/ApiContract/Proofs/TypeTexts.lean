import ApiContract.Proofs.TypeParts
import ApiContract.Proofs.UniqueReading
import ApiContract.TypeExpr.Render
import Mathlib.Data.Bool.AllAny
import Mathlib.Data.List.Nodup

namespace ApiContract.TypeExpr

open Text

-- The texts of types, as lists of characters, and how they start.

section Documentation

def undocumentedMember : Member TypeExpr → Member TypeExpr
  | .property p => .property ⟨p.name, p.type, p.optional, none⟩
  | .index s => .index s

-- The type without the documentation of its properties, at every depth.
def undocumented : TypeExpr → TypeExpr :=
  fold {
    primitive := primitive
    literal := literal
    reference := reference
    union := union
    intersection := intersection
    record := fun members => record (members.map undocumentedMember)
    array := array
    tuple := tuple }

theorem undocumented_union (members : List TypeExpr) :
    (union members).undocumented = union (members.map undocumented) := fold_eq _ _

theorem undocumented_intersection (members : List TypeExpr) :
    (intersection members).undocumented = intersection (members.map undocumented) := fold_eq _ _

def bareMember (member : Member TypeExpr) : Member TypeExpr := undocumentedMember (member.map undocumented)

theorem undocumented_record (members : List (Member TypeExpr)) :
    (record members).undocumented = record (members.map bareMember) := by
  have folded : (record members).undocumented =
    record ((members.map (Member.map undocumented)).map undocumentedMember) := fold_eq _ _
  rw [folded, List.map_map]
  rfl

theorem undocumented_array (items : TypeExpr) : (array items).undocumented = array items.undocumented := fold_eq _ _

theorem undocumented_tuple (places : List TypeExpr) (rest : Option TypeExpr) :
    (tuple places rest).undocumented = tuple (places.map undocumented) (rest.map undocumented) := fold_eq _ _

end Documentation

section Texts

variable (names : Names)

theorem rendered_union (members : List TypeExpr) : (union members).rendered names =
    ⟨" | ".intercalate ((members.map (rendered names)).map Rendered.text), .union⟩ := fold_eq _ _

theorem rendered_intersection (members : List TypeExpr) : (intersection members).rendered names =
    ⟨" & ".intercalate ((members.map (rendered names)).map Rendered.operand), .intersection⟩ := fold_eq _ _

theorem rendered_record (members : List (Member TypeExpr)) : (record members).rendered names =
    ⟨renderRecord (members.map (Member.map (rendered names))), .closed⟩ := fold_eq _ _

theorem rendered_array (items : TypeExpr) :
    (array items).rendered names = ⟨(items.rendered names).items, .closed⟩ := fold_eq _ _

theorem rendered_tuple (places : List TypeExpr) (rest : Option TypeExpr) : (tuple places rest).rendered names =
    ⟨"[" ++ ", ".intercalate ((places.map (rendered names)).map Rendered.text
      ++ ((rest.map (rendered names)).map fun r => "..." ++ r.items).toList) ++ "]", .closed⟩ := fold_eq _ _

def chars (type : TypeExpr) : List Char := (type.render names).toList

-- What holds the text together, without the text.
def grouping : TypeExpr → Grouping
  | union _ => .union
  | intersection _ => .intersection
  | _ => .closed

theorem rendered_grouping (type : TypeExpr) : (type.rendered names).grouping = type.grouping := by
  unfold rendered
  rw [fold_eq]
  cases type <;> rfl

-- The text of a type, in parentheses unless it is closed.
def grouped (type : TypeExpr) : List Char :=
  if type.grouping = .closed then chars names type else '(' :: (chars names type ++ [')'])

def memberChars : Member TypeExpr → List Char
  | .property p =>
    (Identifier.propertyKey p.name).toList ++ ((if p.optional then ['?'] else []) ++ ([':', ' '] ++ chars names p.type))
  | .index s =>
    '[' :: (s.keyName.toList ++ ([':', ' '] ++ (chars names s.key ++ ([']', ':', ' '] ++ chars names s.value))))

theorem chars_union (members : List TypeExpr) :
    chars names (union members) = [' ', '|', ' '].intercalate (members.map (chars names)) := by
  unfold chars render
  rw [rendered_union, String.toList_intercalate, List.map_map, List.map_map]
  rfl

theorem toList_operand (type : TypeExpr) (single : ∀ inner, type ≠ intersection inner) :
    (type.rendered names).operand.toList = grouped names type := by
  unfold Rendered.operand grouped
  rw [rendered_grouping]
  cases type with
  | intersection members => exact absurd rfl (single members)
  | union members => simp [grouping, chars, render]
  | _ => rfl

theorem chars_intersection {members : List TypeExpr} (flat : ∀ inner, intersection inner ∉ members) :
    chars names (intersection members) = [' ', '&', ' '].intercalate (members.map (grouped names)) := by
  have each : members.map (fun member => (member.rendered names).operand.toList) = members.map (grouped names) := by
    refine List.map_congr_left fun member inside => toList_operand names member ?_
    rintro inner rfl
    exact flat inner inside
  unfold chars render
  rw [rendered_intersection, String.toList_intercalate, List.map_map, List.map_map, ← each]
  rfl

theorem toList_items (type : TypeExpr) :
    (type.rendered names).items.toList = grouped names type ++ ['[', ']'] := by
  unfold Rendered.items grouped
  rw [rendered_grouping]
  split
  · simp [chars, render]
  · simp [chars, render]

theorem chars_array (items : TypeExpr) : chars names (array items) = grouped names items ++ ['[', ']'] := by
  unfold chars render
  rw [rendered_array]
  exact toList_items names items

theorem toList_renderMember (member : Member TypeExpr) :
    (renderMember (member.map (rendered names))).toList = memberChars names member := by
  cases member with
  | property p =>
    cases optional : p.optional <;> simp [renderMember, Member.map, memberChars, chars, render, optional]
  | index s => simp [renderMember, Member.map, memberChars, chars, render]

theorem chars_record {members : List (Member TypeExpr)} (some : members ≠ []) :
    chars names (record members) =
      ['\x7b', ' '] ++ ([';', ' '].intercalate (members.map (memberChars names)) ++ [' ', '\x7d']) := by
  unfold chars render
  rw [rendered_record]
  simp only [renderRecord]
  rw [if_neg (by simpa using some)]
  have each : (members.map (Member.map (rendered names))).map (String.toList ∘ renderMember) =
      members.map (memberChars names) := by
    rw [List.map_map]
    exact List.map_congr_left fun member _ => toList_renderMember names member
  simp only [String.toList_append, String.toList_intercalate, List.map_map (f := renderMember), each, List.append_assoc]
  rfl

-- The places of a tuple on the left, and what all further ones are on the right.
def slots (places : List TypeExpr) (rest : Option TypeExpr) : List (TypeExpr ⊕ TypeExpr) :=
  places.map .inl ++ (rest.map .inr).toList

def slotChars : TypeExpr ⊕ TypeExpr → List Char
  | .inl place => chars names place
  | .inr rest => ['.', '.', '.'] ++ (grouped names rest ++ ['[', ']'])

theorem chars_tuple (places : List TypeExpr) (rest : Option TypeExpr) :
    chars names (tuple places rest) =
      '[' :: ([',', ' '].intercalate ((slots places rest).map (slotChars names)) ++ [']']) := by
  have texts : ((places.map (rendered names)).map Rendered.text
      ++ ((rest.map (rendered names)).map fun r => "..." ++ r.items).toList).map String.toList =
      (slots places rest).map (slotChars names) := by
    cases rest with
    | none => simp [slots, slotChars, chars, render]
    | some last => simp [slots, slotChars, chars, render, toList_items]
  unfold chars render
  rw [rendered_tuple]
  simp only [String.toList_append, String.toList_intercalate, texts]
  rfl

theorem chars_record_nil : chars names (record []) = ['\x7b', '\x7d'] := by
  unfold chars render
  rw [rendered_record, List.map_nil]
  rfl

end Texts

-- Words: the texts of types that no bracket or quote encloses.

def keywords : List String :=
  ["string", "number", "boolean", "unknown", "never", "void", "null", "true", "false"]

def keywordTypes : List TypeExpr :=
  [string, number, boolean, unknown, never, void, null, flag true, flag false]

def delimiters : List Char := [' ', '"', '(', ')', '[', ']', '\x7b', '\x7d', ',', ';', '.']

def StartsNumber (text : List Char) : Prop := ∃ c ∈ text.head?, c = '-' ∨ c.isDigit = true

-- An identifier in the widest sense: it does not look like a number, and nothing in it ends a word.
structure IsWord (text : List Char) : Prop where
  some : text ≠ []
  start : ¬ StartsNumber text
  parts : ∀ c ∈ text, c ∉ delimiters

-- The known schemas are declared under different words, none of which is a keyword.
structure Distinguishes (names : Names) (known : String → Prop) : Prop where
  word : ∀ name, known name → IsWord (names.model name).toList
  free : ∀ name, known name → names.model name ∉ keywords
  apart : ∀ a b, known a → known b → names.model a = names.model b → a = b

-- What is asked of a type apart from its parts. A colon would end the name of a key.
def Plain (known : String → Prop) : TypeExpr → Prop
  | primitive p => p ≠ .binary
  | literal l => ∀ x, l ≠ .number x
  | reference name => known name
  | union members => 2 ≤ members.length ∧ ∀ inner, union inner ∉ members
  | intersection members => 2 ≤ members.length ∧ ∀ inner, intersection inner ∉ members
  | record members => ∀ s, .index s ∈ members → s.key = string ∧ ':' ∉ s.keyName.toList
  | array _ => True
  | tuple _ _ => True

inductive Legible (known : String → Prop) : TypeExpr → Prop where
  | intro {type : TypeExpr} (plain : Plain known type) (inside : ∀ part ∈ type.parts, Legible known part) :
      Legible known type

inductive Word (known : String → Prop) : TypeExpr → Prop where
  | keyword {type : TypeExpr} (listed : type ∈ keywordTypes) : Word known type
  | number (n : Int) : Word known (literal (.int n))
  | name {name : String} (declared : known name) : Word known (reference name)

section Words

variable {names : Names} {known : String → Prop} {type other : TypeExpr}

theorem Legible.plain (legible : Legible known type) : Plain known type := by
  cases legible with
  | intro plain _ => exact plain

theorem Legible.inside (legible : Legible known type) : ∀ part ∈ type.parts, Legible known part := by
  cases legible with
  | intro _ inside => exact inside

theorem keyword_texts (names : Names) : keywordTypes.map (render names) = keywords := rfl

theorem keyword_apart {a b : TypeExpr} (first : a ∈ keywordTypes) (second : b ∈ keywordTypes)
    (equal : a.render names = b.render names) : a = b := by
  have distinct : (keywordTypes.map (render names)).Nodup := by
    rw [keyword_texts]
    decide
  exact List.inj_on_of_nodup_map distinct first second equal

theorem keyword_mem (listed : type ∈ keywordTypes) : type.render names ∈ keywords := by
  rw [← keyword_texts names]
  exact List.mem_map_of_mem listed

theorem keyword_isWord : ∀ word ∈ keywords, IsWord word.toList := by
  have spelled : ∀ word ∈ keywords, word.toList ≠ [] ∧
      word.toList.all (fun c => c ≠ '-' ∧ c.isDigit = false ∧ c ∉ delimiters) = true := by
    decide
  intro word listed
  obtain ⟨some, letters⟩ := spelled word listed
  have parts := List.all_iff_forall_prop.mp letters
  refine ⟨some, ?_, fun c member => (parts c member).2.2⟩
  rintro ⟨c, first, minus | digit⟩
  · exact (parts c (List.mem_of_mem_head? first)).1 minus
  · rw [(parts c (List.mem_of_mem_head? first)).2.1] at digit
    cases digit

theorem isPart_of_isStart {c : Char} (start : Identifier.isStart c = true) : Identifier.isPart c = true := by
  simp only [Identifier.isStart, Identifier.isPart, Bool.or_eq_true] at start ⊢
  rcases start with (letter | underscore) | dollar
  · exact .inl (.inl (.inl letter))
  · exact .inl (.inr underscore)
  · exact .inr dollar

theorem bare_name {name : String} (bare : Identifier.needsQuotes name = false) :
    StartsWith (Identifier.isStart · = true) name.toList ∧ ∀ c ∈ name.toList, Identifier.isPart c = true := by
  unfold Identifier.needsQuotes at bare
  split at bare
  · cases bare
  · rename_i c rest text
    obtain ⟨start, parts⟩ : Identifier.isStart c = true ∧ ∀ d ∈ rest, Identifier.isPart d = true := by
      simpa using bare
    rw [text]
    exact ⟨⟨c, rest, rfl, start⟩, List.forall_mem_cons.mpr ⟨isPart_of_isStart start, parts⟩⟩

theorem start_not_number {c : Char} (start : Identifier.isStart c = true) : ¬ (c = '-' ∨ c.isDigit = true) := by
  rintro (rfl | digit)
  · cases start
  · have bounds : 48 ≤ c.toNat ∧ c.toNat ≤ 57 := Char.isDigit_iff_toNat.mp digit
    have between (a b : Char) : (a ≤ c ∧ c ≤ b) ↔ a.toNat ≤ c.toNat ∧ c.toNat ≤ b.toNat := Iff.rfl
    have underscore : c = '_' ↔ c.toNat = 95 := Char.toNat_inj.symm
    have dollar : c = '$' ↔ c.toNat = 36 := Char.toNat_inj.symm
    simp [Identifier.isStart, Identifier.isLetter, between, underscore, dollar] at start
    omega

-- A name that needs no quotes is a word.
theorem isWord_of_bare {name : String} (bare : Identifier.needsQuotes name = false) : IsWord name.toList := by
  have delimits : ∀ c ∈ delimiters, Identifier.isPart c = false := List.all_iff_forall_prop.mp (by decide)
  obtain ⟨⟨c, rest, text, start⟩, parts⟩ := bare_name bare
  refine ⟨?_, ?_, ?_⟩
  · rw [text]
    exact List.cons_ne_nil c rest
  · rw [text]
    rintro ⟨d, first, number⟩
    cases first
    exact start_not_number start number
  · intro d member delimiter
    have part := parts d member
    rw [delimits d delimiter] at part
    cases part

theorem toList_int (n : Int) : (toString n).toList = (if n < 0 then ['-'] else []) ++ Nat.toDigits 10 n.natAbs := by
  cases n with
  | ofNat m =>
    have spelled : toString (Int.ofNat m) = toString m := rfl
    have positive : ¬ Int.ofNat m < 0 := Int.not_lt.mpr (Int.natCast_nonneg m)
    rw [spelled, if_neg positive]
    simp [Nat.toList_repr]
  | negSucc m =>
    have spelled : toString (Int.negSucc m) = "-" ++ toString (m + 1) := rfl
    rw [spelled, if_pos (Int.negSucc_lt_zero m)]
    simp [Nat.toList_repr]

theorem toDigits_startsNumber (n : Nat) : StartsNumber (Nat.toDigits 10 n) := by
  obtain ⟨c, rest, digits⟩ := List.exists_cons_of_ne_nil (Nat.toDigits_ne_nil (n := n) (b := 10))
  have digit := Nat.isDigit_of_mem_toDigits (n := n) (c := c) (b := 10) (by decide) (by decide) (by simp [digits])
  exact ⟨c, by rw [digits]; rfl, .inr digit⟩

theorem int_startsNumber (n : Int) : StartsNumber (toString n).toList := by
  rw [toList_int]
  split
  · exact ⟨'-', rfl, .inl rfl⟩
  · exact toDigits_startsNumber _

theorem int_parts (n : Int) : ∀ c ∈ (toString n).toList, c ∉ delimiters := by
  have digits : ∀ c ∈ delimiters, c ≠ '-' ∧ c.isDigit = false := List.all_iff_forall_prop.mp (by decide)
  intro c member delimits
  obtain ⟨other, noDigit⟩ := digits c delimits
  rw [toList_int] at member
  rcases List.mem_append.mp member with minus | digit
  · split at minus
    · exact other (List.mem_singleton.mp minus)
    · cases minus
  · rw [Nat.isDigit_of_mem_toDigits (by decide) (by decide) digit] at noDigit
    cases noDigit

theorem toDigits_inj {m n : Nat} (equal : Nat.toDigits 10 m = Nat.toDigits 10 n) : m = n := by
  rw [← Nat.ofDigitChars_ten_toDigits (n := m), equal, Nat.ofDigitChars_ten_toDigits]

theorem minus_ne_digits (m n : Nat) : '-' :: Nat.toDigits 10 m ≠ Nat.toDigits 10 n := by
  intro equal
  have digit := Nat.isDigit_of_mem_toDigits (n := n) (c := '-') (b := 10) (by decide) (by decide) (by simp [← equal])
  cases digit

theorem toString_int_inj {m n : Int} (equal : toString m = toString n) : m = n := by
  have spelled := congrArg String.toList equal
  rw [toList_int, toList_int] at spelled
  split at spelled
  · split at spelled
    · have size := toDigits_inj (List.cons.inj spelled).2
      omega
    · exact absurd spelled (minus_ne_digits _ _)
  · split at spelled
    · exact absurd spelled.symm (minus_ne_digits _ _)
    · have size := toDigits_inj spelled
      omega

-- What is seen of a word in its text.
theorem Word.number_iff (distinguishes : Distinguishes names known) (word : Word known type) :
    StartsNumber (chars names type) ↔ ∃ n, type = literal (.int n) := by
  cases word with
  | keyword listed =>
    refine iff_of_false (keyword_isWord _ (keyword_mem listed)).start ?_
    rintro ⟨n, rfl⟩
    simp [keywordTypes, string, TypeExpr.number, boolean, unknown, never, void, null, flag] at listed
  | number n => exact iff_of_true (int_startsNumber n) ⟨n, rfl⟩
  | name declared =>
    refine iff_of_false (distinguishes.word _ declared).start ?_
    rintro ⟨n, equal⟩
    cases equal

theorem Word.keyword_iff (distinguishes : Distinguishes names known) (word : Word known type) :
    type.render names ∈ keywords ↔ type ∈ keywordTypes := by
  refine ⟨?_, keyword_mem⟩
  intro text
  cases word with
  | keyword listed => exact listed
  | number n => exact absurd (int_startsNumber n) (keyword_isWord _ text).start
  | name declared => exact absurd text (distinguishes.free _ declared)

theorem Word.token (distinguishes : Distinguishes names known) (word : Word known type) :
    chars names type ≠ [] ∧ ∀ c ∈ chars names type, c ∉ delimiters := by
  cases word with
  | keyword listed =>
    have word : IsWord (chars names type) := keyword_isWord _ (keyword_mem listed)
    exact ⟨word.some, word.parts⟩
  | number n =>
    obtain ⟨c, first, _⟩ := int_startsNumber n
    refine ⟨?_, int_parts n⟩
    intro empty
    have nothing : (toString n).toList = [] := empty
    rw [nothing] at first
    cases first
  | name declared =>
    have word := distinguishes.word _ declared
    exact ⟨word.some, word.parts⟩

-- No two words have the same text.
theorem Word.eq_of_chars (distinguishes : Distinguishes names known) (first : Word known type)
    (second : Word known other) (equal : chars names type = chars names other) : type = other := by
  have texts : type.render names = other.render names := String.toList_inj.mp equal
  by_cases numeric : StartsNumber (chars names type)
  · obtain ⟨m, rfl⟩ := (first.number_iff distinguishes).mp numeric
    obtain ⟨n, rfl⟩ := (second.number_iff distinguishes).mp (equal ▸ numeric)
    rw [toString_int_inj texts]
  · by_cases reserved : type.render names ∈ keywords
    · have here := (first.keyword_iff distinguishes).mp reserved
      have there := (second.keyword_iff distinguishes).mp (texts ▸ reserved)
      exact keyword_apart here there texts
    · cases first with
      | keyword listed => exact absurd (keyword_mem listed) reserved
      | number n => exact absurd (int_startsNumber n) numeric
      | name here =>
        rw [equal] at numeric
        rw [texts] at reserved
        cases second with
        | keyword listed => exact absurd (keyword_mem listed) reserved
        | number n => exact absurd (int_startsNumber n) numeric
        | name there => rw [distinguishes.apart _ _ here there texts]

end Words

section Openings

variable {names : Names} {known : String → Prop} {type other : TypeExpr}

-- The bracket or quote that opens the text of an operand. A word has none, and a list has that of its items.
def openingMark : TypeExpr → Option Char
  | literal (.string _) => some '"'
  | union _ => some '('
  | intersection _ => some '('
  | record _ => some '\x7b'
  | tuple _ _ => some '['
  | _ => none

theorem Legible.word (legible : Legible known type) (closed : type.openingMark = none)
    (single : ∀ items, type ≠ array items) : Word known type := by
  have plain := legible.plain
  cases type with
  | primitive p =>
    cases p with
    | binary => exact absurd rfl plain
    | _ => exact .keyword (by simp [keywordTypes, string, number, boolean, unknown, never, void])
  | literal l =>
    cases l with
    | string s => cases closed
    | int n => exact .number n
    | number x => exact absurd rfl (plain x)
    | bool b => cases b <;> exact .keyword (by simp [keywordTypes, flag])
    | null => exact .keyword (by simp [keywordTypes, null])
  | reference name => exact .name plain
  | union members => cases closed
  | intersection members => cases closed
  | record members => cases closed
  | array items => exact absurd rfl (single items)
  | tuple places rest => cases closed

theorem closed_of_unmarked (unmarked : type.openingMark = none) : type.grouping = .closed := by
  cases type with
  | union members => cases unmarked
  | intersection members => cases unmarked
  | _ => rfl

theorem grouped_closed (closed : type.grouping = .closed) : grouped names type = chars names type := if_pos closed

theorem grouped_open (closed : type.grouping ≠ .closed) :
    grouped names type = '(' :: (chars names type ++ [')']) := if_neg closed

theorem chars_text (s : String) : chars names (literal (.string s)) = (Identifier.quote s).toList := rfl

-- The first character tells whether a bracket or quote opens the text, and which.
theorem grouped_start (distinguishes : Distinguishes names known) (legible : Legible known type)
    (single : ∀ items, type ≠ array items) :
    ∃ c rest, grouped names type = c :: rest ∧ type.openingMark = if c ∈ delimiters then some c else none := by
  by_cases closed : type.openingMark = none
  · have word := legible.word closed single
    obtain ⟨some, parts⟩ := word.token distinguishes
    obtain ⟨c, rest, text⟩ := List.exists_cons_of_ne_nil some
    refine ⟨c, rest, (grouped_closed (closed_of_unmarked closed)).trans text, ?_⟩
    rw [closed, if_neg (parts c (by simp [text]))]
  · cases type with
    | union members => exact ⟨'(', _, rfl, rfl⟩
    | intersection members => exact ⟨'(', _, rfl, rfl⟩
    | literal l =>
      cases l with
      | string s => exact ⟨'"', _, (chars_text s).trans (Identifier.toList_quote s), rfl⟩
      | _ => exact absurd rfl closed
    | record members =>
      by_cases some : members = []
      · subst some
        exact ⟨'\x7b', _, chars_record_nil names, rfl⟩
      · exact ⟨'\x7b', _, chars_record names some, rfl⟩
    | tuple places rest => exact ⟨'[', _, chars_tuple names places rest, rfl⟩
    | _ => exact absurd rfl closed

-- No text of a type starts like the end of a tuple or like the rest of one.
def Opens : List Char → Prop := StartsWith fun c => c ≠ ']' ∧ c ≠ '.'

theorem Opens.grouped (opens : Opens (chars names type)) : Opens (grouped names type) := by
  by_cases closed : type.grouping = .closed
  · rwa [grouped_closed closed]
  · rw [grouped_open closed]
    exact ⟨'(', _, rfl, by decide⟩

theorem openingMark_opens {c : Char} (mark : type.openingMark = some c) : c ≠ ']' ∧ c ≠ '.' := by
  unfold openingMark at mark
  split at mark <;> cases mark <;> decide

theorem opens_closed (distinguishes : Distinguishes names known) (legible : Legible known type)
    (single : ∀ items, type ≠ array items) (closed : type.grouping = .closed) : Opens (chars names type) := by
  obtain ⟨c, rest, text, mark⟩ := grouped_start distinguishes legible single
  rw [grouped_closed closed] at text
  refine ⟨c, rest, text, ?_⟩
  by_cases delimits : c ∈ delimiters
  · rw [if_pos delimits] at mark
    exact openingMark_opens mark
  · refine ⟨?_, ?_⟩
    · rintro rfl
      exact delimits (by decide)
    · rintro rfl
      exact delimits (by decide)

theorem several_ne_nil {types : List TypeExpr} (several : 2 ≤ types.length) : types ≠ [] := by
  rintro rfl
  simp at several

theorem opens_chars (distinguishes : Distinguishes names known) (legible : Legible known type) :
    Opens (chars names type) := by
  induction type using parts_induction with
  | step type ih =>
    have inside : ∀ part ∈ type.parts, Opens (chars names part) :=
      fun part member => ih part member (legible.inside part member)
    have plain := legible.plain
    cases type with
    | union members =>
      rw [chars_union]
      exact startsWith_intercalate _ (several_ne_nil plain.1) inside
    | intersection members =>
      rw [chars_intersection names plain.2]
      refine startsWith_intercalate _ (several_ne_nil plain.1) ?_
      exact fun member listed => (inside member listed).grouped
    | array items =>
      rw [chars_array]
      exact (inside items List.mem_cons_self).grouped.append _
    | primitive p => exact opens_closed distinguishes legible (by simp) rfl
    | literal l => exact opens_closed distinguishes legible (by simp) rfl
    | reference name => exact opens_closed distinguishes legible (by simp) rfl
    | record members => exact opens_closed distinguishes legible (by simp) rfl
    | tuple places rest => exact opens_closed distinguishes legible (by simp) rfl

end Openings

end ApiContract.TypeExpr
