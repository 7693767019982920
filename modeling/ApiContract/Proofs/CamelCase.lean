import ApiContract.Proofs.SanitizedNames

namespace ApiContract.Identifier

-- Names in camel case have the ASCII letters and digits of a text in their order, and only the case of the
-- first letter of each word is changed. So a name begins with the first letter or digit of the text, and it
-- is a reserved word only where the text has a single word.

def isWordChar (c : Char) : Bool := isLetter c || isDigit c

section Cases

variable {c : Char}

theorem isPart_word (word : isWordChar c = true) : isPart c = true := by
  unfold isPart
  rw [show (isLetter c || isDigit c) = true from word]
  rfl

-- There are few such characters, so what holds of each ASCII character can be computed.
theorem word_of_ascii {P : Char → Bool} (all : (List.range 128).all (fun code => P (.ofNat code)) = true)
    (word : isWordChar c = true) : P c = true := by
  have small : c.toNat < 128 := by
    have code := isPart_iff.mp (isPart_word word)
    unfold PartCode at code
    omega
  have holds := List.all_eq_true.mp all c.toNat (List.mem_range.mpr small)
  rwa [Char.ofNat_toNat] at holds

theorem isWordChar_toUpper (word : isWordChar c = true) : isWordChar c.toUpper = true := by
  have kept := word_of_ascii (P := fun c => !isWordChar c || isWordChar c.toUpper) (by decide +kernel) word
  simpa [word] using kept

theorem isWordChar_toLower (word : isWordChar c = true) : isWordChar c.toLower = true := by
  have kept := word_of_ascii (P := fun c => !isWordChar c || isWordChar c.toLower) (by decide +kernel) word
  simpa [word] using kept

theorem isDigit_toLower (word : isWordChar c = true) : isDigit c.toLower = isDigit c :=
  eq_of_beq (word_of_ascii (P := fun c => isDigit c.toLower == isDigit c) (by decide +kernel) word)

theorem isLower_toUpper (word : isWordChar c = true) : c.toUpper.isLower = false := by
  have kept := word_of_ascii (P := fun c => !c.toUpper.isLower) (by decide +kernel) word
  rwa [Bool.not_eq_true'] at kept

theorem isDigit_start (start : isStart c = true) : isDigit c = false := by
  rw [Bool.eq_false_iff]
  intro digit
  have word : isWordChar c = true := by simp [isWordChar, digit]
  have apart := word_of_ascii (P := fun c => !(isStart c && isDigit c)) (by decide +kernel) word
  simp [start, digit] at apart

end Cases

section Words

variable {text : List Char}

theorem splitWhere_flatten (cut : Char → Bool) (text : List Char) :
    (Text.splitWhere cut text).flatten = text.filter fun c => !cut c := by
  induction text with
  | nil => rfl
  | cons c rest ih =>
    obtain ⟨word, words, split⟩ := List.exists_cons_of_ne_nil (Text.splitWhere_ne_nil cut rest)
    rw [split] at ih
    rw [Text.splitWhere, split]
    by_cases separated : cut c = true
    · simpa [separated] using ih
    · simpa [separated] using ih

theorem asciiWords_flatten (text : List Char) : (asciiWords text).flatten = text.filter isWordChar := by
  unfold asciiWords
  rw [List.flatten_filter_not_isEmpty, splitWhere_flatten]
  simp only [Bool.not_not]
  rfl

theorem asciiWords_ne_nil {word : List Char} (member : word ∈ asciiWords text) : word ≠ [] := by
  have filled := (List.mem_filter.mp member).2
  rintro rfl
  cases filled

theorem asciiWords_chars {word : List Char} (member : word ∈ asciiWords text) :
    ∀ c ∈ word, isWordChar c = true := by
  intro c inside
  have kept := List.mem_flatten_of_mem member inside
  rw [asciiWords_flatten] at kept
  exact (List.mem_filter.mp kept).2

theorem upperFirst_chars {word : List Char} (all : ∀ c ∈ word, isWordChar c = true) :
    ∀ c ∈ upperFirst word, isWordChar c = true := by
  cases word with
  | nil => exact all
  | cons c rest =>
    obtain ⟨first, later⟩ := List.forall_mem_cons.mp all
    exact List.forall_mem_cons.mpr ⟨isWordChar_toUpper first, later⟩

theorem lowerFirst_chars {word : List Char} (all : ∀ c ∈ word, isWordChar c = true) :
    ∀ c ∈ lowerFirst word, isWordChar c = true := by
  cases word with
  | nil => exact all
  | cons c rest =>
    obtain ⟨first, later⟩ := List.forall_mem_cons.mp all
    exact List.forall_mem_cons.mpr ⟨isWordChar_toLower first, later⟩

theorem camelChars_chars (text : List Char) : ∀ c ∈ camelChars text, isWordChar c = true := by
  unfold camelChars
  split
  · exact List.forall_mem_nil _
  · rename_i first words cut
    have each : ∀ word ∈ first :: words, ∀ c ∈ word, isWordChar c = true :=
      fun word member => asciiWords_chars (cut ▸ member)
    obtain ⟨inFirst, inOthers⟩ := List.forall_mem_cons.mp each
    refine List.forall_mem_append.mpr ⟨lowerFirst_chars inFirst, List.forall_mem_flatMap.mpr ?_⟩
    exact fun word member => upperFirst_chars (inOthers word member)

theorem camelChars_head? (text : List Char) :
    (camelChars text).head? = (text.find? isWordChar).map Char.toLower := by
  rw [← List.head?_filter, ← asciiWords_flatten]
  unfold camelChars
  cases cut : asciiWords text with
  | nil => rfl
  | cons first words =>
    have filled : first ≠ [] := asciiWords_ne_nil (cut ▸ List.mem_cons_self)
    obtain ⟨c, rest, rfl⟩ := List.exists_cons_of_ne_nil filled
    rfl

end Words

section Reserved

theorem reserved_lower : ∀ word ∈ reservedWords, word.toList.all Char.isLower = true := by decide +kernel

-- A second word brings a capital or a digit, and no reserved word has one.
theorem camelCase_reserved (text : String) : camelCase text ∈ reservedWords ↔
    ∃ word, asciiWords text.toList = [word] ∧ String.ofList (lowerFirst word) ∈ reservedWords := by
  unfold camelCase camelChars
  constructor
  · intro reserved
    split at reserved
    · exact absurd reserved (by decide +kernel)
    · rename_i first words cut
      cases words with
      | nil => exact ⟨first, cut, by simpa using reserved⟩
      | cons second others =>
        have member : second ∈ asciiWords text.toList := cut ▸ List.mem_cons_of_mem first List.mem_cons_self
        obtain ⟨c, rest, rfl⟩ := List.exists_cons_of_ne_nil (asciiWords_ne_nil member)
        have lower := List.all_eq_true.mp (reserved_lower _ reserved) c.toUpper (by simp [upperFirst])
        rw [isLower_toUpper (asciiWords_chars member c List.mem_cons_self)] at lower
        cases lower
  · rintro ⟨word, cut, reserved⟩
    rw [cut]
    simpa using reserved

end Reserved

-- A name of letters and digits is an identifier unless a digit begins it or it is a reserved word.
theorem isIdentifier_words {name : String} (filled : name.toList ≠ [])
    (all : ∀ c ∈ name.toList, isWordChar c = true) :
    IsIdentifier name ↔ (∀ c ∈ name.toList.head?, isDigit c = false) ∧ name ∉ reservedWords := by
  obtain ⟨first, rest, chars⟩ := List.exists_cons_of_ne_nil filled
  constructor
  · intro identifier
    obtain ⟨c, here, start⟩ := identifier.start
    refine ⟨fun d same => ?_, identifier.free⟩
    cases Option.mem_unique here same
    exact isDigit_start start
  · rintro ⟨other, free⟩
    have here : first ∈ name.toList.head? := by rw [chars]; rfl
    have started : Started name := ⟨⟨first, here, other first here⟩, free⟩
    exact started.isIdentifier_iff.mpr fun c member => isPart_word (all c member)

end ApiContract.Identifier
