import ApiContract.Proofs.CallArguments

namespace ApiContract.Identifier

-- Which names of a document become identifiers. Of a name that has other characters than letters, digits,
-- underscores and dollars, all but the separators are kept.

structure IsIdentifier (name : String) : Prop where
  start : ∃ c ∈ name.toList.head?, isStart c = true
  parts : ∀ c ∈ name.toList, isPart c = true
  free : name ∉ reservedWords

-- What holds of every name that is made: it is not empty, has no digit in front and is no reserved word.
structure Started (name : String) : Prop where
  head : ∃ c ∈ name.toList.head?, isDigit c = false
  free : name ∉ reservedWords

section Endings

theorem Started.isIdentifier_iff {name : String} (started : Started name) :
    IsIdentifier name ↔ ∀ c ∈ name.toList, isPart c = true := by
  constructor
  · exact IsIdentifier.parts
  · intro parts
    obtain ⟨c, first, other⟩ := started.head
    have part := parts c (List.mem_of_mem_head? first)
    refine ⟨⟨c, first, ?_⟩, parts, started.free⟩
    unfold isPart at part
    unfold isStart
    simpa [other] using part

theorem reserved_head : ∀ word ∈ reservedWords, word.toList.head? ≠ some '_' := by decide +kernel

theorem reserved_last : ∀ word ∈ reservedWords, word.toList.getLast?.any Char.isDigit = false := by decide +kernel

theorem underscore_free (word : String) : "_" ++ word ∉ reservedWords := by
  intro reserved
  apply reserved_head _ reserved
  simp

theorem finish_started (name : List Char) : Started (finish name) := by
  cases name with
  | nil => exact ⟨⟨'_', rfl, rfl⟩, by decide +kernel⟩
  | cons c rest =>
    have head : ∃ d ∈ (if isDigit c then '_' :: c :: rest else c :: rest).head?, isDigit d = false := by
      split
      · exact ⟨'_', rfl, rfl⟩
      · rename_i other
        exact ⟨c, rfl, Bool.not_eq_true _ ▸ other⟩
    unfold finish
    simp only []
    generalize (if isDigit c then '_' :: c :: rest else c :: rest) = started at head
    split
    · exact ⟨⟨'_', by simp, rfl⟩, underscore_free _⟩
    · rename_i free
      refine ⟨by simpa using head, ?_⟩
      simpa [isReserved] using free

-- Only underscores are added, and letters to the empty name.
theorem finish_chars {P : Char → Prop} (underscore : P '_') (letters : ∀ c, isLetter c = true → P c)
    (name : List Char) : (∀ c ∈ (finish name).toList, P c) ↔ ∀ c ∈ name, P c := by
  cases name with
  | nil =>
    have empty : ∀ c ∈ "empty".toList, isLetter c = true := List.all_eq_true.mp (by decide)
    refine iff_of_true ?_ (List.forall_mem_nil _)
    exact List.forall_mem_cons.mpr ⟨underscore, fun c member => letters c (empty c member)⟩
  | cons c rest =>
    unfold finish
    simp only []
    split <;> split <;> simp [underscore]

theorem isIdentifier_finish (name : List Char) : IsIdentifier (finish name) ↔ ∀ c ∈ name, isPart c = true := by
  rw [(finish_started name).isIdentifier_iff]
  exact finish_chars (P := fun c => isPart c = true) rfl (fun c letter => by simp [isPart, letter]) name

theorem numbered_started {base : String} (started : Started base) (n : Nat) : Started (numbered base n) := by
  obtain ⟨c, first, other⟩ := started.head
  refine ⟨⟨c, ?_, other⟩, ?_⟩
  · rw [toList_numbered, List.head?_append, first]
    rfl
  · intro reserved
    obtain ⟨d, last, digit⟩ := numbered_last base n
    have other := reserved_last _ reserved
    rw [last, Option.any_some, digit] at other
    cases other

theorem fresh_chars {P : Char → Prop} (digits : ∀ c, isDigit c = true → P c) (base : String)
    (taken : List String) : (∀ c ∈ (fresh base taken).toList, P c) ↔ ∀ c ∈ base.toList, P c := by
  rcases fresh_cases base taken with own | ⟨n, later⟩
  · rw [own]
  · have number : ∀ c ∈ Nat.toDigits 10 n, P c :=
      fun c member => digits c (Nat.isDigit_of_mem_toDigits (by decide) (by decide) member)
    rw [later, toList_numbered, List.forall_mem_append]
    exact and_iff_left number

theorem fresh_started {base : String} (started : Started base) (taken : List String) :
    Started (fresh base taken) := by
  rcases fresh_cases base taken with own | ⟨n, later⟩
  · rwa [own]
  · rw [later]
    exact numbered_started started n

-- A number at the end makes an identifier neither better nor worse.
theorem isIdentifier_fresh {base : String} (started : Started base) (taken : List String) :
    IsIdentifier (fresh base taken) ↔ IsIdentifier base := by
  rw [(fresh_started started taken).isIdentifier_iff, started.isIdentifier_iff]
  exact fresh_chars (P := fun c => isPart c = true) (fun c digit => by simp [isPart, digit]) base taken

end Endings

def isSeparator (c : Char) : Bool := c == '-' || c == '.' || c == ' '

-- The words of a text in one; `behind` says whether a separator stands before it.
def joined (behind : Bool) : List Char → List Char
  | [] => []
  | c :: rest =>
    if isSeparator c then joined true rest else (if behind then Text.upper c else [c]) ++ joined false rest

-- The codes outside of ASCII whose capitals are ASCII letters: those of a sharp s, an i without dot, a long s
-- and seven ligatures.
def plainCapitals : List Nat := [0xDF, 0x131, 0x17F, 0xFB00, 0xFB01, 0xFB02, 0xFB03, 0xFB04, 0xFB05, 0xFB06]

section Capitals

def PartCode (code : Nat) : Prop :=
  97 ≤ code ∧ code ≤ 122 ∨ 65 ≤ code ∧ code ≤ 90 ∨ 48 ≤ code ∧ code ≤ 57 ∨ code = 95 ∨ code = 36

theorem isPart_iff {c : Char} : isPart c = true ↔ PartCode c.toNat := by
  have underscore : c = '_' ↔ c.toNat = 95 := Char.toNat_inj.symm
  have dollar : c = '$' ↔ c.toNat = 36 := Char.toNat_inj.symm
  have bounds (a b : Char) : (a ≤ c ∧ c ≤ b) ↔ a.toNat ≤ c.toNat ∧ c.toNat ≤ b.toNat := Iff.rfl
  simp [isPart, isLetter, isDigit, PartCode, underscore, dollar, bounds, or_assoc]

theorem isPart_ofNat {code : Nat} : isPart (Char.ofNat code) = true ↔ PartCode code := by
  by_cases valid : code.isValidChar
  · rw [Char.ofNat, dif_pos valid]
    exact isPart_iff
  · rw [Char.ofNat, dif_neg valid]
    unfold Nat.isValidChar at valid
    refine iff_of_false (by decide) ?_
    unfold PartCode
    omega

theorem expansion_parts : ∀ entry ∈ Text.upperExpansions, 128 ≤ entry.1 ∧
    ((entry.2.map Char.ofNat).all isPart = true ↔ entry.1 ∈ plainCapitals) := by
  decide +kernel

theorem plainCapitals_expanded : ∀ code ∈ plainCapitals,
    code = 0x131 ∨ code = 0x17F ∨ Text.upperExpansions.lookup code ≠ none := by
  decide +kernel

-- Only the small letters and two others are carried into ASCII.
theorem upperRanges_cases : ∀ range ∈ Text.upperRanges,
    (range.first = 0x61 ∧ range.last = 0x7A ∧ range.shift = -32) ∨
    (range.first = 0x131 ∧ range.last = 0x131 ∧ range.shift = -232) ∨
    (range.first = 0x17F ∧ range.last = 0x17F ∧ range.shift = -300) ∨
    128 ≤ range.first ∧ 128 ≤ range.first + range.shift ∧ (range.last < 0x131 ∨ 0x131 < range.first) ∧
      (range.last < 0x17F ∨ 0x17F < range.first) := by
  decide +kernel

theorem image_parts {range : Text.ShiftRange} {code image : Nat} (listed : range ∈ Text.upperRanges)
    (found : range.image code = some image) : PartCode image ↔ PartCode code ∨ code = 0x131 ∨ code = 0x17F := by
  unfold Text.ShiftRange.image at found
  split at found
  · rename_i inside
    simp only [Bool.and_eq_true, decide_eq_true_eq] at inside
    cases found
    unfold PartCode
    rcases upperRanges_cases range listed with ⟨first, last, shift⟩ | ⟨first, last, shift⟩ |
      ⟨first, last, shift⟩ | ⟨first, shift, _, _⟩
    · omega
    · omega
    · omega
    · omega
  · cases found

theorem plainCapital_ranged {code : Nat} (ranged : code = 0x131 ∨ code = 0x17F) :
    code ∈ plainCapitals ∧ Text.upperRanges.findSome? (fun range => range.image code) ≠ none := by
  rcases ranged with rfl | rfl
  · decide +kernel
  · decide +kernel

-- Capitals are identifier characters if the letter is one, and in ten cases more.
theorem upper_parts (c : Char) :
    (∀ d ∈ Text.upper c, isPart d = true) ↔ isPart c = true ∨ c.toNat ∈ plainCapitals := by
  rw [isPart_iff]
  unfold Text.upper
  split
  · rename_i codes found
    obtain ⟨large, parts⟩ := expansion_parts _ (lookup_mem found)
    rw [← List.all_eq_true, parts, or_iff_right]
    unfold PartCode
    omega
  · rename_i none
    rw [List.forall_mem_singleton, isPart_ofNat]
    have kept : c.toNat ∈ plainCapitals ↔ c.toNat = 0x131 ∨ c.toNat = 0x17F := by
      constructor
      · intro plain
        rcases plainCapitals_expanded _ plain with dotless | long | expanded
        · exact .inl dotless
        · exact .inr long
        · exact absurd none expanded
      · exact fun ranged => (plainCapital_ranged ranged).1
    cases carried : Text.upperRanges.findSome? (fun range => range.image c.toNat) with
    | some image =>
      obtain ⟨range, listed, found⟩ := List.exists_of_findSome?_eq_some carried
      rw [kept]
      exact image_parts listed found
    | none =>
      refine (or_iff_left ?_).symm
      intro plain
      exact (plainCapital_ranged (kept.mp plain)).2 carried

end Capitals

section Words

def capitalWord (word : List Char) : List Char := (Text.capitalize (String.ofList word)).toList

theorem capitalWord_cons (c : Char) (rest : List Char) : capitalWord (c :: rest) = Text.upper c ++ rest := by
  simp [capitalWord, Text.capitalize]

theorem joined_words {behind : Bool} {text first : List Char} {words : List (List Char)}
    (split : Text.splitWhere isSeparator text = first :: words) :
    joined behind text = (if behind then capitalWord first else first) ++ words.flatMap capitalWord := by
  induction text generalizing behind first words with
  | nil =>
    cases split
    cases behind <;> rfl
  | cons c rest ih =>
    obtain ⟨word, others, later⟩ := List.exists_cons_of_ne_nil (Text.splitWhere_ne_nil isSeparator rest)
    rw [Text.splitWhere, later] at split
    rw [joined]
    by_cases separated : isSeparator c = true
    · rw [if_pos separated] at split ⊢
      cases split
      rw [ih later]
      cases behind <;> rfl
    · rw [if_neg separated] at split ⊢
      cases split
      rw [ih later]
      cases behind <;> simp [capitalWord_cons]

theorem ofName_eq (name : String) : ofName name = finish (joined false name.toList) := by
  obtain ⟨first, words, split⟩ := List.exists_cons_of_ne_nil (Text.splitWhere_ne_nil isSeparator name.toList)
  have cut : ofName name = finish (first ++ words.flatMap capitalWord) := by
    have same : Text.splitWhere (fun c => c == '-' || c == '.' || c == ' ') name.toList = first :: words := split
    unfold ofName
    rw [same]
    rfl
  rw [cut, joined_words split]
  rfl

-- Cutting a text at each of its characters: at the first one, or behind it.
theorem forall_cut_cons {P : List Char → Char → Prop} {d : Char} {text : List Char} :
    (∀ before c after, d :: text = before ++ c :: after → P before c) ↔
      P [] d ∧ ∀ before c after, text = before ++ c :: after → P (d :: before) c := by
  constructor
  · intro all
    refine ⟨all [] d text rfl, ?_⟩
    rintro before c after rfl
    exact all (d :: before) c after rfl
  · rintro ⟨first, later⟩ before c after equal
    cases before with
    | nil =>
      cases equal
      exact first
    | cons e before =>
      cases equal
      exact later before c after rfl

theorem joined_parts (behind : Bool) (text : List Char) :
    (∀ c ∈ joined behind text, isPart c = true) ↔ ∀ before c after, text = before ++ c :: after →
      isSeparator c = true ∨ isPart c = true ∨
        c.toNat ∈ plainCapitals ∧ (before.getLast?.map isSeparator).getD behind = true := by
  induction text generalizing behind with
  | nil => simp [joined]
  | cons d text ih =>
    have last (before : List Char) : ((d :: before).getLast?.map isSeparator).getD behind =
        (before.getLast?.map isSeparator).getD (isSeparator d) := by
      rw [List.getLast?_cons]
      cases before.getLast? <;> rfl
    rw [forall_cut_cons, joined]
    simp only [last]
    by_cases separated : isSeparator d = true
    · rw [if_pos separated, ih, separated]
      exact (and_iff_right (.inl rfl)).symm
    · have kept : (∀ c ∈ (if behind then Text.upper d else [d]), isPart c = true) ↔
          isPart d = true ∨ d.toNat ∈ plainCapitals ∧ behind = true := by
        cases behind
        · simp
        · simpa using upper_parts d
      rw [if_neg separated, List.forall_mem_append, kept, ih, eq_false_of_ne_true separated]
      simp

end Words

-- Every character is a separator or an identifier character, or becomes one as a capital behind a separator.
def Spellable (name : List Char) : Prop :=
  ∀ before c after, name = before ++ c :: after → isSeparator c = true ∨ isPart c = true ∨
    c.toNat ∈ plainCapitals ∧ ∃ d ∈ before.getLast?, isSeparator d = true

theorem isIdentifier_ofName (name : String) : IsIdentifier (ofName name) ↔ Spellable name.toList := by
  have before (o : Option Char) :
      (o.map isSeparator).getD false = true ↔ ∃ d ∈ o, isSeparator d = true := by
    cases o <;> simp
  rw [ofName_eq, isIdentifier_finish, joined_parts]
  simp only [before]
  rfl

-- No name becomes empty or a reserved word, and none starts with a digit. It becomes an identifier just if
-- it can be spelled as one, numbered or not.
theorem names_become_identifiers (name : String) (taken : List String) :
    (Started (ofName name) ∧ (IsIdentifier (ofName name) ↔ Spellable name.toList)) ∧
    Started (fresh (ofName name) taken) ∧
      (IsIdentifier (fresh (ofName name) taken) ↔ Spellable name.toList) := by
  have started : Started (ofName name) := by
    rw [ofName_eq]
    exact finish_started _
  refine ⟨⟨started, isIdentifier_ofName name⟩, fresh_started started taken, ?_⟩
  rw [isIdentifier_fresh started, isIdentifier_ofName]

-- A bracket stays in the name, with a number or without.
theorem bracket_stays : ofName "filter[name]" = "filter[name]" ∧ ¬ IsIdentifier (ofName "filter[name]") ∧
    ¬ IsIdentifier (fresh (ofName "filter[name]") ["filter[name]"]) := by
  have bracket : ¬ Spellable "filter[name]".toList := by
    intro spellable
    have kept := spellable "filter".toList '[' "name]".toList (by decide)
    rcases kept with separator | part | ⟨capital, _⟩
    · cases separator
    · cases part
    · exact absurd capital (by decide)
  have made := names_become_identifiers "filter[name]" ["filter[name]"]
  exact ⟨by decide +kernel, mt made.1.2.mp bracket, mt made.2.2.mp bracket⟩

end ApiContract.Identifier
