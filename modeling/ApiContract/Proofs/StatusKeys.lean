import ApiContract.Status

namespace ApiContract.Status

-- Which texts are read as a status, and which of them the status is written as again.

-- A number in decimal, after at most one plus sign and any zeros.
def Spells (text : List Char) (n : Nat) : Prop :=
  ∃ sign zeros, (sign = [] ∨ sign = ['+']) ∧ text = sign ++ (List.replicate zeros '0' ++ Nat.toDigits 10 n)

-- The text starts with a sign or with a zero.
def Padded (text : List Char) : Prop := text.head? = some '+' ∨ text.head? = some '0'

section Numbers

theorem isDigit_eq (c : Char) : isDigit c = c.isDigit := rfl

theorem isDigit_bounds {c : Char} (digit : isDigit c = true) : 48 ≤ c.toNat ∧ c.toNat ≤ 57 := by
  rw [isDigit_eq] at digit
  exact Char.isDigit_iff_toNat.mp digit

theorem digitChar_toNat {c : Char} (digit : isDigit c = true) : Nat.digitChar (c.toNat - 48) = c := by
  have bounds := isDigit_bounds digit
  apply Char.toNat_inj.mp
  rw [Nat.toNat_digitChar_of_lt_ten (by omega)]
  omega

theorem toDigits_single {c : Char} (digit : isDigit c = true) : Nat.toDigits 10 (c.toNat - 48) = [c] := by
  have bounds := isDigit_bounds digit
  rw [Nat.toDigits_of_lt_base (by omega), digitChar_toNat digit]

theorem digitsValue_eq (digits : List Char) : digitsValue digits = Nat.ofDigitChars 10 digits 0 := by
  unfold digitsValue Nat.ofDigitChars
  simp only [Nat.mul_comm]
  rfl

-- Digits after a positive number continue its decimal notation.
theorem toDigits_append {digits : List Char} (all : ∀ c ∈ digits, isDigit c = true) {n : Nat} (positive : 0 < n) :
    Nat.toDigits 10 n ++ digits = Nat.toDigits 10 (Nat.ofDigitChars 10 digits n) := by
  induction digits generalizing n with
  | nil => exact List.append_nil _
  | cons c rest ih =>
    obtain ⟨digit, later⟩ := List.forall_mem_cons.mp all
    have bounds := isDigit_bounds digit
    have next : Nat.toDigits 10 n ++ [c] = Nat.toDigits 10 (10 * n + (c.toNat - 48)) := by
      have single : Nat.toDigits 10 (c.toNat - 48) = [c] := toDigits_single digit
      rw [← single]
      apply Nat.toDigits_append_toDigits (by decide) positive
      omega
    rw [Nat.ofDigitChars_cons, List.append_cons, next]
    exact ih later (by omega)

-- What is left of a text of digits without its first zeros is the notation of its value.
theorem digits_eq {digits : List Char} (some : digits ≠ []) (all : ∀ c ∈ digits, isDigit c = true) :
    ∃ zeros, digits = List.replicate zeros '0' ++ Nat.toDigits 10 (Nat.ofDigitChars 10 digits 0) := by
  induction digits with
  | nil => exact absurd rfl some
  | cons c rest ih =>
    obtain ⟨digit, later⟩ := List.forall_mem_cons.mp all
    have bounds := isDigit_bounds digit
    have value : Nat.ofDigitChars 10 (c :: rest) 0 = Nat.ofDigitChars 10 rest (c.toNat - 48) := by
      rw [Nat.ofDigitChars_cons, Nat.mul_zero, Nat.zero_add]
      rfl
    rw [value]
    by_cases zero : c = '0'
    · subst zero
      by_cases last : rest = []
      · exact ⟨0, by rw [last]; rfl⟩
      · obtain ⟨zeros, equal⟩ := ih last later
        exact ⟨zeros + 1, congrArg ('0' :: ·) equal⟩
    · have positive : 0 < c.toNat - 48 := by
        have differ : c.toNat ≠ 48 := fun equal => zero (Char.toNat_inj.mp equal)
        omega
      refine ⟨0, ?_⟩
      rw [← toDigits_append later positive, toDigits_single digit]
      rfl

theorem isDigit_toDigits {n : Nat} : ∀ c ∈ Nat.toDigits 10 n, isDigit c = true :=
  fun _ member => Nat.isDigit_of_mem_toDigits (by decide) (by decide) member

theorem ofDigitChars_zeros (zeros n : Nat) :
    Nat.ofDigitChars 10 (List.replicate zeros '0' ++ Nat.toDigits 10 n) 0 = n := by
  induction zeros with
  | zero => exact Nat.ofDigitChars_ten_toDigits
  | succ zeros ih => exact ih

-- The digits of a number without its sign.
theorem digits_spell {digits : List Char} {n : Nat} :
    (digits ≠ [] ∧ ∀ c ∈ digits, isDigit c = true) ∧ digitsValue digits = n ↔
      ∃ zeros, digits = List.replicate zeros '0' ++ Nat.toDigits 10 n := by
  rw [digitsValue_eq]
  constructor
  · rintro ⟨⟨some, all⟩, rfl⟩
    exact digits_eq some all
  · rintro ⟨zeros, rfl⟩
    refine ⟨⟨?_, ?_⟩, ofDigitChars_zeros zeros n⟩
    · simp [Nat.toDigits_ne_nil]
    · intro c member
      rcases List.mem_append.mp member with zero | digit
      · rw [List.eq_of_mem_replicate zero]
        rfl
      · exact isDigit_toDigits c digit

theorem plus_notMem {digits : List Char} (all : ∀ c ∈ digits, isDigit c = true) : '+' ∉ digits := by
  intro member
  cases all '+' member

theorem unsigned?_eq_some {text : List Char} {n : Nat} : unsigned? text = some n ↔ Spells text n := by
  have reads (digits : List Char) : (if digits.isEmpty || !digits.all isDigit then none
      else some (digitsValue digits)) = some n ↔
      ∃ zeros, digits = List.replicate zeros '0' ++ Nat.toDigits 10 n := by
    rw [← digits_spell]
    simp
  unfold unsigned?
  simp only [reads]
  constructor
  · rintro ⟨zeros, equal⟩
    cases signed : Text.dropStart? ['+'] text with
    | some digits =>
      rw [signed] at equal
      exact ⟨['+'], zeros, .inr rfl, equal ▸ Text.dropStart?_eq_some.mp signed⟩
    | none =>
      rw [signed] at equal
      exact ⟨[], zeros, .inl rfl, equal⟩
  · rintro ⟨sign, zeros, rfl | rfl, equal⟩
    · have all := (digits_spell.mpr ⟨zeros, equal⟩).1.2
      cases signed : Text.dropStart? ['+'] text with
      | some digits =>
        rw [Text.dropStart?_eq_some.mp signed] at all
        exact absurd List.mem_cons_self (plus_notMem all)
      | none => exact ⟨zeros, equal⟩
    · rw [Text.dropStart?_eq_some.mpr equal]
      exact ⟨zeros, rfl⟩

-- The digits of a positive number start with no zero, so a sign and zeros always show.
theorem toDigits_not_padded {n : Nat} (positive : 0 < n) : ¬ Padded (Nat.toDigits 10 n) := by
  have all : ∀ c ∈ Nat.toDigits 10 n, isDigit c = true := isDigit_toDigits
  have value : Nat.ofDigitChars 10 (Nat.toDigits 10 n) 0 = n := Nat.ofDigitChars_ten_toDigits
  rintro (plus | zero)
  · exact plus_notMem all (List.mem_of_mem_head? plus)
  · obtain ⟨rest, digits⟩ := List.head?_eq_some_iff.mp zero
    rw [digits] at all value
    have dropped : Nat.ofDigitChars 10 rest 0 = n := value
    by_cases last : rest = []
    · subst last
      simp at dropped
      omega
    · -- without its zero the notation would still be one of the same number
      obtain ⟨zeros, equal⟩ := digits_eq last (List.forall_mem_cons.mp all).2
      have lengths := congrArg List.length equal
      rw [dropped, digits] at lengths
      simp at lengths
      omega

theorem Spells.plain_iff {text : List Char} {n : Nat} (spells : Spells text n) (positive : 0 < n) :
    text = Nat.toDigits 10 n ↔ ¬ Padded text := by
  constructor
  · rintro rfl
    exact toDigits_not_padded positive
  · obtain ⟨sign, zeros, signed, rfl⟩ := spells
    intro plain
    cases signed with
    | inl none =>
      subst none
      cases zeros with
      | zero => rfl
      | succ zeros => exact absurd (.inr rfl) plain
    | inr plus =>
      subst plus
      exact absurd (.inl rfl) plain

end Numbers

-- The keys that are read as a status.
def ReadFrom (key : List Char) : Status → Prop
  | code n => (100 ≤ n ∧ n ≤ 599) ∧ Spells key n
  | range hundreds => (1 ≤ hundreds ∧ hundreds ≤ 5) ∧
      ∃ digits, Spells digits hundreds ∧ (key = digits ++ ['X', 'X'] ∨ key = digits ++ ['x', 'x'])
  | default => key = "default".toList

section Keys

variable {key : List Char}

theorem between?_eq_some {low high n : Nat} {text : List Char} :
    between? low high text = some n ↔ (low ≤ n ∧ n ≤ high) ∧ Spells text n := by
  unfold between?
  rw [Option.filter_eq_some_iff, unsigned?_eq_some]
  simp [and_comm]

theorem rangeDigits?_eq_some {digits : List Char} :
    rangeDigits? key = some digits ↔ key = digits ++ ['X', 'X'] ∨ key = digits ++ ['x', 'x'] := by
  unfold rangeDigits?
  rw [Option.or_eq_some_iff, Text.dropEnd?_eq_some, Text.dropEnd?_eq_some]
  constructor
  · rintro (large | ⟨_, small⟩)
    · exact .inl large
    · exact .inr small
  · rintro (large | small)
    · exact .inl large
    · refine .inr ⟨Option.eq_none_iff_forall_ne_some.mpr ?_, small⟩
      intro rest found
      have both := small.symm.trans (Text.dropEnd?_eq_some.mp found)
      have ends := (List.append_inj' both rfl).2
      cases ends

theorem Spells.characters {text : List Char} {n : Nat} (spells : Spells text n) :
    ∀ c ∈ text, isDigit c = true ∨ c = '+' := by
  obtain ⟨sign, zeros, signed, rfl⟩ := spells
  have digits := (digits_spell (n := n).mpr ⟨zeros, rfl⟩).1.2
  intro c member
  rcases List.mem_append.mp member with first | later
  · cases signed with
    | inl none => simp [none] at first
    | inr plus => simpa [plus] using Or.inr first
  · exact .inl (digits c later)

-- The spelling of a number is no range and not the word `default`.
theorem Spells.rangeDigits?_eq {n : Nat} (spells : Spells key n) : rangeDigits? key = none := by
  apply Option.eq_none_iff_forall_ne_some.mpr
  intro digits found
  rcases rangeDigits?_eq_some.mp found with large | small
  · have wrong := spells.characters 'X' (by simp [large])
    revert wrong
    decide
  · have wrong := spells.characters 'x' (by simp [small])
    revert wrong
    decide

theorem Spells.ne_default {n : Nat} (spells : Spells key n) : key ≠ "default".toList := by
  rintro rfl
  have wrong := spells.characters 'd' (by decide)
  revert wrong
  decide

theorem parse?_eq_some {key : String} {status : Status} :
    parse? key = some status ↔ status.ReadFrom key.toList := by
  unfold parse?
  constructor
  · intro found
    split at found
    · rename_i named
      cases found
      exact congrArg String.toList named
    · split at found
      · rename_i digits ranged
        obtain ⟨hundreds, read, equal⟩ := Option.map_eq_some_iff.mp found
        cases equal
        obtain ⟨bounds, spells⟩ := between?_eq_some.mp read
        exact ⟨bounds, digits, spells, rangeDigits?_eq_some.mp ranged⟩
      · obtain ⟨n, read, equal⟩ := Option.map_eq_some_iff.mp found
        cases equal
        exact between?_eq_some.mp read
  · intro reads
    cases status with
    | code n =>
      have other : key ≠ "default" := fun named => reads.2.ne_default (congrArg String.toList named)
      rw [if_neg other, reads.2.rangeDigits?_eq]
      exact Option.map_eq_some_iff.mpr ⟨n, between?_eq_some.mpr reads, rfl⟩
    | range hundreds =>
      obtain ⟨bounds, digits, spells, ends⟩ := reads
      have ranged := rangeDigits?_eq_some.mpr ends
      have other : key ≠ "default" := by
        rintro rfl
        cases ranged
      rw [if_neg other, ranged]
      exact Option.map_eq_some_iff.mpr ⟨hundreds, between?_eq_some.mpr ⟨bounds, spells⟩, rfl⟩
    | default =>
      have named : key = "default" := String.toList_inj.mp reads
      rw [if_pos named]

end Keys

-- The keys that a document is meant to use: `default`, a digit from 1 to 5 before `XX` or `xx`, or three
-- digits from 100 to 599.
def IsKey (key : List Char) : Prop :=
  key = "default".toList ∨
    (∃ hundreds, (1 ≤ hundreds ∧ hundreds ≤ 5) ∧
      (key = (toString hundreds ++ "XX").toList ∨ key = (toString hundreds ++ "xx").toList)) ∨
    ∃ n, (100 ≤ n ∧ n ≤ 599) ∧ key = (toString n).toList

-- A key with capitals in place of a final `xx`.
def capitals (key : List Char) : List Char :=
  match Text.dropEnd? ['x', 'x'] key with
  | some digits => digits ++ ['X', 'X']
  | none => key

section Grammar

variable {key : List Char}

theorem toList_toString (n : Nat) : (toString n).toList = Nat.toDigits 10 n := by simp [Nat.toList_repr]

theorem toList_append_toString (n : Nat) (ending : String) :
    (toString n ++ ending).toList = Nat.toDigits 10 n ++ ending.toList := by
  simp [Nat.toList_repr]

theorem capitals_large (digits : List Char) : capitals (digits ++ ['X', 'X']) = digits ++ ['X', 'X'] := by
  unfold capitals
  split
  · rename_i rest found
    have ends := (List.append_inj' (Text.dropEnd?_eq_some.mp found) rfl).2
    cases ends
  · rfl

theorem capitals_small (digits : List Char) : capitals (digits ++ ['x', 'x']) = digits ++ ['X', 'X'] := by
  unfold capitals
  rw [Text.dropEnd?_eq_some.mpr rfl]

theorem capitals_other (other : rangeDigits? key = none) : capitals key = key := by
  unfold capitals
  split
  · rename_i rest found
    rw [rangeDigits?_eq_some.mpr (.inr (Text.dropEnd?_eq_some.mp found))] at other
    cases other
  · rfl

theorem spells_toDigits (n : Nat) : Spells (Nat.toDigits 10 n) n := ⟨[], 0, .inl rfl, rfl⟩

theorem Spells.padded_append {digits : List Char} {n : Nat} (spells : Spells digits n) (ending : List Char) :
    Padded (digits ++ ending) ↔ Padded digits := by
  cases digits with
  | nil =>
    obtain ⟨sign, zeros, _, equal⟩ := spells
    simp [Nat.toDigits_ne_nil] at equal
  | cons c rest => rfl

theorem Spells.padded_range {digits : List Char} {n : Nat} (spells : Spells digits n)
    (ends : key = digits ++ ['X', 'X'] ∨ key = digits ++ ['x', 'x']) : Padded key ↔ Padded digits := by
  rcases ends with rfl | rfl
  · exact spells.padded_append _
  · exact spells.padded_append _

theorem default_not_padded : ¬ Padded "default".toList := by
  unfold Padded
  decide

-- A status is written as its key again just where the key has neither sign nor zeros in front.
theorem ReadFrom.shown_iff {status : Status} (reads : status.ReadFrom key) :
    status.text.toList = capitals key ↔ ¬ Padded key := by
  cases status with
  | code n =>
    obtain ⟨bounds, spells⟩ := reads
    rw [← spells.plain_iff (by omega), capitals_other spells.rangeDigits?_eq]
    show (toString n).toList = key ↔ _
    rw [toList_toString, eq_comm]
  | range hundreds =>
    obtain ⟨bounds, digits, spells, ends⟩ := reads
    have raised : capitals key = digits ++ ['X', 'X'] := by
      rcases ends with rfl | rfl
      · exact capitals_large digits
      · exact capitals_small digits
    rw [spells.padded_range ends, ← spells.plain_iff (by omega), raised]
    show (toString hundreds ++ "XX").toList = _ ↔ _
    rw [toList_append_toString, eq_comm]
    exact List.append_left_inj _
  | default =>
    cases reads
    exact iff_of_true rfl default_not_padded

theorem isKey_iff : IsKey key ↔ (∃ status, ReadFrom key status) ∧ ¬ Padded key := by
  constructor
  · rintro (rfl | ⟨hundreds, bounds, ends⟩ | ⟨n, bounds, rfl⟩)
    · exact ⟨⟨default, rfl⟩, default_not_padded⟩
    · rw [toList_append_toString, toList_append_toString] at ends
      have spells := spells_toDigits hundreds
      refine ⟨⟨range hundreds, bounds, _, spells, ends⟩, ?_⟩
      rw [spells.padded_range ends]
      exact toDigits_not_padded (by omega)
    · rw [toList_toString]
      exact ⟨⟨code n, bounds, spells_toDigits n⟩, toDigits_not_padded (by omega)⟩
  · rintro ⟨⟨status, reads⟩, plain⟩
    cases status with
    | code n =>
      obtain ⟨bounds, spells⟩ := reads
      refine .inr (.inr ⟨n, bounds, ?_⟩)
      rw [toList_toString]
      exact (spells.plain_iff (by omega)).mpr plain
    | range hundreds =>
      obtain ⟨bounds, digits, spells, ends⟩ := reads
      rw [spells.padded_range ends] at plain
      have exactly : digits = Nat.toDigits 10 hundreds := (spells.plain_iff (by omega)).mpr plain
      refine .inr (.inl ⟨hundreds, bounds, ?_⟩)
      rw [toList_append_toString, toList_append_toString, ← exactly]
      exact ends
    | default => exact .inl reads

end Grammar

-- Of the texts that are read as a status, those that start with a sign or a zero are no keys, and just they
-- are not written as they were read.
theorem keys_read_exactly (key : String) :
    (∀ status, parse? key = some status ↔ status.ReadFrom key.toList) ∧
    (IsKey key.toList ↔ (parse? key).isSome = true ∧ ¬ Padded key.toList) ∧
    ∀ status, parse? key = some status →
      (status.text.toList = capitals key.toList ↔ IsKey key.toList) := by
  refine ⟨fun status => parse?_eq_some, ?_, ?_⟩
  · rw [isKey_iff, Option.isSome_iff_exists]
    simp only [parse?_eq_some]
  · intro status found
    have reads := parse?_eq_some.mp found
    rw [isKey_iff, reads.shown_iff]
    exact ⟨fun plain => ⟨⟨status, reads⟩, plain⟩, And.right⟩

-- Two keys of one status: only the second is a key that a document is meant to use.
theorem signed_code_read : parse? "+0200" = some (code 200) ∧ parse? "200" = some (code 200) ∧
    ¬ IsKey "+0200".toList ∧ (code 200).text.toList ≠ capitals "+0200".toList ∧ IsKey "200".toList := by
  have signed : parse? "+0200" = some (code 200) := by decide
  have plain : parse? "200" = some (code 200) := by decide
  have shown : (code 200).text.toList ≠ capitals "+0200".toList := by decide
  have again : (code 200).text.toList = capitals "200".toList := by decide
  refine ⟨signed, plain, ?_, shown, ?_⟩
  · exact mt ((keys_read_exactly "+0200").2.2 _ signed).mpr shown
  · exact ((keys_read_exactly "200").2.2 _ plain).mp again

end ApiContract.Status
