import ApiContract.Proofs.TypeTexts

namespace ApiContract.TypeExpr

open Text

-- The text of a type can be read in one way only. There are four levels, from the whole type down to the items of a
-- list, and each has its own marks that may stand behind a text.

def closers : List (List Char) := [[';', ' '], [',', ' '], [']'], [')'], [' ', '\x7d']]

-- What a union and an intersection have in common.
inductive Operator where
  | either
  | both

namespace Operator

def join : Operator → List TypeExpr → TypeExpr
  | either => union
  | both => intersection

-- The types that the operator joins. Any other type stands for itself.
def split : Operator → TypeExpr → List TypeExpr
  | either, union members => members
  | both, intersection members => members
  | _, type => [type]

def mark : Operator → List Char
  | either => [' ', '|', ' ']
  | both => [' ', '&', ' ']

end Operator

def listMark : List Char := ['[', ']']

def termMarks : List (List Char) := Operator.either.mark :: closers

def operandMarks : List (List Char) := Operator.both.mark :: termMarks

def stemMarks : List (List Char) := listMark :: operandMarks

-- The same list mark, several times, and the lists that it makes.
def lists : Nat → List Char
  | 0 => []
  | n + 1 => listMark ++ lists n

def nested : Nat → TypeExpr → TypeExpr
  | 0, type => type
  | n + 1, type => nested n (array type)

section Levels

variable (names : Names) (known : String → Prop)

def Same (a b : TypeExpr) : Prop := a.undocumented = b.undocumented

def TypeReads (type : TypeExpr) : Prop :=
  ∀ other, Legible known other → Reads (Begins closers) (chars names type) (chars names other) (Same type other)

def TermReads (type : TypeExpr) : Prop :=
  ∀ other, Legible known other → (∀ members, other ≠ union members) →
    Reads (Begins termMarks) (chars names type) (chars names other) (Same type other)

def OperandReads (type : TypeExpr) : Prop :=
  ∀ other m n, Legible known other →
    Reads (Begins operandMarks) (grouped names type ++ lists m) (grouped names other ++ lists n)
      (Same (nested m type) (nested n other))

def StemReads (type : TypeExpr) : Prop :=
  ∀ other, Legible known other → (∀ items, other ≠ array items) →
    Reads (Begins stemMarks) (grouped names type) (grouped names other) (Same type other)

end Levels

section Marks

theorem either_apart (rest : List Char) : ¬ Begins closers (Operator.either.mark ++ rest) := by
  simp [Begins, closers, Operator.mark]

theorem both_apart (rest : List Char) : ¬ Begins termMarks (Operator.both.mark ++ rest) := by
  simp [Begins, termMarks, closers, Operator.mark]

theorem list_apart (rest : List Char) : ¬ Begins operandMarks (listMark ++ rest) := by
  simp [Begins, operandMarks, termMarks, closers, Operator.mark, listMark]

theorem lists_begin {n : Nat} {r : List Char} (begins : Begins operandMarks r) : Begins stemMarks (lists n ++ r) := by
  cases n with
  | zero => exact begins.mono (List.subset_cons_self _ _)
  | succ n =>
    rw [lists, List.append_assoc]
    exact begins_mark List.mem_cons_self _

theorem reads_lists (m n : Nat) : Reads (Begins operandMarks) (lists m) (lists n) (m = n) := by
  induction m generalizing n with
  | zero =>
    intro r s first second equal
    cases n with
    | zero => exact ⟨rfl, equal⟩
    | succ n =>
      rw [lists, lists, List.append_assoc] at equal
      have start : r = listMark ++ (lists n ++ s) := equal
      exact absurd (start ▸ first) (list_apart _)
  | succ m ih =>
    intro r s first second equal
    rw [lists, List.append_assoc] at equal
    cases n with
    | zero =>
      have start : listMark ++ (lists m ++ r) = s := equal
      exact absurd (start ▸ second) (list_apart _)
    | succ n =>
      rw [lists, List.append_assoc] at equal
      obtain ⟨rfl, rest⟩ := ih n r s first second (List.append_cancel_left equal)
      exact ⟨rfl, rest⟩

end Marks

section Steps

variable {names : Names} {known : String → Prop} {type other : TypeExpr}

theorem undocumented_nested (n : Nat) (type : TypeExpr) :
    (nested n type).undocumented = nested n type.undocumented := by
  induction n generalizing type with
  | zero => rfl
  | succ n ih => rw [nested, ih, undocumented_array, nested]

theorem grouped_array (items : TypeExpr) (n : Nat) :
    grouped names (array items) ++ lists n = grouped names items ++ lists (n + 1) := by
  rw [grouped_closed rfl, chars_array, lists, List.append_assoc]
  rfl

theorem OperandReads.array {items : TypeExpr} (reads : OperandReads names known items) :
    OperandReads names known (array items) := by
  intro other m n legible
  rw [grouped_array]
  exact reads other (m + 1) n legible

-- What is no list itself is followed by as many list marks as there are lists around it.
theorem StemReads.operand (stem : StemReads names known type) : OperandReads names known type := by
  intro other m n legible
  induction other using parts_induction generalizing n with
  | step other ih =>
    by_cases list : ∃ items, other = .array items
    · obtain ⟨items, rfl⟩ := list
      rw [grouped_array]
      exact ih items List.mem_cons_self (n + 1) (legible.inside items List.mem_cons_self)
    · have both := (stem other legible (not_exists.mp list)).append (fun _ => reads_lists m n)
        (fun r => lists_begin) (fun s => lists_begin)
      refine both.imp ?_
      rintro ⟨same, rfl⟩
      unfold Same at same ⊢
      rw [undocumented_nested, undocumented_nested, same]

theorem undocumented_join (op : Operator) (types : List TypeExpr) :
    (op.join types).undocumented = op.join (types.map undocumented) := by
  cases op with
  | either => exact undocumented_union types
  | both => exact undocumented_intersection types

theorem split_cases (op : Operator) (legible : Legible known type) :
    (type = op.join (op.split type) ∧ 2 ≤ (op.split type).length) ∨
      op.split type = [type] ∧ ∀ members, type ≠ op.join members := by
  have plain := legible.plain
  cases op with
  | either =>
    cases type with
    | union members => exact .inl ⟨rfl, plain.1⟩
    | _ => exact .inr ⟨rfl, by simp [Operator.join]⟩
  | both =>
    cases type with
    | intersection members => exact .inl ⟨rfl, plain.1⟩
    | _ => exact .inr ⟨rfl, by simp [Operator.join]⟩

theorem split_ne_nil (op : Operator) (legible : Legible known type) : op.split type ≠ [] := by
  intro empty
  rcases split_cases op legible with ⟨_, several⟩ | ⟨single, _⟩
  · simp [empty] at several
  · simp [empty] at single

-- What an operator joins is legible, and the operator does not join it again.
theorem split_legible (op : Operator) (legible : Legible known type) :
    ∀ part ∈ op.split type, Legible known part ∧ ∀ members, part ≠ op.join members := by
  intro part member
  rcases split_cases op legible with ⟨joined, _⟩ | ⟨single, closed⟩
  · have plain := legible.plain
    have inside := legible.inside
    rw [joined] at plain inside
    cases op with
    | either =>
      refine ⟨inside part member, ?_⟩
      rintro members rfl
      exact plain.2 members member
    | both =>
      refine ⟨inside part member, ?_⟩
      rintro members rfl
      exact plain.2 members member
  · rw [single] at member
    cases List.mem_singleton.mp member
    exact ⟨legible, closed⟩

-- A type is given by the parts that an operator joins, since no operator joins less than two.
theorem same_of_split (op : Operator) (first : Legible known type) (second : Legible known other)
    (same : (op.split type).map undocumented = (op.split other).map undocumented) : Same type other := by
  have lengths : (op.split type).length = (op.split other).length := by
    simpa using congrArg List.length same
  rcases split_cases op first with ⟨joined, several⟩ | ⟨single, _⟩
  · rcases split_cases op second with ⟨also, _⟩ | ⟨alone, _⟩
    · calc type.undocumented = (op.join (op.split type)).undocumented := congrArg undocumented joined
        _ = op.join ((op.split other).map undocumented) := by rw [undocumented_join, same]
        _ = (op.join (op.split other)).undocumented := (undocumented_join _ _).symm
        _ = other.undocumented := congrArg undocumented also.symm
    · rw [lengths, alone] at several
      simp at several
  · rcases split_cases op second with ⟨_, several⟩ | ⟨alone, _⟩
    · rw [← lengths, single] at several
      simp at several
    · rw [single, alone] at same
      exact (List.cons.inj same).1

theorem reads_split (op : Operator) {marks : List (List Char)} {text : TypeExpr → List Char}
    (apart : ∀ rest, ¬ Begins marks (op.mark ++ rest)) (first : Legible known type) (second : Legible known other)
    (left : chars names type = op.mark.intercalate ((op.split type).map text))
    (right : chars names other = op.mark.intercalate ((op.split other).map text))
    (each : ∀ x ∈ op.split type, ∀ y ∈ op.split other,
      Reads (Begins (op.mark :: marks)) (text x) (text y) (Same x y)) :
    Reads (Begins marks) (chars names type) (chars names other) (Same type other) := by
  rw [left, right]
  apply (reads_separated (split_ne_nil op first) (split_ne_nil op second) apart each).imp
  exact same_of_split op first second

theorem chars_terms (type : TypeExpr) :
    chars names type = Operator.either.mark.intercalate ((Operator.either.split type).map (chars names)) := by
  cases type with
  | union members => exact chars_union names members
  | _ => simp [Operator.split, List.intercalate]

theorem chars_operands (legible : Legible known type) (single : ∀ members, type ≠ union members) :
    chars names type = Operator.both.mark.intercalate ((Operator.both.split type).map (grouped names)) := by
  cases type with
  | intersection members => exact chars_intersection names legible.plain.2
  | union members => exact absurd rfl (single members)
  | _ => simp [Operator.split, List.intercalate, grouped, grouping]

theorem TermReads.of_operands (legible : Legible known type) (single : ∀ members, type ≠ union members)
    (each : ∀ operand ∈ Operator.both.split type, OperandReads names known operand) : TermReads names known type := by
  intro other readable closed
  apply reads_split .both both_apart legible readable (chars_operands legible single) (chars_operands readable closed)
  intro x inside y listed
  have operand := each x inside y 0 0 (split_legible .both readable y listed).1
  rw [lists, List.append_nil, List.append_nil] at operand
  exact operand

theorem TypeReads.of_terms (legible : Legible known type)
    (each : ∀ term ∈ Operator.either.split type, TermReads names known term) : TypeReads names known type := by
  intro other readable
  apply reads_split .either either_apart legible readable (chars_terms type) (chars_terms other)
  intro x inside y listed
  obtain ⟨fine, closed⟩ := split_legible .either readable y listed
  exact each x inside y fine closed

end Steps

-- The texts that are no lists: each kind has its own way to start.
section Stems

variable {names : Names} {known : String → Prop} {type : TypeExpr}

theorem same_mark (distinguishes : Distinguishes names known) {other : TypeExpr} (first : Legible known type)
    (second : Legible known other) (single : ∀ items, type ≠ array items) (alone : ∀ items, other ≠ array items)
    {r s : List Char} (equal : grouped names type ++ r = grouped names other ++ s) :
    other.openingMark = type.openingMark := by
  obtain ⟨c, rest, text, mark⟩ := grouped_start distinguishes first single
  obtain ⟨d, more, spelled, also⟩ := grouped_start distinguishes second alone
  rw [text, spelled] at equal
  rw [mark, also, (List.cons.inj equal).1]

-- Only types that start alike have to be told apart.
theorem stem_of_mark (distinguishes : Distinguishes names known) (legible : Legible known type)
    (single : ∀ items, type ≠ array items)
    (each : ∀ other, Legible known other → (∀ items, other ≠ array items) → other.openingMark = type.openingMark →
      Reads (Begins stemMarks) (grouped names type) (grouped names other) (Same type other)) :
    StemReads names known type := by
  intro other readable alone r s first second equal
  have mark := same_mark distinguishes legible readable single alone equal
  exact each other readable alone mark r s first second equal

theorem word_stem (distinguishes : Distinguishes names known) (legible : Legible known type)
    (single : ∀ items, type ≠ array items) (unmarked : type.openingMark = none) : StemReads names known type := by
  apply stem_of_mark distinguishes legible single
  intro other readable alone mark
  have bare := mark.trans unmarked
  have first := legible.word unmarked single
  have second := readable.word bare alone
  have tokens : Reads (fun r => ∀ c ∈ r.head?, c ∈ delimiters) (chars names type) (chars names other) _ :=
    reads_until (first.token distinguishes).2 (second.token distinguishes).2
  rw [grouped_closed (closed_of_unmarked unmarked), grouped_closed (closed_of_unmarked bare)]
  have ends : ∀ mark ∈ stemMarks, ∃ c ∈ mark.head?, c ∈ delimiters := by
    simp [stemMarks, operandMarks, termMarks, closers, listMark, Operator.mark, delimiters]
  apply (tokens.mono fun r begins => begins.head ends).imp
  intro equal
  exact congrArg undocumented (first.eq_of_chars distinguishes second equal)

theorem text_stem (distinguishes : Distinguishes names known) {s : String}
    (legible : Legible known (literal (.string s))) :
    StemReads names known (literal (.string s)) := by
  apply stem_of_mark distinguishes legible (by simp)
  intro other readable alone mark
  cases other with
  | literal l =>
    cases l with
    | string t =>
      apply (reads_quote s t).imp
      rintro rfl
      rfl
    | _ => cases mark
  | _ => cases mark

-- The parentheses close what stands in them.
theorem TypeReads.stem (distinguishes : Distinguishes names known) (legible : Legible known type)
    (joined : type.openingMark = some '(') (reads : TypeReads names known type) : StemReads names known type := by
  have opened {other : TypeExpr} (mark : other.openingMark = some '(') : other.grouping ≠ .closed := by
    cases other with
    | union members => exact Grouping.noConfusion
    | intersection members => exact Grouping.noConfusion
    | literal l => cases l <;> cases mark
    | _ => cases mark
  apply stem_of_mark distinguishes legible
  · rintro items rfl
    cases joined
  · intro other readable alone mark
    rw [grouped_open (opened joined), grouped_open (opened (mark.trans joined))]
    exact ((reads other readable).closed fun r => begins_mark (by decide) r).after ['(']

end Stems

section Members

variable {names : Names} {known : String → Prop}

-- A property key is quoted, or it is a bare name.
theorem propertyKey_cases (name : String) :
    Identifier.propertyKey name = Identifier.quote name ∨
      Identifier.propertyKey name = name ∧ StartsWith (Identifier.isStart · = true) name.toList ∧
        ∀ c ∈ name.toList, Identifier.isPart c = true := by
  unfold Identifier.propertyKey
  cases bare : Identifier.needsQuotes name with
  | true => exact .inl rfl
  | false => exact .inr ⟨rfl, bare_name bare⟩

theorem startsWith_quote (s : String) : StartsWith (· = '"') (Identifier.quote s).toList := by
  rw [Identifier.toList_quote]
  exact ⟨'"', _, rfl, rfl⟩

theorem quote_not_start {c : Char} (start : Identifier.isStart c = true) : c ≠ '"' := by
  rintro rfl
  cases start

theorem key_startsWith (name : String) : StartsWith (· ≠ '[') (Identifier.propertyKey name).toList := by
  rcases propertyKey_cases name with quoted | ⟨bare, start, _⟩
  · rw [quoted]
    apply (startsWith_quote name).imp
    rintro c rfl
    decide
  · rw [bare]
    apply start.imp
    rintro c first rfl
    cases first

theorem reads_key (a b : String) :
    Reads (fun r => ∀ c ∈ r.head?, c = '?' ∨ c = ':') (Identifier.propertyKey a).toList
      (Identifier.propertyKey b).toList (a = b) := by
  have stops {name : String} (parts : ∀ c ∈ name.toList, Identifier.isPart c = true) :
      ∀ c ∈ name.toList, ¬ (c = '?' ∨ c = ':') := by
    rintro c member (rfl | rfl)
    · cases parts _ member
    · cases parts _ member
  rcases propertyKey_cases a with quoted | ⟨bare, start, parts⟩
  · rcases propertyKey_cases b with also | ⟨plain, begin, _⟩
    · rw [quoted, also]
      exact reads_quote a b
    · rw [quoted, plain]
      exact (startsWith_quote a).reads (begin.imp fun c => quote_not_start)
  · rcases propertyKey_cases b with also | ⟨plain, _, also⟩
    · rw [bare, also]
      apply (start.imp fun c => quote_not_start).reads
      exact (startsWith_quote b).imp fun c equal differs => differs equal
    · rw [bare, plain]
      exact (reads_until (stops parts) (stops also)).imp String.toList_inj.mp

theorem reads_optional (a b : Bool) :
    Reads (fun r => ∃ rest, r = ':' :: rest) (if a then ['?'] else []) (if b then ['?'] else []) (a = b) := by
  rintro r s ⟨left, rfl⟩ ⟨right, rfl⟩ equal
  cases a with
  | false =>
    cases b with
    | false => exact ⟨rfl, equal⟩
    | true => cases equal
  | true =>
    cases b with
    | false => cases equal
    | true => exact ⟨rfl, (List.cons.inj equal).2⟩

-- What stands between and behind the members of an object type.
def memberMarks : List (List Char) := [[';', ' '], [' ', '\x7d']]

theorem memberMarks_close {r : List Char} (begins : Begins memberMarks r) : Begins closers r :=
  begins.mono (by simp [memberMarks, closers])

theorem reads_property {p q : Property TypeExpr} (reads : TypeReads names known p.type)
    (legible : Legible known q.type) :
    Reads (Begins memberMarks) (memberChars names (.property p)) (memberChars names (.property q))
      (bareMember (.property p) = bareMember (.property q)) := by
  have type := ((reads q.type legible).mono fun r => memberMarks_close).after [':', ' ']
  have optional := (reads_optional p.optional q.optional).append (fun _ => type)
    (fun r _ => ⟨_, rfl⟩) (fun s _ => ⟨_, rfl⟩)
  have follows (flag : Bool) (rest r : List Char) :
      ∀ c ∈ (((if flag then ['?'] else []) ++ ([':', ' '] ++ rest)) ++ r).head?, c = '?' ∨ c = ':' := by
    cases flag <;> simp
  apply ((reads_key p.name q.name).append (fun _ => optional) (fun r _ => follows _ _ r) (fun s _ => follows _ _ s)).imp
  rintro ⟨name, flag, same⟩
  show Member.property ⟨p.name, p.type.undocumented, p.optional, none⟩ =
    Member.property ⟨q.name, q.type.undocumented, q.optional, none⟩
  rw [name, flag, same]

theorem reads_index {s t : IndexSignature TypeExpr} (first : s.key = string ∧ ':' ∉ s.keyName.toList)
    (second : t.key = string ∧ ':' ∉ t.keyName.toList) (reads : TypeReads names known s.value)
    (legible : Legible known t.value) :
    Reads (Begins memberMarks) (memberChars names (.index s)) (memberChars names (.index t))
      (bareMember (.index s) = bareMember (.index t)) := by
  have value := ((reads t.value legible).mono fun r => memberMarks_close).after [']', ':', ' ']
  have key := (value.after (chars names string)).after [':', ' ']
  have colon {name : List Char} (free : ':' ∉ name) : ∀ c ∈ name, ¬ c = ':' := by
    rintro c member rfl
    exact free member
  have name := (reads_until (colon first.2) (colon second.2)).append (fun _ => key) (by simp) (by simp)
  rw [memberChars, memberChars, first.1, second.1]
  apply (name.after ['[']).imp
  rintro ⟨named, same⟩
  show Member.index ⟨s.keyName, s.key.undocumented, s.value.undocumented⟩ =
    Member.index ⟨t.keyName, t.key.undocumented, t.value.undocumented⟩
  rw [String.toList_inj.mp named, first.1, second.1, same]

theorem reads_member {m n : Member TypeExpr} (first : ∀ s, m = .index s → s.key = string ∧ ':' ∉ s.keyName.toList)
    (second : ∀ s, n = .index s → s.key = string ∧ ':' ∉ s.keyName.toList)
    (reads : ∀ type ∈ m.types, TypeReads names known type) (legible : ∀ type ∈ n.types, Legible known type) :
    Reads (Begins memberMarks) (memberChars names m) (memberChars names n) (bareMember m = bareMember n) := by
  cases m with
  | property p =>
    cases n with
    | property q => exact reads_property (reads _ List.mem_cons_self) (legible _ List.mem_cons_self)
    | index t => exact ((key_startsWith p.name).append _).reads ⟨'[', _, rfl, by simp⟩
  | index s =>
    cases n with
    | property q =>
      have bracket : StartsWith (· = '[') (memberChars names (.index s)) := ⟨'[', _, rfl, rfl⟩
      exact bracket.reads ((key_startsWith q.name).append _)
    | index t =>
      refine reads_index (first s rfl) (second t rfl) (reads _ ?_) (legible _ ?_)
      · exact List.mem_cons_of_mem _ List.mem_cons_self
      · exact List.mem_cons_of_mem _ List.mem_cons_self

theorem reads_members {members others : List (Member TypeExpr)} (none : members ≠ []) (also : others ≠ [])
    (legible : Legible known (record members)) (readable : Legible known (record others))
    (each : ∀ type ∈ (record members).parts, TypeReads names known type) :
    Reads (Begins [[' ', '\x7d']]) ([';', ' '].intercalate (members.map (memberChars names)))
      ([';', ' '].intercalate (others.map (memberChars names))) (members.map bareMember = others.map bareMember) := by
  apply reads_separated none also (by simp [Begins])
  intro m inside n listed
  have types : ∀ type ∈ m.types, TypeReads names known type :=
    fun type typed => each type (List.mem_flatMap.mpr ⟨m, inside, typed⟩)
  have fine : ∀ type ∈ n.types, Legible known type :=
    fun type typed => readable.inside type (List.mem_flatMap.mpr ⟨n, listed, typed⟩)
  refine reads_member ?_ ?_ types fine
  · rintro s rfl
    exact legible.plain s inside
  · rintro s rfl
    exact readable.plain s listed

-- An object type without members has no blank behind its brace.
theorem record_stem (distinguishes : Distinguishes names known) {members : List (Member TypeExpr)}
    (legible : Legible known (record members)) (each : ∀ type ∈ (record members).parts, TypeReads names known type) :
    StemReads names known (record members) := by
  apply stem_of_mark distinguishes legible (by simp)
  intro other readable alone mark
  cases other with
  | record others =>
    rw [grouped_closed rfl, grouped_closed rfl]
    by_cases none : members = []
    · subst none
      by_cases also : others = []
      · subst also
        exact (reads_mark _).imp fun _ => rfl
      · intro r s _ _ equal
        rw [chars_record_nil, chars_record names also] at equal
        cases equal
    · by_cases also : others = []
      · subst also
        intro r s _ _ equal
        rw [chars_record names none, chars_record_nil] at equal
        cases equal
      · rw [chars_record names none, chars_record names also]
        have inner := reads_members none also legible readable each
        apply ((inner.closed fun r => begins_mark List.mem_cons_self r).after _).imp
        intro same
        unfold Same
        rw [undocumented_record, undocumented_record, same]
  | literal l => cases l <;> cases mark
  | _ => cases mark

end Members

section Slots

variable {names : Names} {known : String → Prop}

def bareSlot : TypeExpr ⊕ TypeExpr → TypeExpr ⊕ TypeExpr := Sum.map undocumented undocumented

theorem slots_map (places : List TypeExpr) (rest : Option TypeExpr) :
    (slots places rest).map bareSlot = slots (places.map undocumented) (rest.map undocumented) := by
  cases rest <;> simp [slots, bareSlot]

theorem slots_inj {places others : List TypeExpr} {rest last : Option TypeExpr}
    (equal : slots places rest = slots others last) : places = others ∧ rest = last := by
  induction places generalizing others with
  | nil =>
    cases others with
    | nil =>
      have same : (rest.map Sum.inr).toList = (last.map Sum.inr : Option (TypeExpr ⊕ TypeExpr)).toList := equal
      refine ⟨rfl, ?_⟩
      cases rest <;> cases last <;> simp_all
    | cons other others => cases rest <;> simp [slots] at equal
  | cons place places ih =>
    cases others with
    | nil => cases last <;> simp [slots] at equal
    | cons other others =>
      obtain ⟨here, later⟩ := List.cons.inj equal
      obtain ⟨rfl, same⟩ := ih later
      exact ⟨congrArg (· :: places) (Sum.inl.inj here), same⟩

def slotType : TypeExpr ⊕ TypeExpr → TypeExpr := Sum.elim id id

theorem slotType_mem {places : List TypeExpr} {rest : Option TypeExpr} {slot : TypeExpr ⊕ TypeExpr}
    (listed : slot ∈ slots places rest) : slotType slot ∈ (tuple places rest).parts := by
  rcases List.mem_append.mp listed with place | last
  · obtain ⟨type, inside, rfl⟩ := List.mem_map.mp place
    exact List.mem_append_left _ inside
  · obtain ⟨type, present, rfl⟩ := Option.map_eq_some_iff.mp (Option.mem_toList.mp last)
    exact List.mem_append_right _ (Option.mem_toList.mpr present)

-- What stands between and behind the slots of a tuple.
def slotMarks : List (List Char) := [[',', ' '], [']']]

theorem slot_startsWith (distinguishes : Distinguishes names known) {slot : TypeExpr ⊕ TypeExpr}
    (legible : Legible known (slotType slot)) : StartsWith (· ≠ ']') (slotChars names slot) := by
  cases slot with
  | inl place => exact (opens_chars distinguishes legible).imp fun c opens => opens.1
  | inr rest => exact ⟨'.', _, rfl, by decide⟩

theorem reads_slot (distinguishes : Distinguishes names known) {x y : TypeExpr ⊕ TypeExpr}
    (legible : Legible known (slotType x)) (readable : Legible known (slotType y))
    (type : TypeReads names known (slotType x)) (operand : OperandReads names known (slotType x)) :
    Reads (Begins slotMarks) (slotChars names x) (slotChars names y) (bareSlot x = bareSlot y) := by
  cases x with
  | inl a =>
    cases y with
    | inl b =>
      apply ((type b readable).mono fun r begins => begins.mono (by simp [slotMarks, closers])).imp
      exact fun same => congrArg Sum.inl same
    | inr b =>
      have opens := (opens_chars distinguishes legible).imp fun c opens => opens.2
      exact opens.reads ⟨'.', _, rfl, by simp⟩
  | inr a =>
    cases y with
    | inl b =>
      have dots : StartsWith (· = '.') (slotChars names (.inr a)) := ⟨'.', _, rfl, rfl⟩
      exact dots.reads ((opens_chars distinguishes readable).imp fun c opens => opens.2)
    | inr b =>
      have list : Reads (Begins operandMarks) (grouped names a ++ ['[', ']']) (grouped names b ++ ['[', ']'])
          (Same (array a) (array b)) := operand b 1 1 readable
      have rest := (list.mono fun r (begins : Begins slotMarks r) =>
        begins.mono (by simp [slotMarks, operandMarks, termMarks, closers])).after ['.', '.', '.']
      apply rest.imp
      intro same
      unfold Same at same
      rw [undocumented_array, undocumented_array] at same
      exact congrArg Sum.inr (array.inj same)

theorem slots_startWith (distinguishes : Distinguishes names known) {places : List TypeExpr} {rest : Option TypeExpr}
    (legible : Legible known (tuple places rest)) (some : slots places rest ≠ []) :
    StartsWith (· ≠ ']') ([',', ' '].intercalate ((slots places rest).map (slotChars names))) := by
  apply startsWith_intercalate _ some
  exact fun slot listed => slot_startsWith distinguishes (legible.inside _ (slotType_mem listed))

-- Tuples may be empty, so the closing bracket is what ends them.
theorem reads_slots (distinguishes : Distinguishes names known) {places others : List TypeExpr}
    {rest last : Option TypeExpr} (legible : Legible known (tuple places rest))
    (readable : Legible known (tuple others last))
    (each : ∀ x ∈ slots places rest, ∀ y ∈ slots others last,
      Reads (Begins slotMarks) (slotChars names x) (slotChars names y) (bareSlot x = bareSlot y)) :
    Reads (Begins stemMarks) ([',', ' '].intercalate ((slots places rest).map (slotChars names)) ++ [']'])
      ([',', ' '].intercalate ((slots others last).map (slotChars names)) ++ [']'])
      ((slots places rest).map bareSlot = (slots others last).map bareSlot) := by
  by_cases none : slots places rest = []
  · rw [none]
    by_cases also : slots others last = []
    · rw [also]
      exact (reads_mark _).imp fun _ => rfl
    · have bracket : StartsWith (· = ']') ([',', ' '].intercalate (List.map (slotChars names) []) ++ [']']) :=
        ⟨']', _, rfl, rfl⟩
      exact bracket.reads ((slots_startWith distinguishes readable also).append _)
  · by_cases also : slots others last = []
    · rw [also]
      apply ((slots_startWith distinguishes legible none).append _).reads
      exact ⟨']', _, rfl, by simp⟩
    · have items : Reads (Begins [[']']]) _ _ _ := reads_separated none also (by simp [Begins]) each
      exact items.closed fun r => begins_mark List.mem_cons_self r

theorem tuple_stem (distinguishes : Distinguishes names known) {places : List TypeExpr} {rest : Option TypeExpr}
    (legible : Legible known (tuple places rest))
    (types : ∀ type ∈ (tuple places rest).parts, TypeReads names known type)
    (operands : ∀ type ∈ (tuple places rest).parts, OperandReads names known type) :
    StemReads names known (tuple places rest) := by
  apply stem_of_mark distinguishes legible (by simp)
  intro other readable alone mark
  cases other with
  | tuple others last =>
    rw [grouped_closed rfl, grouped_closed rfl, chars_tuple, chars_tuple]
    have inner := reads_slots distinguishes legible readable fun x inside y listed =>
      reads_slot distinguishes (legible.inside _ (slotType_mem inside)) (readable.inside _ (slotType_mem listed))
        (types _ (slotType_mem inside)) (operands _ (slotType_mem inside))
    apply (inner.after ['[']).imp
    intro same
    rw [slots_map, slots_map] at same
    obtain ⟨first, second⟩ := slots_inj same
    unfold Same
    rw [undocumented_tuple, undocumented_tuple, first, second]
  | literal l => cases l <;> cases mark
  | _ => cases mark

end Slots

section Whole

variable {names : Names} {known : String → Prop} {type other : TypeExpr}

-- A type can be read at every place where types stand.
structure ReadsAll (names : Names) (known : String → Prop) (type : TypeExpr) : Prop where
  operand : OperandReads names known type
  term : (∀ members, type ≠ union members) → TermReads names known type
  type : TypeReads names known type

theorem split_single (op : Operator) (closed : type.grouping = .closed) : op.split type = [type] := by
  cases type with
  | union members => cases closed
  | intersection members => cases closed
  | _ => cases op <;> rfl

theorem OperandReads.all (legible : Legible known type) (closed : type.grouping = .closed)
    (operand : OperandReads names known type) : ReadsAll names known type := by
  have term : TermReads names known type := by
    apply TermReads.of_operands legible
    · rintro members rfl
      cases closed
    · rw [split_single .both closed]
      exact List.forall_mem_singleton.mpr operand
  refine ⟨operand, fun _ => term, TypeReads.of_terms legible ?_⟩
  rw [split_single .either closed]
  exact List.forall_mem_singleton.mpr term

-- The induction is on the parts. What is closed is read from its parts first and then as a whole; a union or an
-- intersection is read as a whole first, and then in parentheses.
theorem legible_reads (distinguishes : Distinguishes names known) (legible : Legible known type) :
    ReadsAll names known type := by
  induction type using parts_induction with
  | step type ih =>
    have inside : ∀ part ∈ type.parts, ReadsAll names known part :=
      fun part member => ih part member (legible.inside part member)
    cases type with
    | primitive p => exact (word_stem distinguishes legible (by simp) rfl).operand.all legible rfl
    | literal l =>
      cases l with
      | string s => exact (text_stem distinguishes legible).operand.all legible rfl
      | _ => exact (word_stem distinguishes legible (by simp) rfl).operand.all legible rfl
    | reference name => exact (word_stem distinguishes legible (by simp) rfl).operand.all legible rfl
    | union members =>
      have whole : TypeReads names known (union members) := by
        apply TypeReads.of_terms legible
        exact fun term listed => (inside term listed).term (split_legible .either legible term listed).2
      exact ⟨(whole.stem distinguishes legible rfl).operand, fun single => absurd rfl (single members), whole⟩
    | intersection members =>
      have term : TermReads names known (intersection members) := by
        apply TermReads.of_operands legible (by simp)
        exact fun operand listed => (inside operand listed).operand
      have whole : TypeReads names known (intersection members) := by
        apply TypeReads.of_terms legible
        exact List.forall_mem_singleton.mpr term
      exact ⟨(whole.stem distinguishes legible rfl).operand, fun _ => term, whole⟩
    | record members =>
      have stem := record_stem distinguishes legible fun part member => (inside part member).type
      exact stem.operand.all legible rfl
    | array items => exact (inside items List.mem_cons_self).operand.array.all legible rfl
    | tuple places rest =>
      have stem := tuple_stem distinguishes legible (fun part member => (inside part member).type)
        fun part member => (inside part member).operand
      exact stem.operand.all legible rfl

-- Documentation is not printed.
theorem rendered_undocumented (type : TypeExpr) : type.undocumented.rendered names = type.rendered names := by
  have all (types : List TypeExpr) (each : ∀ type ∈ types, type.undocumented.rendered names = type.rendered names) :
      (types.map undocumented).map (rendered names) = types.map (rendered names) := by
    rw [List.map_map]
    exact List.map_congr_left each
  induction type using parts_induction with
  | step type ih =>
    cases type with
    | primitive p => rfl
    | literal l => rfl
    | reference name => rfl
    | union members => rw [undocumented_union, rendered_union, rendered_union, all members ih]
    | intersection members =>
      rw [undocumented_intersection, rendered_intersection, rendered_intersection, all members ih]
    | record members =>
      have each : ∀ member ∈ members, renderMember ((bareMember member).map (rendered names)) =
          renderMember (member.map (rendered names)) := by
        intro member listed
        have types : ∀ type ∈ member.types, type.undocumented.rendered names = type.rendered names :=
          fun type typed => ih type (List.mem_flatMap.mpr ⟨member, listed, typed⟩)
        cases member with
        | property p => simp [bareMember, undocumentedMember, Member.map, renderMember, types p.type List.mem_cons_self]
        | index s =>
          have value := types s.value (List.mem_cons_of_mem _ List.mem_cons_self)
          simp [bareMember, undocumentedMember, Member.map, renderMember, types s.key List.mem_cons_self, value]
      have texts := List.map_congr_left each
      rw [undocumented_record, rendered_record, rendered_record]
      simp only [renderRecord, List.map_map, List.isEmpty_map, Function.comp_def, texts]
    | array items => rw [undocumented_array, rendered_array, rendered_array, ih items List.mem_cons_self]
    | tuple places rest =>
      have first := all places fun place member => ih place (List.mem_append_left _ member)
      have last : (rest.map undocumented).map (rendered names) = rest.map (rendered names) := by
        cases rest with
        | none => rfl
        | some type => exact congrArg some (ih type (List.mem_append_right _ (by simp)))
      rw [undocumented_tuple, rendered_tuple, rendered_tuple, first, last]

-- Two legible types have the same text just if they are the same, but for the documentation of properties.
theorem texts_tell_types_apart (distinguishes : Distinguishes names known) (first : Legible known type)
    (second : Legible known other) :
    type.render names = other.render names ↔ type.undocumented = other.undocumented := by
  constructor
  · intro equal
    have texts : chars names type ++ [] = chars names other ++ [] := by
      unfold chars
      rw [equal]
    exact ((legible_reads distinguishes first).type other second [] [] (.inl rfl) (.inl rfl) texts).1
  · intro same
    unfold render
    rw [← rendered_undocumented type, same, rendered_undocumented]

end Whole

-- Only the parentheses tell these two apart.
def loosePets : TypeExpr := union [intersection [reference "Pet", text "|"], null]

def tightPets : TypeExpr := intersection [reference "Pet", union [text "|", null]]

theorem pets_told_apart : Distinguishes {} (· = "Pet") ∧ Legible (· = "Pet") loosePets ∧
    Legible (· = "Pet") tightPets ∧ loosePets.render {} ≠ tightPets.render {} := by
  have distinguishes : Distinguishes {} (· = "Pet") := by
    refine ⟨?_, ?_, ?_⟩
    · rintro name rfl
      exact isWord_of_bare (by decide +kernel)
    · rintro name rfl
      decide +kernel
    · rintro a b rfl rfl _
      rfl
  have pet : Legible (· = "Pet") (reference "Pet") := .intro rfl (List.forall_mem_nil _)
  have bar : Legible (· = "Pet") (text "|") := .intro (by simp [text, Plain]) (List.forall_mem_nil _)
  have nothing : Legible (· = "Pet") null := .intro (by simp [null, Plain]) (List.forall_mem_nil _)
  have both : Legible (· = "Pet") (intersection [reference "Pet", text "|"]) :=
    .intro ⟨Nat.le_refl 2, by simp [text]⟩ (by simp [parts, pet, bar])
  have either : Legible (· = "Pet") (union [text "|", null]) :=
    .intro ⟨Nat.le_refl 2, by simp [text, null]⟩ (by simp [parts, bar, nothing])
  have loose : Legible (· = "Pet") loosePets :=
    .intro ⟨Nat.le_refl 2, by simp [null]⟩ (by simp [loosePets, parts, both, nothing])
  have tight : Legible (· = "Pet") tightPets :=
    .intro ⟨Nat.le_refl 2, by simp⟩ (by simp [tightPets, parts, pet, either])
  refine ⟨distinguishes, loose, tight, mt (texts_tell_types_apart distinguishes loose tight).mp ?_⟩
  rw [loosePets, tightPets, undocumented_union, undocumented_intersection]
  simp

end ApiContract.TypeExpr
