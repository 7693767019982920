import ApiContract.Proofs.CamelCase

namespace ApiContract.Identifier

-- Names in camel case are identifiers without a dollar. Picking one that is not taken keeps it so, and the names
-- that are picked one after the other are all different.

structure IsPlainIdentifier (name : String) : Prop where
  start : ∃ c ∈ name.toList.head?, isLetter c = true ∨ c = '_'
  parts : ∀ c ∈ name.toList, isLetter c = true ∨ isDigit c = true ∨ c = '_'
  free : name ∉ reservedWords

section Plain

theorem Started.plain {name : String} (started : Started name)
    (parts : ∀ c ∈ name.toList, isLetter c = true ∨ isDigit c = true ∨ c = '_') : IsPlainIdentifier name := by
  obtain ⟨c, first, other⟩ := started.head
  refine ⟨⟨c, first, ?_⟩, parts, started.free⟩
  rcases parts c (List.mem_of_mem_head? first) with letter | digit | underscore
  · exact .inl letter
  · rw [other] at digit
    cases digit
  · exact .inr underscore

theorem finish_plain {name : List Char} (words : ∀ c ∈ name, isWordChar c = true) :
    IsPlainIdentifier (finish name) := by
  refine (finish_started name).plain ((finish_chars (.inr (.inr rfl)) (fun c letter => .inl letter) name).mpr ?_)
  intro c member
  exact (Bool.or_eq_true_iff.mp (words c member)).imp_right .inl

theorem fresh_plain {base : String} (plain : IsPlainIdentifier base) (taken : List String) :
    IsPlainIdentifier (fresh base taken) := by
  have started : Started base := by
    obtain ⟨c, first, start⟩ := plain.start
    refine ⟨⟨c, first, isDigit_start ?_⟩, plain.free⟩
    rcases start with letter | rfl
    · simp [isStart, letter]
    · rfl
  exact (fresh_started started taken).plain
    ((fresh_chars (fun c digit => .inr (.inl digit)) base taken).mpr plain.parts)

end Plain

-- The names in camel case that are made from a text: of a model, of a field and of the argument for a media type.
def camelNames (text : String) : List String := [ofModel text, ofField text, MediaType.argument text]

theorem camelNames_plain (text : String) : ∀ name ∈ camelNames text, IsPlainIdentifier name := by
  have field (text : String) : IsPlainIdentifier (ofField text) := by
    rw [ofField, toList_camelCase]
    exact finish_plain (camelChars_chars _)
  have argument : IsPlainIdentifier (MediaType.argument text) := by
    have word (name : String) (finished : finish name.toList = name) (words : name.toList.all isWordChar = true) :
        IsPlainIdentifier name := by
      rw [← finished]
      exact finish_plain (List.all_eq_true.mp words)
    unfold MediaType.argument
    simp only []
    split
    · exact word "json" (by decide +kernel) (by decide)
    · split
      · exact word "body" (by decide +kernel) (by decide)
      · exact field _
  have model : IsPlainIdentifier (ofModel text) := by
    rw [ofModel, toList_pascalCase]
    exact finish_plain (upperFirst_chars (camelChars_chars _))
  exact List.forall_mem_cons.mpr ⟨model, List.forall_mem_cons.mpr ⟨field text, List.forall_mem_singleton.mpr argument⟩⟩

section Picking

theorem mem_pick (base : String) (taken : List String) (name : String) :
    name ∈ (pick base taken).2 ↔ name = (pick base taken).1 ∨ name ∈ taken := List.mem_cons

theorem length_pickAll (bases taken : List String) : (pickAll taken bases).1.length = bases.length := by
  induction bases generalizing taken with
  | nil => rfl
  | cons base rest ih => exact congrArg (· + 1) (ih _)

theorem pickAll_apart (bases taken : List String) : Apart (pickAll taken bases).1 taken := by
  induction bases generalizing taken with
  | nil => exact .nil taken
  | cons base rest ih => exact .cons (fresh_notMem base taken) (ih (pick base taken).2)

theorem mem_pickAll (bases taken : List String) (name : String) :
    name ∈ (pickAll taken bases).2 ↔ name ∈ (pickAll taken bases).1 ∨ name ∈ taken := by
  induction bases generalizing taken with
  | nil => exact (or_iff_right List.not_mem_nil).symm
  | cons base rest ih =>
    show name ∈ (pickAll (pick base taken).2 rest).2 ↔ name ∈ _ :: (pickAll (pick base taken).2 rest).1 ∨ _
    rw [ih, mem_pick, List.mem_cons, or_left_comm, or_assoc]

theorem pickAll_plain {bases : List String} (plain : ∀ base ∈ bases, IsPlainIdentifier base) (taken : List String) :
    ∀ name ∈ (pickAll taken bases).1, IsPlainIdentifier name := by
  induction bases generalizing taken with
  | nil => exact List.forall_mem_nil _
  | cons base rest ih =>
    obtain ⟨first, later⟩ := List.forall_mem_cons.mp plain
    exact List.forall_mem_cons.mpr ⟨fresh_plain first taken, ih later _⟩

end Picking

-- A name in camel case is an identifier. Picking it ends with the first candidate that is not taken, which is an
-- identifier as well and the only one that is taken in addition. However many names are picked, no two are equal.
theorem camel_names_picked_apart :
    (∀ text, ∀ base ∈ camelNames text, IsPlainIdentifier base ∧ ∀ taken,
      FirstFree base taken (pick base taken).1 ∧ IsPlainIdentifier (pick base taken).1 ∧
      ∀ name, name ∈ (pick base taken).2 ↔ name = (pick base taken).1 ∨ name ∈ taken) ∧
    ∀ taken bases, (pickAll taken bases).1.length = bases.length ∧ (pickAll taken bases).1.Nodup ∧
      (∀ name ∈ (pickAll taken bases).1, name ∉ taken) ∧
      (∀ name, name ∈ (pickAll taken bases).2 ↔ name ∈ (pickAll taken bases).1 ∨ name ∈ taken) ∧
      ((∀ base ∈ bases, ∃ text, base ∈ camelNames text) →
        ∀ name ∈ (pickAll taken bases).1, IsPlainIdentifier name) := by
  refine ⟨fun text base member => ?_, fun taken bases => ?_⟩
  · have plain := camelNames_plain text base member
    exact ⟨plain, fun taken => ⟨fresh_firstFree base taken, fresh_plain plain taken, mem_pick base taken⟩⟩
  · have apart := pickAll_apart bases taken
    refine ⟨length_pickAll bases taken, apart.distinct, apart.free, mem_pickAll bases taken, fun camel => ?_⟩
    refine pickAll_plain (fun base member => ?_) taken
    obtain ⟨text, made⟩ := camel base member
    exact camelNames_plain text base made

-- Three of these are made a reserved word at first and one begins with a digit.
def classNames : List String :=
  [ofField "Class!", MediaType.argument "text/x-class; v=1", ofModel "2nd class", ofField "class"]

theorem classNames_picked_apart :
    (∀ base ∈ classNames, ∃ text, base ∈ camelNames text) ∧
    (pickAll ["_class2"] classNames).1 = ["_class", "_class3", "_2ndClass", "_class4"] ∧
    (pickAll ["_class2"] classNames).1.Nodup ∧ IsPlainIdentifier "_class3" ∧
    (pick "_class" ["_class", "_class2"]).1 = "_class3" ∧ FirstFree "_class" ["_class", "_class2"] "_class3" := by
  have camel : ∀ base ∈ classNames, ∃ text, base ∈ camelNames text := by
    simp only [classNames, List.forall_mem_cons]
    refine ⟨⟨"Class!", ?_⟩, ⟨"text/x-class; v=1", ?_⟩, ⟨"2nd class", ?_⟩, ⟨"class", ?_⟩, List.forall_mem_nil _⟩ <;>
      simp [camelNames]
  have evaluated : (pickAll ["_class2"] classNames).1 = ["_class", "_class3", "_2ndClass", "_class4"] := by
    decide +kernel
  have third : (pick "_class" ["_class", "_class2"]).1 = "_class3" := by decide +kernel
  obtain ⟨_, distinct, _, _, plain⟩ := camel_names_picked_apart.2 ["_class2"] classNames
  have member : "_class" ∈ camelNames "class" := by decide +kernel
  obtain ⟨first, _⟩ := (camel_names_picked_apart.1 "class" "_class" member).2 ["_class", "_class2"]
  exact ⟨camel, evaluated, distinct, plain camel "_class3" (by rw [evaluated]; simp), third, third ▸ first⟩

end ApiContract.Identifier
