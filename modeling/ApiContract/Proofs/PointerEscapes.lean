import ApiContract.Proofs.LoadedDescriptions
import Mathlib.Data.List.Chain

namespace ApiContract

-- A reference names its definition by the last part of a pointer, in which a tilde and a slash are
-- written as escapes.

-- Writes `text` for every `c`.
def writeFor (c : Char) (text : List Char) (name : List Char) : List Char :=
  name.flatMap fun d => if d = c then text else [d]

-- A name as it stands in a pointer: every tilde is written `~0`, and then every slash `~1`.
def escapePointer (name : List Char) : List Char := writeFor '/' ['~', '1'] (writeFor '~' ['~', '0'] name)

section Escapes

variable {c first second : Char} {name rest : List Char}

theorem writeFor_self (text : List Char) : writeFor c text (c :: name) = text ++ writeFor c text name := by
  simp [writeFor]

theorem writeFor_other {d : Char} (text : List Char) (other : d ≠ c) :
    writeFor c text (d :: name) = d :: writeFor c text name := by
  simp [writeFor, other]

theorem replaceAll_pair : replaceAll first second c (first :: second :: rest) =
    c :: replaceAll first second c rest := by
  simp [replaceAll]

-- A character is left alone unless it opens an escape.
theorem replaceAll_cons {d : Char} (kept : ∀ e ∈ rest.head?, ¬ (d = first ∧ e = second)) :
    replaceAll first second c (d :: rest) = d :: replaceAll first second c rest := by
  cases rest with
  | nil => rfl
  | cons e rest => rw [replaceAll, if_neg (kept e rfl)]

-- Replacing undoes writing where no two neighbours of the name look like an escape. A neighbour that is
-- written as an escape itself does not count: it starts with `first`.
theorem replaceAll_writeFor (apart : first ≠ second)
    (free : name.IsChain fun d e => d = c ∨ ¬ (d = first ∧ e = second)) :
    replaceAll first second c (writeFor c [first, second] name) = name := by
  induction name with
  | nil => rfl
  | cons d name ih =>
    have later := ih free.of_cons
    by_cases written : d = c
    · rw [written, writeFor_self]
      exact replaceAll_pair.trans (congrArg (c :: ·) later)
    · rw [writeFor_other _ written, replaceAll_cons, later]
      cases name with
      | nil => exact fun e absent => by cases absent
      | cons e name =>
        by_cases next : e = c
        · rw [next, writeFor_self]
          rintro _ ⟨⟩ ⟨_, equal⟩
          exact apart equal
        · rw [writeFor_other _ next]
          rintro _ ⟨⟩
          exact (List.isChain_cons_cons.mp free).1.resolve_left written

-- Once every tilde is written `~0`, none stands before a one.
theorem tildes_written (name : List Char) :
    (writeFor '~' ['~', '0'] name).IsChain fun d e => d = '/' ∨ ¬ (d = '~' ∧ e = '1') := by
  induction name with
  | nil => exact .nil
  | cons d name ih =>
    have start (e : Char) (other : e ≠ '~') : (e :: writeFor '~' ['~', '0'] name).IsChain
        fun d e => d = '/' ∨ ¬ (d = '~' ∧ e = '1') :=
      List.isChain_cons.mpr ⟨fun _ _ => .inr fun both => other both.1, ih⟩
    by_cases tilde : d = '~'
    · rw [tilde, writeFor_self]
      exact .cons_cons (by decide) (start '0' (by decide))
    · rw [writeFor_other _ tilde]
      exact start d tilde

-- The slashes are undone first, so a written tilde is never taken for half of a slash.
theorem unescapePointer_escapePointer (name : List Char) : unescapePointer (escapePointer name) = name := by
  unfold unescapePointer escapePointer
  rw [replaceAll_writeFor (by decide) (tildes_written name), replaceAll_writeFor (by decide)]
  refine (List.pairwise_of_forall fun d e => ?_).isChain
  by_cases tilde : d = '~'
  · exact .inl tilde
  · exact .inr fun both => tilde both.1

theorem writeFor_ne_nil {text : List Char} (some : text ≠ []) (given : name ≠ []) : writeFor c text name ≠ [] := by
  cases name with
  | nil => exact absurd rfl given
  | cons d name =>
    by_cases equal : d = c
    · rw [equal, writeFor_self]
      exact List.append_ne_nil_of_left_ne_nil some _
    · rw [writeFor_other _ equal]
      exact List.cons_ne_nil _ _

theorem slash_notMem_escapePointer (name : List Char) : '/' ∉ escapePointer name := by
  intro member
  obtain ⟨d, _, written⟩ := List.mem_flatMap.mp member
  split at written
  · revert written
    decide
  · rename_i other
    exact other (List.mem_singleton.mp written).symm

end Escapes

section References

-- What follows the place of the definitions in a reference, if that can be a name.
def NamePart (reference : String) (rest : List Char) : Prop :=
  reference.toList = componentStart.toList ++ rest ∧ rest ≠ [] ∧ '/' ∉ rest

theorem componentName_named {reference : String} {rest : List Char} (part : NamePart reference rest) :
    componentName reference = .ok (String.ofList (unescapePointer rest)) := by
  obtain ⟨whole, some, single⟩ := part
  unfold componentName
  rw [Text.dropStart?_eq_some.mpr whole]
  simp [some, single]

theorem componentName_foreign {reference : String} (foreign : ∀ rest, ¬ NamePart reference rest) :
    componentName reference = .error (.document (.foreignReference reference)) := by
  unfold componentName
  split
  · rename_i rest found
    split
    · rfl
    · rename_i proper
      refine absurd ⟨Text.dropStart?_eq_some.mp found, ?_⟩ (foreign rest)
      simpa using proper
  · rfl

theorem lower_ref (reference : String) : (Schema.object { ref := some reference }).lower =
    (componentName reference).map fun name => .ofShape (.ref name) := by
  rw [Schema.lower_eq]
  show ((componentName reference).map Shape.ref).bind _ = _
  cases componentName reference with
  | error e => rfl
  | ok name => rfl

theorem decoder_ref (levels : Nat) (reference : String) :
    Schema.decoder (levels + 1) (.object [(some "$ref", .string (some reference))]) =
      some (.object { ref := some reference }) := by
  refine Schema.decoder_single (by decide) rfl ?_
  unfold Schema.keywords? Schema.limits?
  simp (disch := decide) only [Schema.optional?_other]
  rfl

end References

-- A reference to the escaped name of a definition is read and lowered to that very name. Of all texts
-- just those fail that do not point at a definition, and they are named in the error.
theorem reference_names_definition :
    (∀ levels reference, Schema.decoder (levels + 1) (.object [(some "$ref", .string (some reference))]) =
      some (.object { ref := some reference })) ∧
    (∀ name : String, name ≠ "" →
      (Schema.object { ref := some (componentStart ++ String.ofList (escapePointer name.toList)) }).lower =
        .ok (.ofShape (.ref name))) ∧
    ∀ reference : String,
      ((∃ fault, (Schema.object { ref := some reference }).lower = .error (.document fault)) ↔
        ∀ rest : String, reference = componentStart ++ rest → rest = "" ∨ '/' ∈ rest.toList) ∧
      ∀ e, (Schema.object { ref := some reference }).lower = .error e →
        e = .document (.foreignReference reference) := by
  refine ⟨decoder_ref, ?_, ?_⟩
  · intro name given
    have part : NamePart (componentStart ++ String.ofList (escapePointer name.toList))
        (escapePointer name.toList) := by
      refine ⟨by simp, ?_, slash_notMem_escapePointer _⟩
      refine writeFor_ne_nil (by decide) (writeFor_ne_nil (by decide) ?_)
      simpa using given
    rw [lower_ref, componentName_named part, unescapePointer_escapePointer, String.ofList_toList]
    rfl
  · intro reference
    rw [lower_ref]
    by_cases named : ∃ rest, NamePart reference rest
    · obtain ⟨rest, part⟩ := named
      rw [componentName_named part]
      refine ⟨iff_of_false (by rintro ⟨fault, ⟨⟩⟩) ?_, by rintro e ⟨⟩⟩
      intro foreign
      obtain ⟨whole, some, single⟩ := part
      rcases foreign (String.ofList rest) (String.toList_injective (by simpa using whole)) with empty | slashed
      · exact some (by simpa using empty)
      · exact single (by simpa using slashed)
    · rw [componentName_foreign (not_exists.mp named)]
      refine ⟨iff_of_true ⟨_, rfl⟩ ?_, ?_⟩
      · rintro rest rfl
        by_contra proper
        obtain ⟨some, single⟩ := not_or.mp proper
        exact named ⟨rest.toList, by simp, by simpa using some, single⟩
      · rintro e ⟨⟩
        rfl

-- A name that looks like escapes itself.
theorem tilde_slash_named : "~0/~1" ≠ "" ∧
    (Schema.object { ref := some "#/components/schemas/~00~1~01" }).lower = .ok (.ofShape (.ref "~0/~1")) := by
  have spelled : componentStart ++ String.ofList (escapePointer "~0/~1".toList) = "#/components/schemas/~00~1~01" := by
    decide +kernel
  have given : "~0/~1" ≠ "" := by decide
  exact ⟨given, spelled ▸ reference_names_definition.2.1 "~0/~1" given⟩

end ApiContract
