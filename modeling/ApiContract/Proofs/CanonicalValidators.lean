import ApiContract.Proofs.CompiledSchemas
import ApiContract.Proofs.EqualValidators

namespace ApiContract.Validator

-- The form that compiled validators have, at every depth. Unions and intersections flatten their members
-- once and do not look at what is left, so the form holds only because it is that of all members.

section Form

-- There are at least two members, and no two of them are equal.
structure Several (members : List Validator) : Prop where
  two : 2 ≤ members.length
  differ : members.Pairwise fun a b => (a == b) = false ∧ (b == a) = false

-- What is asked of a validator apart from its parts.
def Tidy : Validator → Prop
  | union members => Several members ∧ ∀ inner, union inner ∉ members
  | intersection members => Several members ∧ (∀ inner, intersection inner ∉ members) ∧ unknown ∉ members
  | refined inner refinements => refinements ≠ [] ∧ ∀ base others, inner ≠ refined base others
  | nullable inner => inner ≠ null ∧ inner ≠ unknown ∧ ∀ base, inner ≠ nullable base
  | _ => True

inductive Canonical : Validator → Prop where
  | intro {v : Validator} (tidy : Tidy v) (inside : ∀ part ∈ v.parts, Canonical part) : Canonical v

theorem Canonical.tidy {v : Validator} (canonical : Canonical v) : Tidy v := by
  cases canonical with
  | intro tidy _ => exact tidy

theorem Canonical.inside {v : Validator} (canonical : Canonical v) : ∀ part ∈ v.parts, Canonical part := by
  cases canonical with
  | intro _ inside => exact inside

theorem canonical_leaf {v : Validator} (tidy : Tidy v) (leaf : v.parts = []) : Canonical v := by
  apply Canonical.intro tidy
  simp [leaf]

theorem canonical_array {items : Validator} (low high : Option Nat) (canonical : Canonical items) :
    Canonical (array items low high) := by
  refine .intro trivial ?_
  simpa [parts] using canonical

theorem canonical_tuple {places : List Validator} {rest : Option Validator}
    (each : ∀ place ∈ places, Canonical place) (last : ∀ v, rest = some v → Canonical v) :
    Canonical (tuple places rest) := by
  refine .intro trivial ?_
  refine List.forall_mem_append.mpr ⟨each, ?_⟩
  simpa using last

theorem canonical_object {fields : List (Field Validator)} {unknownKeys : UnknownKeys Validator}
    (declared : ∀ field ∈ fields, Canonical field.validator)
    (others : ∀ v, unknownKeys = .catchall v → Canonical v) : Canonical (object fields unknownKeys) := by
  refine .intro trivial ?_
  cases unknownKeys with
  | strict => exact List.forall_mem_map.mpr declared
  | catchall v => exact List.forall_mem_cons.mpr ⟨others v rfl, List.forall_mem_map.mpr declared⟩

end Form

section Constructors

variable {vs : List Validator} {v : Validator}

theorem several_distinct (vs : List Validator) (two : 2 ≤ (distinct vs).length) : Several (distinct vs) := by
  refine ⟨two, (pairwise_distinct vs).imp fun {a b} differ => ⟨differ, ?_⟩⟩
  rw [BEq.comm]
  exact differ

theorem unionParts_canonical (canonical : Canonical v) :
    ∀ part ∈ unionParts v, Canonical part ∧ ∀ inner, part ≠ union inner := by
  intro part member
  unfold unionParts at member
  split at member
  · rename_i members
    refine ⟨canonical.inside part member, ?_⟩
    rintro inner rfl
    exact canonical.tidy.2 inner member
  · rename_i other
    cases List.mem_singleton.mp member
    exact ⟨canonical, other⟩

theorem unionOf_canonical (all : ∀ v ∈ vs, Canonical v) : Canonical (unionOf vs) := by
  have each : ∀ part ∈ distinct (vs.flatMap unionParts), Canonical part ∧ ∀ inner, part ≠ union inner := by
    intro part member
    obtain ⟨v, given, inside⟩ := List.mem_flatMap.mp (distinct_subset member)
    exact unionParts_canonical (all v given) part inside
  have several := several_distinct (vs.flatMap unionParts)
  unfold unionOf
  generalize distinct (vs.flatMap unionParts) = kept at each several
  cases kept with
  | nil => exact canonical_leaf trivial rfl
  | cons first rest =>
    cases rest with
    | nil => exact (each first List.mem_cons_self).1
    | cons second rest =>
      refine .intro ⟨several (by simp), ?_⟩ fun part member => (each part member).1
      exact fun inner member => (each _ member).2 inner rfl

theorem intersectionParts_canonical (canonical : Canonical v) :
    ∀ part ∈ intersectionParts v, Canonical part ∧ (∀ inner, part ≠ intersection inner) ∧ part ≠ unknown := by
  intro part member
  unfold intersectionParts at member
  split at member
  · rename_i members
    refine ⟨canonical.inside part member, ?_, ?_⟩
    · rintro inner rfl
      exact canonical.tidy.2.1 inner member
    · rintro rfl
      exact canonical.tidy.2.2 member
  · cases member
  · rename_i other known
    cases List.mem_singleton.mp member
    exact ⟨canonical, other, known⟩

theorem intersectionOf_canonical (all : ∀ v ∈ vs, Canonical v) : Canonical (intersectionOf vs) := by
  have each : ∀ part ∈ distinct (vs.flatMap intersectionParts),
      Canonical part ∧ (∀ inner, part ≠ intersection inner) ∧ part ≠ unknown := by
    intro part member
    obtain ⟨v, given, inside⟩ := List.mem_flatMap.mp (distinct_subset member)
    exact intersectionParts_canonical (all v given) part inside
  have several := several_distinct (vs.flatMap intersectionParts)
  unfold intersectionOf
  generalize distinct (vs.flatMap intersectionParts) = kept at each several
  cases kept with
  | nil => exact canonical_leaf trivial rfl
  | cons first rest =>
    cases rest with
    | nil => exact (each first List.mem_cons_self).1
    | cons second rest =>
      refine .intro ⟨several (by simp), ?_, ?_⟩ fun part member => (each part member).1
      · exact fun inner member => (each _ member).2.1 inner rfl
      · exact fun member => (each _ member).2.2 rfl

-- Refinements are added to those of a refined validator, never around it.
theorem refine_canonical (refinements : List Refinement) (canonical : Canonical v) :
    Canonical (v.refine refinements) := by
  unfold Validator.refine
  split
  · exact canonical
  · rename_i some
    have added : refinements ≠ [] := by simpa using some
    split
    · rename_i inner others
      refine .intro ⟨?_, canonical.tidy.2⟩ canonical.inside
      simp [added]
    · rename_i plain
      refine .intro ⟨added, plain⟩ ?_
      simpa [parts] using canonical

theorem orNull_canonical (canonical : Canonical v) : Canonical v.orNull := by
  unfold orNull
  split
  · exact canonical
  · exact canonical
  · exact canonical
  · rename_i null nullable unknown
    refine .intro ⟨null, unknown, nullable⟩ ?_
    simpa [parts] using canonical

end Constructors

section Schemas

variable {known : String → Bool}

theorem ofScalar_canonical (scalar : Scalar) : Canonical (ofScalar scalar) := by
  have numeric : Canonical (ofNumber scalar) := by
    unfold ofNumber
    dsimp only
    split
    · exact refine_canonical _ (canonical_leaf trivial rfl)
    · exact canonical_leaf trivial rfl
  unfold ofScalar
  split
  · split <;> exact canonical_leaf trivial rfl
  · exact numeric
  · exact numeric
  · exact canonical_leaf trivial rfl
  · exact canonical_leaf trivial rfl

theorem ofLiterals_canonical (values : List Json) : Canonical (ofLiterals values) := by
  refine unionOf_canonical (List.forall_mem_map.mpr fun value _ => ?_)
  cases Literal.ofJson? value <;> exact canonical_leaf trivial rfl

theorem ofArray_canonical {closed : Bool} {a : ArrayShape Validator}
    (children : ∀ child ∈ (Shape.array a).children, Canonical child) : Canonical (ofArray closed a) := by
  obtain ⟨items, places, low, high, unique⟩ := a
  obtain ⟨inPlaces, inItems⟩ := List.forall_mem_append.mp children
  have last : Canonical items := inItems items (List.mem_singleton_self _)
  cases places with
  | none => exact refine_canonical _ (canonical_array low high last)
  | some places =>
    cases closed with
    | true => exact refine_canonical _ (canonical_tuple inPlaces (by simp))
    | false => exact refine_canonical _ (canonical_tuple inPlaces (by simpa using last))

theorem ofObject_canonical {closed : Bool} {o : ObjectShape Validator}
    (children : ∀ child ∈ (Shape.object o).children, Canonical child) : Canonical (ofObject closed o) := by
  obtain ⟨declared, others⟩ := List.forall_mem_append.mp children
  have last : Canonical o.additional := others _ (List.mem_singleton_self _)
  refine refine_canonical _ (canonical_object ?_ ?_)
  · exact List.forall_mem_map.mpr (List.forall_mem_map.mp declared)
  · cases closed with
    | true => simp
    | false => simpa using last

theorem assemble_canonical {paired : Shape (Node × Validator)}
    (each : ∀ pair ∈ paired.children, Canonical pair.2) : Canonical (assemble paired) := by
  have children : ∀ child ∈ (paired.map Prod.snd).children, Canonical child := by
    rw [Shape.children_map]
    exact List.forall_mem_map.mpr each
  cases paired with
  | bool value => cases value <;> exact canonical_leaf trivial rfl
  | ref name => exact canonical_leaf trivial rfl
  | scalar s => exact ofScalar_canonical s
  | array a => exact ofArray_canonical children
  | object o => exact ofObject_canonical children
  | composition op branches =>
    cases op with
    | oneOf => exact unionOf_canonical children
    | anyOf => exact unionOf_canonical children
    | allOf => exact intersectionOf_canonical children
  | const value => exact ofLiterals_canonical [value]
  | enum values => exact ofLiterals_canonical values

theorem orNullIf_canonical (nullable : Bool) {v : Validator} (canonical : Canonical v) :
    Canonical (orNullIf nullable v) := by
  cases nullable with
  | false => exact canonical
  | true => exact orNull_canonical canonical

theorem ofChildren_canonical {shape : Shape Node} (compile : ∀ child ∈ shape.children, ∃ w, ofNode known child = .ok w)
    (each : ∀ child ∈ shape.children, ∀ w, ofNode known child = .ok w → Canonical w) :
    Canonical (ofChildren known shape) := by
  apply assemble_canonical
  rw [Shape.children_map, List.forall_mem_map]
  intro child member
  obtain ⟨w, compiled⟩ := compile child member
  rw [occurring_eq compiled]
  exact each child member w compiled

theorem ofNode_canonical {node : Node} {v : Validator} (compiled : ofNode known node = .ok v) : Canonical v := by
  induction node using Node.children_induction generalizing v with
  | step node ih =>
    rw [ofNode, Node.foldPaired_eq] at compiled
    obtain ⟨_, w, shaped, rfl⟩ := ofAnnotated_ok.mp compiled
    apply orNullIf_canonical
    cases target : node.target? with
    | some name =>
      rw [target] at shaped
      dsimp only [ofReference] at shaped
      split at shaped
      · cases shaped
        exact canonical_leaf trivial rfl
      · cases shaped
    | none =>
      rw [target] at shaped
      obtain ⟨children, _, rfl⟩ := ofShape_ok.mp shaped
      exact ofChildren_canonical children fun child member w made => ih child member made

-- Whatever a schema compiles to is in this form, down to the last part.
theorem validators_are_canonical {node : Node} {v : Validator} (compiled : expanded known node = .ok v) :
    Canonical v := by
  obtain ⟨_, children, _, rfl⟩ := expanded_ok.mp compiled
  apply orNullIf_canonical
  exact ofChildren_canonical children fun child _ w made => ofNode_canonical made

end Schemas

section Gear

def choice (op : Composition) (branches : List Node) : Node := .ofShape (.composition op branches)

-- Of what all is asked of a gear, `true` asks nothing, the inner list asks for a part once more, and the
-- string comes twice.
def gear : Node :=
  choice .allOf [
    .any,
    choice .anyOf [.string, { Node.list .string with nullable := true }, .string],
    choice .allOf [.reference "Part", .ofShape (.scalar
      { type := .integer, multipleOf := some (.ofInt 2), minimum := some (.ofInt 4) })],
    .reference "Part"]

def gearValidator : Validator :=
  .intersection [
    .union [.string {}, .nullable (.array (.string {}) none none)],
    .lazy "Part",
    .refined (.number { integer := true, multipleOf := some (.ofInt 2) })
      [.range (some (.inclusive (.ofInt 4))) none]]

theorem gear_canonical : expanded (fun _ => true) gear = .ok gearValidator ∧ Canonical gearValidator := by
  have compiled : expanded (fun _ => true) gear = .ok gearValidator := rfl
  exact ⟨compiled, validators_are_canonical compiled⟩

end Gear

end ApiContract.Validator
