import ApiContract.Proofs.TypeParts
import ApiContract.TypeExpr.OfSchema

namespace ApiContract.TypeExpr

-- Properties that a type has just if its parts have them. Putting unions and intersections into canonical
-- form keeps such a property, and the type of a schema has it if those of its children do. Only references
-- and index signatures have something of their own to be asked for.

section Hereditary

-- Neither a reference nor an object type with an index signature.
def Ordinary : TypeExpr → Prop
  | reference _ => False
  | record members => ∃ ps : List (Property TypeExpr), members = ps.map Member.property
  | _ => True

def Hereditary (Q : TypeExpr → Prop) : Prop := ∀ type, Ordinary type → (Q type ↔ ∀ part ∈ type.parts, Q part)

namespace Hereditary

variable {Q : TypeExpr → Prop} (hereditary : Hereditary Q)

include hereditary

theorem primitive (p : Primitive) : Q (.primitive p) := (hereditary (.primitive p) trivial).mpr (List.forall_mem_nil _)

theorem literal (l : Literal) : Q (.literal l) := (hereditary (.literal l) trivial).mpr (List.forall_mem_nil _)

theorem union {members : List TypeExpr} : Q (.union members) ↔ ∀ member ∈ members, Q member :=
  hereditary (.union members) trivial

theorem intersection {members : List TypeExpr} : Q (.intersection members) ↔ ∀ member ∈ members, Q member :=
  hereditary (.intersection members) trivial

theorem object {ps : List (Property TypeExpr)} : Q (.object ps) ↔ ∀ p ∈ ps, Q p.type := by
  rw [hereditary (.object ps) ⟨ps, rfl⟩]
  show (∀ part ∈ (ps.map Member.property).flatMap Member.types, Q part) ↔ _
  rw [List.flatMap_map, List.forall_mem_flatMap]
  exact forall₂_congr fun p _ => List.forall_mem_singleton

theorem array {items : TypeExpr} : Q (.array items) ↔ Q items :=
  (hereditary (.array items) trivial).trans List.forall_mem_singleton

theorem tuple {places : List TypeExpr} {rest : Option TypeExpr} :
    Q (.tuple places rest) ↔ (∀ place ∈ places, Q place) ∧ ∀ last, rest = some last → Q last := by
  rw [hereditary (.tuple places rest) trivial]
  show (∀ part ∈ places ++ rest.toList, _) ↔ _
  rw [List.forall_mem_append]
  exact and_congr_right fun _ => by simp

end Hereditary

end Hereditary

section Canonical

namespace Hereditary

variable {Q : TypeExpr → Prop} (hereditary : Hereditary Q) {types : List TypeExpr}

-- Combining two types keeps the property.
def Combines (Q : TypeExpr → Prop) (combine : TypeExpr → TypeExpr → TypeExpr) : Prop :=
  ∀ a b, Q a → Q b → Q (combine a b)

include hereditary

theorem mergePair? {join : TypeExpr → TypeExpr → TypeExpr} (combines : Combines Q join)
    {left right merged : TypeExpr} (found : TypeExpr.mergePair? join left right = some merged)
    (first : Q left) (second : Q right) : Q merged := by
  obtain ⟨ps, qs, pairs, rfl, rfl, _, paired, _, rfl⟩ := mergePair?_some found
  refine hereditary.object.mpr (mergePair?_types paired combines ?_ ?_)
  · exact hereditary.object.mp first
  · exact hereditary.object.mp second

theorem unionOfParts (all : ∀ type ∈ types, Q type) : Q (TypeExpr.unionOfParts types) := by
  unfold TypeExpr.unionOfParts
  split
  · exact hereditary.primitive _
  · exact all _ (List.mem_singleton_self _)
  · exact hereditary.union.mpr all

theorem unionWith {join : TypeExpr → TypeExpr → TypeExpr} (combines : Combines Q join)
    (all : ∀ type ∈ types, Q type) : Q (TypeExpr.unionWith join types) := by
  rw [unionWith_eq]
  refine hereditary.unionOfParts (unionMembers_keep (hereditary.primitive _) ?_ ?_ all)
  · exact fun members => hereditary.union.mp
  · exact fun a b merged => hereditary.mergePair? combines

theorem unionAt (level : Nat) (all : ∀ type ∈ types, Q type) : Q (TypeExpr.unionAt level types) := by
  induction level generalizing types with
  | zero =>
    refine hereditary.unionWith ?_ all
    exact fun a b first second => hereditary.union.mpr (forall_pair first second)
  | succ level ih =>
    refine hereditary.unionWith ?_ all
    exact fun a b first second => ih (forall_pair first second)

theorem unionOf (all : ∀ type ∈ types, Q type) : Q (TypeExpr.unionOf types) := hereditary.unionAt _ all

theorem addProperties {meet : TypeExpr → TypeExpr → TypeExpr} (combines : Combines Q meet)
    (ps qs : List (Property TypeExpr)) (first : Q (.object ps)) (second : Q (.object qs)) :
    Q (.object (TypeExpr.addProperties meet ps qs)) := by
  refine hereditary.object.mpr
    (addProperties_keep ?_ (hereditary.object.mp first) (hereditary.object.mp second))
  exact fun p q => combines p.type q.type

theorem intersectionOfParts (sawUnknown : Bool) (all : ∀ type ∈ types, Q type) :
    Q (TypeExpr.intersectionOfParts sawUnknown types) := by
  unfold TypeExpr.intersectionOfParts
  split
  · split
    · exact hereditary.primitive _
    · exact hereditary.object.mpr (List.forall_mem_nil _)
  · exact all _ (List.mem_singleton_self _)
  · exact hereditary.intersection.mpr all

theorem intersectionWith {meet : TypeExpr → TypeExpr → TypeExpr} (combines : Combines Q meet)
    (all : ∀ type ∈ types, Q type) : Q (TypeExpr.intersectionWith meet types) := by
  rw [intersectionWith_eq]
  split
  · exact hereditary.primitive _
  · refine hereditary.intersectionOfParts _ (intersectionMembers_keep ?_ ?_ all)
    · exact fun members => hereditary.intersection.mp
    · exact hereditary.addProperties combines

theorem intersectionAt (level : Nat) (all : ∀ type ∈ types, Q type) : Q (TypeExpr.intersectionAt level types) := by
  induction level generalizing types with
  | zero =>
    refine hereditary.intersectionWith ?_ all
    exact fun a b first second => hereditary.intersection.mpr (forall_pair first second)
  | succ level ih =>
    refine hereditary.intersectionWith ?_ all
    exact fun a b first second => ih (forall_pair first second)

theorem intersectionOf (all : ∀ type ∈ types, Q type) : Q (TypeExpr.intersectionOf types) :=
  hereditary.intersectionAt _ all

end Hereditary

end Canonical

section Schemas

namespace Hereditary

variable {Q : TypeExpr → Prop} (hereditary : Hereditary Q) {typed : Node → TypeExpr}

include hereditary

theorem orNull (nullable : Bool) {type : TypeExpr} (holds : Q type) : Q (type.orNull nullable) := by
  unfold TypeExpr.orNull
  split
  · exact hereditary.unionOf (forall_pair holds (hereditary.literal _))
  · exact holds

theorem ofLiterals (values : List Json) : Q (.ofLiterals values) := by
  refine hereditary.unionOf (List.forall_mem_map.mpr fun value _ => ?_)
  cases Literal.ofJson? value with
  | none => exact hereditary.primitive _
  | some l => exact hereditary.literal l

theorem ofScalar (scalar : Scalar) : Q (TypeExpr.ofScalar scalar) := by
  unfold TypeExpr.ofScalar
  split
  · split <;> exact hereditary.primitive _
  · exact hereditary.primitive _
  · exact hereditary.primitive _
  · exact hereditary.primitive _
  · exact hereditary.literal _

theorem ofArray {a : ArrayShape Node} (children : ∀ child ∈ (Shape.array a).children, Q (typed child)) :
    Q (TypeExpr.ofShape ((Shape.array a).map fun child => (child, typed child))) := by
  obtain ⟨items, places, low, high, unique⟩ := a
  obtain ⟨inPlaces, inItems⟩ := List.forall_mem_append.mp children
  have itemsHold : Q (typed items) := inItems items (List.mem_singleton_self _)
  cases places with
  | none => exact hereditary.array.mpr itemsHold
  | some places =>
    refine hereditary.tuple.mpr ⟨?_, ?_⟩
    · rw [List.map_map]
      exact List.forall_mem_map.mpr inPlaces
    · intro last equal
      split at equal
      · cases equal
      · cases equal
        exact itemsHold

-- What is asked for where other keys than the declared ones may stand.
def Opened (Q : TypeExpr → Prop) (typed : Node → TypeExpr) (o : ObjectShape Node) : Prop :=
  o.isClosed = false → Q (typed o.additional) →
    Q (record [.index ⟨keyName o.additional.title, string, typed o.additional⟩])

theorem ofObject {o : ObjectShape Node} (opened : Opened Q typed o)
    (children : ∀ child ∈ (Shape.object o).children, Q (typed child)) :
    Q (TypeExpr.ofShape ((Shape.object o).map fun child => (child, typed child))) := by
  obtain ⟨declared, others⟩ := List.forall_mem_append.mp children
  refine hereditary.intersectionOf (List.forall_mem_cons.mpr ⟨?_, ?_⟩)
  · refine hereditary.object.mpr (List.forall_mem_map.mpr (List.forall_mem_map.mpr fun property member => ?_))
    exact declared _ (List.mem_map_of_mem member)
  · split
    · exact List.forall_mem_nil _
    · rename_i closed
      refine List.forall_mem_singleton.mpr (opened ?_ (others _ (List.mem_singleton_self _)))
      exact eq_false_of_ne_true closed

theorem ofShape {shape : Shape Node} (own : ∀ name, shape = .ref name → Q (reference name))
    (opened : ∀ o, shape = .object o → Opened Q typed o) (children : ∀ child ∈ shape.children, Q (typed child)) :
    Q (TypeExpr.ofShape (shape.map fun child => (child, typed child))) := by
  cases shape with
  | bool value => cases value <;> exact hereditary.primitive _
  | ref name => exact own name rfl
  | scalar scalar => exact hereditary.ofScalar scalar
  | array a => exact hereditary.ofArray children
  | object o => exact hereditary.ofObject (opened o rfl) children
  | composition op branches =>
    have all : ∀ type ∈ (branches.map fun node => (node, typed node)).map Prod.snd, Q type := by
      rw [List.map_map]
      exact List.forall_mem_map.mpr children
    cases op with
    | oneOf => exact hereditary.unionOf all
    | anyOf => exact hereditary.unionOf all
    | allOf => exact hereditary.intersectionOf all
  | const value => exact hereditary.ofLiterals [value]
  | enum values => exact hereditary.ofLiterals values

end Hereditary

end Schemas

end ApiContract.TypeExpr
