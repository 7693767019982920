import ApiContract.Schema.Lowering

namespace ApiContract

-- A lowering goes on to objects that are no parts of the schema: a branch takes over the keywords beside
-- its composition, and with them the compositions that are left. Each of these objects is still smaller
-- than the one that it comes from, so there is one function that lowers every schema in this way.

theorem Shape.traverse_congr {ε N M : Type} {f g : N → Except ε M} {shape : Shape N}
    (same : ∀ child ∈ shape.children, f child = g child) : shape.traverse f = shape.traverse g := by
  have equal : (fun child (_ : child ∈ shape.children) => f child) = fun child _ => g child := by
    funext child member
    exact same child member
  rw [← Shape.traverseMem_eq, equal, Shape.traverseMem_eq]

namespace Schema

-- The lowering of the second schema calls that of the first.
def Calls (child schema : Schema) : Prop := ∃ shape, schema.step = .ok shape ∧ child ∈ shape.children

-- One level of a lowering: the children are lowered by `recur`.
def lowering (recur : Schema → Except CompileError Node) (schema : Schema) : Except CompileError Node :=
  schema.step.bind fun shape => (shape.traverse recur).map schema.annotate

theorem calls_wellFounded : WellFounded Calls := by
  refine Subrelation.wf (fun {child schema} calls => ?_) (measure size).wf
  obtain ⟨shape, stepped, member⟩ := calls
  exact size_of_mem_step stepped member

section Recursion

variable {f g : Schema → Except CompileError Node} {schema : Schema}

theorem lowering_congr (called : ∀ child, Calls child schema → f child = g child) :
    lowering f schema = lowering g schema := by
  unfold lowering
  cases stepped : schema.step with
  | error e => rfl
  | ok shape =>
    have same : shape.traverse f = shape.traverse g :=
      Shape.traverse_congr fun child member => called child ⟨shape, stepped, member⟩
    simp only [Except.bind, same]

theorem lower_lowering : lower = lowering lower := funext lower_eq

theorem lowering_unique (first : f = lowering f) (second : g = lowering g) : f = g := by
  funext schema
  induction schema using calls_wellFounded.induction with
  | _ schema ih =>
    rw [first, second]
    exact lowering_congr ih

end Recursion

-- Each call is one of the kinds that an object passes on, and these are smaller whatever the object; so
-- no calls go on for ever, and the lowering is the one function that satisfies its equation.
theorem lowering_calls_decrease :
    (∀ (k : Keywords Schema) (child : Schema), k.PassesOn child → child.size < (object k).size) ∧
    (∀ child schema : Schema, Calls child schema → ∃ k, schema = object k ∧ k.PassesOn child) ∧
    WellFounded Calls ∧
    (∀ f g schema, (∀ child, Calls child schema → f child = g child) →
      lowering f schema = lowering g schema) ∧
    ∀ recur, recur = lowering recur ↔ recur = lower := by
  refine ⟨?_, ?_, calls_wellFounded, fun f g schema => lowering_congr, fun recur => ⟨fun solves => ?_, ?_⟩⟩
  · intro k child passed
    rw [size_object]
    exact Keywords.size_of_passesOn passed
  · rintro child schema ⟨shape, stepped, member⟩
    exact passesOn_of_step stepped member
  · exact lowering_unique solves lower_lowering
  · rintro rfl
    exact lower_lowering

-- Two compositions, one inside the other, beside a list of types and a property.
def nested : Keywords Schema :=
  { oneOf := some [.bool true, .object { allOf := some [.bool true, .object { title := some "Named" }] }]
    anyOf := some [.object { types := some (.single "object") }]
    types := some (.several ["object", "array"])
    properties := some [("name", .object { types := some (.single "string") })] }

-- Its second branch gains the other composition, the types and the property.
def nestedBranch : Keywords Schema :=
  (nested.siblings.without .oneOf).overlay { allOf := some [.bool true, .object { title := some "Named" }] }

theorem nested_branch_smaller :
    nested.PassesOn (object nestedBranch) ∧ nestedBranch.anyOf.isSome ∧ nestedBranch.properties.isSome ∧
      (object nestedBranch).size < (object nested).size := by
  have passed : nested.PassesOn (object nestedBranch) :=
    .overlaid rfl (List.mem_cons_of_mem _ (List.mem_singleton_self _))
  exact ⟨passed, rfl, rfl, lowering_calls_decrease.1 nested _ passed⟩

end Schema

end ApiContract
