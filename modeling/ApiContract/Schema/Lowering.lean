import ApiContract.Schema.Size
import ApiContract.Traverse

namespace ApiContract

-- The recursion is on the size, because a branch of a composition is not a
-- part of the schema but a part overlaid on its siblings.

section Traversal

variable {ε N M : Type}

namespace Shape

def traverseMem (shape : Shape N) (f : (child : N) → child ∈ shape.children → Except ε M) :
    Except ε (Shape M) :=
  match shape, f with
  | .bool value, _ => .ok (.bool value)
  | .ref name, _ => .ok (.ref name)
  | .scalar s, _ => .ok (.scalar s)
  | .array ⟨items, none, low, high, unique⟩, f =>
    (f items (by simp [children])).map fun items => .array ⟨items, none, low, high, unique⟩
  | .array ⟨items, some places, low, high, unique⟩, f => do
    let items ← f items (by simp [children])
    let places ← ApiContract.traverseMem places fun place member => f place (by simp [children, member])
    return .array ⟨items, some places, low, high, unique⟩
  | .object ⟨properties, required, additional, low, high⟩, f => do
    let properties ← ApiContract.traverseMem properties fun property member =>
      (f property.2 (by
        simp only [children, List.mem_append, List.mem_map]
        exact .inl ⟨property, member, rfl⟩)).map fun node => (property.1, node)
    let additional ← f additional (by simp [children])
    return .object ⟨properties, required, additional, low, high⟩
  | .composition op branches, f => do
    let branches ← ApiContract.traverseMem branches fun branch member => f branch member
    return .composition op branches
  | .const value, _ => .ok (.const value)
  | .enum values, _ => .ok (.enum values)

def traverse (f : N → Except ε M) : Shape N → Except ε (Shape M)
  | .bool value => .ok (.bool value)
  | .ref name => .ok (.ref name)
  | .scalar s => .ok (.scalar s)
  | .array ⟨items, none, low, high, unique⟩ =>
    (f items).map fun items => .array ⟨items, none, low, high, unique⟩
  | .array ⟨items, some places, low, high, unique⟩ => do
    let items ← f items
    let places ← ApiContract.traverse f places
    return .array ⟨items, some places, low, high, unique⟩
  | .object ⟨properties, required, additional, low, high⟩ => do
    let properties ← ApiContract.traverse
      (fun property => (f property.2).map fun node => (property.1, node)) properties
    let additional ← f additional
    return .object ⟨properties, required, additional, low, high⟩
  | .composition op branches => do
    let branches ← ApiContract.traverse f branches
    return .composition op branches
  | .const value => .ok (.const value)
  | .enum values => .ok (.enum values)

theorem traverseMem_eq (f : N → Except ε M) (shape : Shape N) :
    (shape.traverseMem fun child _ => f child) = shape.traverse f := by
  cases shape with
  | array a =>
    obtain ⟨items, places, low, high, unique⟩ := a
    cases places with
    | none => rfl
    | some places => simp only [traverseMem, traverse, ApiContract.traverseMem_eq]
  | object o =>
    simp only [traverseMem, traverse]
    rw [ApiContract.traverseMem_eq (fun property : String × N =>
      (f property.2).map fun node => (property.1, node))]
  | composition op branches => simp only [traverseMem, traverse, ApiContract.traverseMem_eq]
  | _ => rfl

end Shape

end Traversal

namespace Schema

def lower (schema : Schema) : Except CompileError Node :=
  match _stepped : schema.step with
  | .error e => .error e
  | .ok shape => (shape.traverseMem fun child _ => lower child).map schema.annotate
termination_by schema.size
decreasing_by exact size_of_mem_step _stepped ‹_›

theorem lower_eq (schema : Schema) :
    schema.lower = schema.step.bind fun shape => (shape.traverse lower).map schema.annotate := by
  rw [lower]
  split
  · rename_i e stepped
    rw [stepped]
    rfl
  · rename_i shape stepped
    rw [stepped, Shape.traverseMem_eq]
    rfl

end Schema

end ApiContract
