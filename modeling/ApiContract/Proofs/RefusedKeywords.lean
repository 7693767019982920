import ApiContract.Validator.OfSchema
import Mathlib.Logic.Relation

namespace ApiContract

-- A schema has no validator exactly if compiling it meets a keyword that no validator can express, and
-- the first such keyword is the error.

section Reports

variable {ε α β : Type}

theorem findSome?_cons_or (found : α → Option β) (x : α) (rest : List α) :
    (x :: rest).findSome? found = (found x).or (rest.findSome? found) := by
  rw [List.findSome?_cons]
  cases found x <;> rfl

theorem findSome?_flatMap (found : β → Option ε) (f : α → List β) (xs : List α) :
    (xs.flatMap f).findSome? found = xs.findSome? fun x => (f x).findSome? found := by
  induction xs with
  | nil => rfl
  | cons x rest ih => rw [List.flatMap_cons, List.findSome?_append, findSome?_cons_or, ih]

-- The computation fails with the error that was found, and succeeds if none was.
def Reports : Option ε → Except ε α → Prop
  | some e, result => result = .error e
  | none, result => ∃ x, result = .ok x

theorem reports_ok (x : α) : Reports none (.ok x : Except ε α) := ⟨x, rfl⟩

theorem reports_map {found : Option ε} {result : Except ε α} (reports : Reports found result) (f : α → β) :
    Reports found (result.map f) := by
  cases found with
  | some e =>
    cases reports
    rfl
  | none =>
    obtain ⟨x, rfl⟩ := reports
    exact reports_ok (f x)

-- What is found later counts only if nothing was found before.
theorem reports_bind {found later : Option ε} {result : Except ε α} {f : α → Except ε β}
    (first : Reports found result) (next : ∀ x, Reports later (f x)) : Reports (found.or later) (result.bind f) := by
  cases found with
  | some e =>
    cases first
    rfl
  | none =>
    obtain ⟨x, rfl⟩ := first
    exact next x

theorem traverse_cons (f : α → Except ε β) (x : α) (rest : List α) :
    traverse f (x :: rest) = (f x).bind fun y => (traverse f rest).map (y :: ·) := by
  rw [traverse]
  cases f x with
  | error e => rfl
  | ok y => cases traverse f rest <;> rfl

theorem reports_traverse {found : α → Option ε} {f : α → Except ε β} {xs : List α}
    (each : ∀ x ∈ xs, Reports (found x) (f x)) : Reports (xs.findSome? found) (traverse f xs) := by
  induction xs with
  | nil => exact reports_ok []
  | cons x rest ih =>
    obtain ⟨first, later⟩ := List.forall_mem_cons.mp each
    rw [traverse_cons, findSome?_cons_or]
    exact reports_bind first fun y => reports_map (ih later) _

theorem reports_error_iff {found : Option ε} {result : Except ε α} (reports : Reports found result) {e : ε} :
    result = .error e ↔ found = some e := by
  cases found with
  | some other =>
    cases reports
    simp
  | none =>
    obtain ⟨x, rfl⟩ := reports
    simp

end Reports

namespace Node

section Order

-- The nodes that compiling a node inside another looks at, in order. A named schema and a reference
-- are looked at, but what is below them is not.
def visited : Node → List Node :=
  fold fun node shape => node :: (if node.target?.isSome then [] else shape.children.flatten)

theorem visited_eq (node : Node) :
    node.visited = node :: (if node.target?.isSome then [] else node.children.flatMap visited) := by
  unfold visited
  rw [fold_eq, Shape.children_map]
  rfl

-- The root is entered whether it has a name or not.
def preorder (node : Node) : List Node := node :: node.children.flatMap visited

-- One step down from a node inside another.
def Enters (node child : Node) : Prop := node.target? = none ∧ child ∈ node.children

-- The node is the root or is reached from it without passing below a named schema or a reference.
def Meets (root inner : Node) : Prop :=
  inner = root ∨ ∃ child ∈ root.children, Relation.ReflTransGen Enters child inner

theorem mem_visited {node inner : Node} : inner ∈ node.visited ↔ Relation.ReflTransGen Enters node inner := by
  induction node using children_induction with
  | step node ih =>
    rw [visited_eq, List.mem_cons, Relation.ReflTransGen.cases_head_iff]
    refine or_congr eq_comm ?_
    cases target : node.target? with
    | some name => simp [Enters, target]
    | none =>
      simp only [Option.isSome_none, Bool.false_eq_true, if_false, List.mem_flatMap, Enters, target, true_and]
      exact exists_congr fun child => and_congr_right fun member => ih child member

theorem mem_preorder {root inner : Node} : inner ∈ root.preorder ↔ root.Meets inner := by
  simp only [preorder, Meets, List.mem_cons, List.mem_flatMap, mem_visited]

-- The error for the first keyword of a node that cannot be expressed.
def refusal? (node : Node) : Option CompileError :=
  node.unsupported.head?.map fun keyword => .unsupported (.keyword keyword)

theorem refusal?_none {node : Node} : node.refusal? = none ↔ node.unsupported = [] := by
  simp [refusal?]

theorem refusal?_some {node : Node} {e : CompileError} : node.refusal? = some e ↔
    ∃ keyword others, node.unsupported = keyword :: others ∧ e = .unsupported (.keyword keyword) := by
  unfold refusal?
  cases node.unsupported with
  | nil => simp
  | cons keyword others => simp [eq_comm]

end Order

end Node

namespace Validator

section Refusals

variable {compile : Node → Compiled} {found : Node → Option CompileError}

theorem nodes_report {nodes : List Node} (each : ∀ node ∈ nodes, Reports (found node) (compile node)) :
    Reports (nodes.findSome? found) (traverse Prod.snd (nodes.map fun node => (node, compile node))) := by
  have all : Reports ((nodes.map fun node => (node, compile node)).findSome? fun pair => found pair.1)
      (traverse Prod.snd (nodes.map fun node => (node, compile node))) :=
    reports_traverse (List.forall_mem_map.mpr each)
  rwa [List.findSome?_map] at all

theorem properties_report {properties : List (String × Node)}
    (each : ∀ property ∈ properties, Reports (found property.2) (compile property.2)) :
    Reports ((properties.map Prod.snd).findSome? found)
      (traverse (fun property : String × Node × Compiled => property.2.2.map fun v => (property.1, v))
        (properties.map fun property => (property.1, property.2, compile property.2))) := by
  have all : Reports
      ((properties.map fun property => (property.1, property.2, compile property.2)).findSome?
        fun property => found property.2.1)
      (traverse (fun property : String × Node × Compiled => property.2.2.map fun v => (property.1, v))
        (properties.map fun property => (property.1, property.2, compile property.2))) :=
    reports_traverse (List.forall_mem_map.mpr fun property member => reports_map (each property member) _)
  rw [List.findSome?_map] at all ⊢
  exact all

theorem ofShape_reports {shape : Shape Node} (each : ∀ child ∈ shape.children, Reports (found child) (compile child)) :
    Reports (shape.children.findSome? found) (ofShape (fun _ => true) (shape.map fun child => (child, compile child))) := by
  cases shape with
  | bool value => cases value <;> exact reports_ok _
  | ref name => exact reports_ok _
  | scalar s => exact reports_ok _
  | array a =>
    obtain ⟨items, places, low, high, unique⟩ := a
    obtain ⟨inPlaces, inItems⟩ := List.forall_mem_append.mp each
    have last : Reports ([items].findSome? found) (compile items) := by
      simpa using inItems items (List.mem_singleton_self _)
    rw [Shape.children, List.findSome?_append]
    cases places with
    | none => exact reports_map last _
    | some places => exact reports_bind (reports_map (nodes_report inPlaces) some) fun _ => reports_map last _
  | object o =>
    obtain ⟨properties, required, additional, low, high⟩ := o
    obtain ⟨declared, others⟩ := List.forall_mem_append.mp each
    have last : Reports ([additional].findSome? found) (compile additional) := by
      simpa using others additional (List.mem_singleton_self _)
    rw [Shape.children, List.findSome?_append]
    exact reports_bind (properties_report (List.forall_mem_map.mp declared)) fun _ => reports_map last _
  | composition op branches => exact reports_map (nodes_report each) _
  | const value => exact reports_ok _
  | enum values => exact reports_ok _

theorem ofAnnotated_reports {node : Node} {shape : Compiled} {below : Option CompileError}
    (shaped : Reports below shape) : Reports (node.refusal?.or below) (ofAnnotated node shape) := by
  unfold ofAnnotated Node.refusal?
  cases node.unsupported with
  | nil => exact reports_map shaped _
  | cons keyword others => rfl

theorem ofNode_reports (node : Node) :
    Reports (node.visited.findSome? Node.refusal?) (ofNode (fun _ => true) node) := by
  induction node using Node.children_induction with
  | step node ih =>
    rw [ofNode, Node.foldPaired_eq, Node.visited_eq, findSome?_cons_or]
    refine ofAnnotated_reports ?_
    cases target : node.target? with
    | some name => exact reports_ok _
    | none =>
      simp only [Option.isSome_none, Bool.false_eq_true, if_false, findSome?_flatMap]
      exact ofShape_reports ih

theorem expanded_reports (node : Node) :
    Reports (node.preorder.findSome? Node.refusal?) (expanded (fun _ => true) node) := by
  rw [Node.preorder, findSome?_cons_or, findSome?_flatMap]
  exact ofAnnotated_reports (ofShape_reports fun child _ => ofNode_reports child)

end Refusals

-- The nodes that are met are looked at in order, each before what is below it; the first keyword of the
-- first one that has any is the error.
theorem refused_for_first_keyword (root : Node) :
    (∀ inner, inner ∈ root.preorder ↔ root.Meets inner) ∧
    ((∃ e, expanded (fun _ => true) root = .error e) ↔ ∃ inner, root.Meets inner ∧ inner.unsupported ≠ []) ∧
    ∀ e, expanded (fun _ => true) root = .error e → ∃ before inner after keyword others,
      root.preorder = before ++ inner :: after ∧ (∀ earlier ∈ before, earlier.unsupported = []) ∧
        inner.unsupported = keyword :: others ∧ e = .unsupported (.keyword keyword) := by
  have reports (e : CompileError) := reports_error_iff (expanded_reports root) (e := e)
  refine ⟨fun inner => Node.mem_preorder, ?_, ?_⟩
  · simp only [reports, ← Option.isSome_iff_exists, ← Node.mem_preorder, List.findSome?_isSome_iff]
    refine exists_congr fun inner => and_congr_right fun _ => ?_
    rw [Option.isSome_iff_ne_none]
    exact not_congr Node.refusal?_none
  · intro e failed
    obtain ⟨before, inner, after, split, own, none⟩ := List.findSome?_eq_some_iff.mp ((reports e).mp failed)
    obtain ⟨keyword, others, listed, equal⟩ := Node.refusal?_some.mp own
    exact ⟨before, inner, after, keyword, others, split,
      fun earlier member => Node.refusal?_none.mp (none earlier member), listed, equal⟩

section Crate

def refusing (keywords : List String) : Node := { unsupported := keywords, shape := .bool true }

-- The owner has a name, so its items are not looked at. Of the pair, the second place comes before the
-- items, and the pair comes before the other keys.
def crate : Node :=
  { name := some "Crate"
    shape := .object {
      properties := [
        ("owner", { name := some "Owner", shape := .array { items := refusing ["not"] } }),
        ("pair", .ofShape (.array
          { items := refusing ["not"], places := some [.string, refusing ["contains", "minContains"]] }))]
      required := []
      additional := refusing ["patternProperties"] } }

theorem crate_refused :
    expanded (fun _ => true) crate = .error (.unsupported (.keyword "contains")) ∧
    (∃ inner, crate.Meets inner ∧ inner.unsupported ≠ []) ∧
    ∃ before inner after others, crate.preorder = before ++ inner :: after ∧
      (∀ earlier ∈ before, earlier.unsupported = []) ∧ inner.unsupported = "contains" :: others := by
  have failed : expanded (fun _ => true) crate = .error (.unsupported (.keyword "contains")) := rfl
  obtain ⟨_, iff, first⟩ := refused_for_first_keyword crate
  obtain ⟨before, inner, after, keyword, others, split, none, listed, equal⟩ := first _ failed
  cases equal
  exact ⟨failed, iff.mp ⟨_, failed⟩, before, inner, after, others, split, none, listed⟩

end Crate

end Validator

end ApiContract
