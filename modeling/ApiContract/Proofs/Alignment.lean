import ApiContract.Pattern.Search
import ApiContract.Proofs.IntersectionMeaning
import ApiContract.Proofs.PassingValues
import ApiContract.Proofs.UnionMeaning
import ApiContract.TypeExpr.OfSchema

namespace ApiContract.Alignment

open Validator (Check evaluate)
open Validator.Outcome
open TypeExpr (Inhabits Reading)

-- The type and the validator of a schema are made by two folds that share nothing but the traversal.
-- Every value that passes the validator is a value of the type. Nothing is said of the other
-- direction: a type knows no patterns, bounds or counts.

variable {r : Reading} {resolve : String → Check}

def Aligned [Pattern.Engine] (r : Reading) (resolve : String → Check) (validator : Validator)
    (type : TypeExpr) : Prop :=
  ∀ value, evaluate resolve validator value = .ok [] → Inhabits r [] type value

section Constructors

variable [Pattern.Engine]

theorem aligned_unionOf {validators : List Validator} {types : List TypeExpr}
    (related : List.Forall₂ (Aligned r resolve) validators types) :
    Aligned r resolve (.unionOf validators) (.unionOf types) := by
  intro value passed
  obtain ⟨validator, member, passed⟩ := Validator.unionOf_pass passed
  obtain ⟨type, inside, aligned⟩ := related_left related member
  exact TypeExpr.unionOf_inhabits ⟨type, inside, aligned value passed⟩

theorem aligned_intersectionOf {validators : List Validator} {types : List TypeExpr}
    (related : List.Forall₂ (Aligned r resolve) validators types) :
    Aligned r resolve (.intersectionOf validators) (.intersectionOf types) := by
  intro value passed
  refine TypeExpr.intersectionOf_inhabits (.intersection ?_)
  intro type member
  obtain ⟨validator, inside, aligned⟩ := related_right related member
  exact TypeExpr.inhabits_anywhere (aligned value (Validator.intersectionOf_pass.mp passed validator inside))

theorem aligned_refine {validator : Validator} {type : TypeExpr} (refinements : List Refinement)
    (aligned : Aligned r resolve validator type) :
    Aligned r resolve (validator.refine refinements) type := by
  intro value passed
  exact aligned value (Validator.refine_pass.mp passed).1

theorem aligned_orNull (nullable : Bool) {validator : Validator} {type : TypeExpr}
    (aligned : Aligned r resolve validator type) :
    Aligned r resolve (if nullable then validator.orNull else validator) (type.orNull nullable) := by
  cases nullable with
  | false => exact aligned
  | true =>
    intro value passed
    apply TypeExpr.unionOf_inhabits
    rcases Validator.orNull_pass.mp passed with rfl | passed
    · exact ⟨.null, by simp, .literal rfl⟩
    · exact ⟨type, List.mem_cons_self, aligned value passed⟩

end Constructors

section Leaves

variable [Pattern.Engine]

theorem aligned_unknown (validator : Validator) : Aligned r resolve validator .unknown :=
  fun _ _ => .primitive trivial

theorem aligned_never : Aligned r resolve .never .never := by
  intro value passed
  cases passed

theorem aligned_ofNumber (scalar : Scalar) : Aligned r resolve (.ofNumber scalar) .number := by
  intro value passed
  obtain ⟨n, rfl, _⟩ := Validator.ofNumber_pass.mp passed
  exact .primitive ⟨n, rfl⟩

theorem aligned_ofScalar (scalar : Scalar) :
    Aligned r resolve (.ofScalar scalar) (.ofScalar scalar) := by
  unfold Validator.ofScalar TypeExpr.ofScalar
  intro value
  cases scalar.type with
  | string =>
    dsimp only
    split
    · intro passed
      cases passed
    · intro passed
      cases value with
      | string s => exact .primitive ⟨s, rfl⟩
      | _ => cases passed
  | number => exact aligned_ofNumber scalar value
  | integer => exact aligned_ofNumber scalar value
  | boolean =>
    intro passed
    cases value with
    | bool b => exact .primitive ⟨b, rfl⟩
    | _ => cases passed
  | null =>
    intro passed
    cases value with
    | null => exact .literal rfl
    | _ => cases passed

theorem aligned_ofLiterals (values : List Json) :
    Aligned r resolve (.ofLiterals values) (.ofLiterals values) := by
  apply aligned_unionOf
  rw [List.forall₂_map_left_iff, List.forall₂_map_right_iff]
  refine List.forall₂_same.mpr fun value _ => ?_
  cases Literal.ofJson? value with
  | none => exact aligned_unknown _
  | some l =>
    intro value passed
    exact .literal (require_pass.mp passed)

end Leaves

section Arrays

variable [Pattern.Engine]

theorem aligned_array {items : Validator} {type : TypeExpr} (low high : Option Nat)
    (aligned : Aligned r resolve items type) :
    Aligned r resolve (.array items low high) (.array type) := by
  intro value passed
  obtain ⟨values, rfl, _, each⟩ := Validator.array_pass.mp passed
  refine .array ?_
  intro item member
  obtain ⟨n, found⟩ := List.mem_iff_getElem?.mp member
  exact aligned item (each n item found)

theorem aligned_tuple {places : List Validator} {types : List TypeExpr} {rest : Option Validator}
    {last : Option TypeExpr} (related : List.Forall₂ (Aligned r resolve) places types)
    (ending : Option.Rel (Aligned r resolve) rest last) :
    Aligned r resolve (.tuple places rest) (.tuple types last) := by
  intro value passed
  obtain ⟨values, rfl, ⟨enough, atMost⟩, each⟩ := Validator.tuple_pass.mp passed
  refine .tuple (related.length_eq ▸ enough) ?_ ?_
  · intro none
    cases none
    cases ending
    exact related.length_eq ▸ Nat.le_antisymm (atMost rfl) enough
  · intro n item type found placed
    have both := rel_or (related_getElem? related n) ending
    generalize chosen : (places[n]?).or rest = validator at both
    rw [placed] at both
    cases both with
    | some aligned => exact aligned item (each n item found _ chosen)

end Arrays

section Objects

variable [Pattern.Engine]

structure FieldAligned (r : Reading) (resolve : String → Check) (field : Field Validator)
    (property : Property TypeExpr) : Prop where
  name : field.name = property.name
  optional : field.optional = property.optional
  type : Aligned r resolve field.validator property.type

theorem names_aligned {fields : List (Field Validator)} {properties : List (Property TypeExpr)}
    (related : List.Forall₂ (FieldAligned r resolve) fields properties) :
    fields.map Field.name = properties.map Property.name := by
  induction related with
  | nil => rfl
  | cons first _ ih => rw [List.map_cons, List.map_cons, first.name, ih]

variable {fields : List (Field Validator)} {properties : List (Property TypeExpr)}
  {unknownKeys : UnknownKeys Validator} {entries : List (String × Json)}

theorem declared_holds (related : List.Forall₂ (FieldAligned r resolve) fields properties)
    (passes : Validator.ObjectPasses resolve fields unknownKeys entries) {outer : List String} :
    Inhabits r outer (.object properties) (.object entries) := by
  refine TypeExpr.inhabits_object.mpr ?_
  intro property member
  obtain ⟨field, inside, aligned⟩ := related_right related member
  refine ⟨rfl, ?_, ?_⟩
  · intro optional
    have found := passes.required field inside (aligned.optional.trans optional)
    rwa [aligned.name] at found
  · intro x found
    refine aligned.type x (passes.present field inside x ?_)
    rwa [aligned.name]

-- The index signature stands in an operand of its own: the keys that it leaves alone are those of
-- the operand beside it.
theorem others_hold {rest : Validator} {signature : IndexSignature TypeExpr}
    (related : List.Forall₂ (FieldAligned r resolve) fields properties)
    (aligned : Aligned r resolve rest signature.value)
    (passes : Validator.ObjectPasses resolve fields (.catchall rest) entries) {outer : List String}
    (declared : ∀ key ∈ properties.map Property.name, key ∈ outer) :
    Inhabits r outer (.record [.index signature]) (.object entries) := by
  refine .record (fun _ => rfl) ?_ ?_ ?_
  · intro p member
    cases List.mem_singleton.mp member
  · intro p x member
    cases List.mem_singleton.mp member
  · intro s key x member entry free _
    cases List.mem_singleton.mp member
    refine aligned x (passes.others rest rfl key x entry ?_)
    rw [names_aligned related]
    exact fun own => free (declared key own)

theorem fields_aligned {o : ObjectShape Validator} {t : ObjectShape (Node × TypeExpr)}
    (required : o.required = t.required)
    (declared : List.Forall₂ (fun p q => p.1 = q.1 ∧ Aligned r resolve p.2 q.2.2)
      o.properties t.properties) :
    List.Forall₂ (FieldAligned r resolve)
      (o.properties.map fun p => ⟨p.1, p.2, !o.isRequired p.1⟩)
      (t.properties.map fun q => ⟨q.1, q.2.2, !t.isRequired q.1, q.2.1.description⟩) := by
  rw [List.forall₂_map_left_iff, List.forall₂_map_right_iff]
  refine declared.imp ?_
  rintro p q ⟨name, aligned⟩
  refine ⟨name, ?_, aligned⟩
  show (!o.required.contains p.1) = !t.required.contains q.1
  rw [required, name]

theorem aligned_ofObject (exempting : r.exempting = true) {closed : Bool} {o : ObjectShape Validator}
    {t : ObjectShape (Node × TypeExpr)} (closes : t.additional.1.isFalse = closed)
    (required : o.required = t.required)
    (declared : List.Forall₂ (fun p q => p.1 = q.1 ∧ Aligned r resolve p.2 q.2.2)
      o.properties t.properties)
    (additional : Aligned r resolve o.additional t.additional.2) :
    Aligned r resolve (.ofObject closed o) (.ofObject t) := by
  refine aligned_refine _ ?_
  intro value passed
  obtain ⟨entries, rfl, passes⟩ := Validator.object_pass.mp passed
  have related := fields_aligned required declared
  refine TypeExpr.intersectionOf_inhabits (.intersection ?_)
  rw [closes]
  intro type member
  rcases List.mem_cons.mp member with rfl | other
  · exact declared_holds related passes
  · cases closed with
    | true => cases other
    | false =>
      cases List.mem_singleton.mp other
      refine others_hold related additional passes ?_
      intro key own
      refine TypeExpr.mem_exempt.mpr ⟨exempting, _, List.mem_cons_self, ?_⟩
      rwa [TypeExpr.keys_object]

end Objects

-- Both folds look at a node in the same way, so what holds of the children carries over to the node.
section Schemas

variable [Pattern.Engine] {known : String → Bool} {compile : Node → Validator.Compiled} {typed : Node → TypeExpr}

-- Where the validator of a reference passes, the reference holds.
def Follows (r : Reading) (resolve : String → Check) : Prop :=
  ∀ name value, resolve name value = .ok [] → Inhabits r [] (.reference name) value

-- Where a node has a validator, it is aligned with the type of the node.
def NodeAligned (r : Reading) (resolve : String → Check) (compile : Node → Validator.Compiled)
    (typed : Node → TypeExpr) (node : Node) : Prop :=
  ∀ validator, compile node = .ok validator → Aligned r resolve validator (typed node)

theorem aligned_ofReference (follows : Follows r resolve) {name : String} {validator : Validator}
    (compiled : Validator.ofReference known name = .ok validator) :
    Aligned r resolve validator (.reference name) := by
  unfold Validator.ofReference at compiled
  split at compiled
  · cases compiled
    exact follows name
  · cases compiled

theorem aligned_all {nodes : List Node} {validators : List Validator}
    (children : ∀ node ∈ nodes, NodeAligned r resolve compile typed node)
    (compiled : traverse Prod.snd (nodes.map fun node => (node, compile node)) = .ok validators) :
    List.Forall₂ (Aligned r resolve) validators (nodes.map typed) := by
  have related := List.forall₂_map_left_iff.mp (traverse_ok compiled)
  rw [List.forall₂_map_right_iff]
  exact (related_imp related children).flip

theorem aligned_arrayShape {a : ArrayShape Node} {validator : Validator}
    (children : ∀ child ∈ (Shape.array a).children, NodeAligned r resolve compile typed child)
    (compiled : Validator.ofShape known ((Shape.array a).map fun child => (child, compile child))
      = .ok validator) :
    Aligned r resolve validator
      (TypeExpr.ofShape ((Shape.array a).map fun child => (child, typed child))) := by
  obtain ⟨items, places, low, high, unique⟩ := a
  have itemsAligned : NodeAligned r resolve compile typed items :=
    children items (List.mem_append_right _ (List.mem_singleton_self _))
  cases places with
  | none =>
    obtain ⟨rest, itemsCompiled, next⟩ := bind_ok compiled
    cases next
    exact aligned_refine _ (aligned_array low high (itemsAligned rest itemsCompiled))
  | some places =>
    obtain ⟨_, placesMade, next⟩ := bind_ok compiled
    obtain ⟨checks, placesCompiled, rfl⟩ := map_ok placesMade
    obtain ⟨rest, itemsCompiled, next⟩ := bind_ok next
    cases next
    have related : List.Forall₂ (Aligned r resolve) checks (places.map typed) :=
      aligned_all (fun node member => children node (List.mem_append_left _ member)) placesCompiled
    show Aligned r resolve (Validator.ofArray items.isFalse _)
      (.tuple ((places.map fun node => (node, typed node)).map Prod.snd)
        (if items.isFalse then none else some (typed items)))
    rw [List.map_map]
    cases items.isFalse with
    | true => exact aligned_refine _ (aligned_tuple related .none)
    | false => exact aligned_refine _ (aligned_tuple related (.some (itemsAligned rest itemsCompiled)))

theorem aligned_objectShape (exempting : r.exempting = true) {o : ObjectShape Node} {validator : Validator}
    (children : ∀ child ∈ (Shape.object o).children, NodeAligned r resolve compile typed child)
    (compiled : Validator.ofShape known ((Shape.object o).map fun child => (child, compile child))
      = .ok validator) :
    Aligned r resolve validator
      (TypeExpr.ofShape ((Shape.object o).map fun child => (child, typed child))) := by
  obtain ⟨properties, required, additional, low, high⟩ := o
  obtain ⟨fields, fieldsCompiled, next⟩ := bind_ok compiled
  obtain ⟨rest, restCompiled, next⟩ := bind_ok next
  cases next
  have restAligned : NodeAligned r resolve compile typed additional :=
    children additional (List.mem_append_right _ (List.mem_singleton_self _))
  have related := List.forall₂_map_left_iff.mp (traverse_ok fieldsCompiled)
  have declared : List.Forall₂ (fun p q => p.1 = q.1 ∧ Aligned r resolve p.2 q.2.2) fields
      (properties.map fun property => (property.1, property.2, typed property.2)) := by
    rw [List.forall₂_map_right_iff]
    refine (related_imp related ?_).flip
    intro property member field made
    obtain ⟨validator, compiled, rfl⟩ := map_ok made
    exact ⟨rfl, children property.2 (List.mem_append_left _ (List.mem_map_of_mem member)) validator compiled⟩
  exact aligned_ofObject exempting rfl rfl declared (restAligned rest restCompiled)

theorem aligned_composition {op : Composition} {branches : List Node} {validator : Validator}
    (children : ∀ child ∈ branches, NodeAligned r resolve compile typed child)
    (compiled : Validator.ofShape known
      ((Shape.composition op branches).map fun child => (child, compile child)) = .ok validator) :
    Aligned r resolve validator
      (TypeExpr.ofShape ((Shape.composition op branches).map fun child => (child, typed child))) := by
  obtain ⟨checks, branchesCompiled, next⟩ := bind_ok compiled
  cases next
  have related : List.Forall₂ (Aligned r resolve) checks
      ((branches.map fun node => (node, typed node)).map Prod.snd) := by
    rw [List.map_map]
    exact aligned_all children branchesCompiled
  cases op with
  | oneOf => exact aligned_unionOf related
  | anyOf => exact aligned_unionOf related
  | allOf => exact aligned_intersectionOf related

theorem aligned_ofShape (exempting : r.exempting = true) (follows : Follows r resolve)
    {shape : Shape Node} {validator : Validator}
    (children : ∀ child ∈ shape.children, NodeAligned r resolve compile typed child)
    (compiled : Validator.ofShape known (shape.map fun child => (child, compile child)) = .ok validator) :
    Aligned r resolve validator (TypeExpr.ofShape (shape.map fun child => (child, typed child))) := by
  cases shape with
  | bool value =>
    cases value with
    | true => exact aligned_unknown validator
    | false => cases compiled; exact aligned_never
  | ref name => exact aligned_ofReference follows compiled
  | scalar scalar => cases compiled; exact aligned_ofScalar scalar
  | array a => exact aligned_arrayShape children compiled
  | object o => exact aligned_objectShape exempting children compiled
  | composition op branches => exact aligned_composition children compiled
  | const value => cases compiled; exact aligned_ofLiterals [value]
  | enum values => cases compiled; exact aligned_ofLiterals values

theorem aligned_ofAnnotated {node : Node} {shape : Validator.Compiled} {type : TypeExpr}
    {validator : Validator} (compiled : Validator.ofAnnotated node shape = .ok validator)
    (aligned : ∀ inner, shape = .ok inner → Aligned r resolve inner type) :
    Aligned r resolve validator (type.orNull node.nullable) := by
  unfold Validator.ofAnnotated at compiled
  split at compiled
  · cases compiled
  · obtain ⟨inner, made, rfl⟩ := map_ok compiled
    exact aligned_orNull node.nullable (aligned inner made)

theorem aligned_ofNode (exempting : r.exempting = true) (follows : Follows r resolve)
    (known : String → Bool) (node : Node) :
    NodeAligned r resolve (Validator.ofNode known) TypeExpr.ofNode node := by
  induction node using Node.children_induction with
  | step node ih =>
    intro validator compiled
    rw [Validator.ofNode, Node.foldPaired_eq] at compiled
    rw [TypeExpr.ofNode, Node.foldPaired_eq]
    refine aligned_ofAnnotated compiled ?_
    intro inner made
    cases target : node.target? with
    | some name =>
      rw [target] at made
      exact aligned_ofReference follows made
    | none =>
      rw [target] at made
      exact aligned_ofShape exempting follows ih made

theorem aligned_expanded (exempting : r.exempting = true) (follows : Follows r resolve)
    (known : String → Bool) (node : Node) :
    NodeAligned r resolve (Validator.expanded known) TypeExpr.expanded node := by
  intro validator compiled
  refine aligned_ofAnnotated compiled ?_
  intro inner made
  exact aligned_ofShape exempting follows (fun child _ => aligned_ofNode exempting follows known child) made

end Schemas

section Graphs

-- The validators of all names of a schema graph.
def validators (known : String → Bool) (schemas : List (String × Node)) :
    Except CompileError (List (String × Validator)) :=
  traverse (fun entry => (Validator.expanded known entry.2).map fun v => (entry.1, v)) schemas

-- Every name of the graph holds of what its declaration holds of, and no other name of anything.
def declarations (schemas : List (String × Node)) : Reading where
  declaration name := (schemas.lookup name).map TypeExpr.expanded
  reference _ _ := False
  void _ := False
  binary _ := False
  exempting := true

variable {known : String → Bool} {schemas : List (String × Node)} {table : List (String × Validator)}

theorem definition_compiles (definitions : validators known schemas = .ok table) {name : String}
    {validator : Validator} (found : table.lookup name = some validator) :
    ∃ node, schemas.lookup name = some node ∧ Validator.expanded known node = .ok validator := by
  have related : List.Forall₂
      (fun x y => x.1 = y.1 ∧ Validator.expanded known x.2 = .ok y.2) schemas table := by
    refine related_imp (traverse_ok definitions) ?_
    intro entry _ made mapped
    obtain ⟨v, compiled, rfl⟩ := map_ok mapped
    exact ⟨rfl, compiled⟩
  have both := lookup_related (R := fun node v => Validator.expanded known node = .ok v) related name
  obtain ⟨node, defined, compiled⟩ := rel_some_right both found
  exact ⟨node, defined, compiled⟩

-- By induction on how far references are followed: at each reference that is followed, what the
-- definition asks is read with the meaning that references have one step further in.
theorem follows_within [Pattern.Engine] (definitions : validators known schemas = .ok table) (limit : Nat) :
    Follows (declarations schemas) (Validator.resolveWithin (fun name => table.lookup name) limit) := by
  induction limit with
  | zero =>
    intro name value passed
    cases passed
  | succ limit ih =>
    intro name value passed
    unfold Validator.resolveWithin at passed
    split at passed
    · cases passed
    · rename_i validator found
      obtain ⟨node, defined, compiled⟩ := definition_compiles definitions found
      have declared : (schemas.lookup name).map TypeExpr.expanded = some (TypeExpr.expanded node) :=
        congrArg (Option.map TypeExpr.expanded) defined
      exact .declared declared (aligned_expanded rfl ih known node validator compiled value passed)

-- A value without issues is a value of the declared type, wherever the schema and the definitions
-- that it refers to have validators.
theorem passing_inhabits [Pattern.Engine] (known : String → Bool) {node : Node} {validator : Validator} {value : Json}
    (definitions : validators known schemas = .ok table)
    (compiled : Validator.expanded known node = .ok validator)
    (passed : Validator.check table validator value = .ok []) :
    Inhabits (declarations schemas) [] (TypeExpr.expanded node) value :=
  aligned_expanded rfl (follows_within definitions _) known node validator compiled value passed

def tree : Node :=
  { (Node.record [("label", .string), ("children", .list (.reference "Tree"))] ["label"]).closed with
    name := some "Tree" }

def treeValidator : Validator :=
  .object [⟨"label", .string {}, false⟩, ⟨"children", .array (.lazy "Tree") none none, true⟩] .strict

def saplings : Json :=
  .object [("children", .array [.object [("label", .string "ash")], .object [("label", .string "oak")]]),
    ("label", .string "saplings")]

-- A recursive definition, at a value that goes through it twice.
theorem saplings_inhabit_tree :
    validators (· == "Tree") [("Tree", tree)] = .ok [("Tree", treeValidator)] ∧
    Validator.expanded (· == "Tree") { nullable := true, shape := .ref "Tree" }
      = .ok (.nullable (.lazy "Tree")) ∧
    Validator.check [("Tree", treeValidator)] (.nullable (.lazy "Tree")) saplings = .ok [] ∧
    Inhabits (declarations [("Tree", tree)]) []
      (TypeExpr.expanded { nullable := true, shape := .ref "Tree" }) saplings :=
  ⟨rfl, rfl, by rfl, passing_inhabits (· == "Tree") rfl rfl (by rfl)⟩

end Graphs

end ApiContract.Alignment
