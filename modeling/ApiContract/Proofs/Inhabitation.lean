import ApiContract.Proofs.Outcomes
import ApiContract.TypeExpr.Simplify

namespace ApiContract

-- The fields of a value; only an object has any.
def Json.entries : Json → List (String × Json)
  | object fields => fields
  | _ => []

def Json.isObject : Json → Bool
  | object _ => true
  | _ => false

namespace TypeExpr

-- What a type leaves open: the meaning of names and of the two kinds that no JSON value settles.
-- A declared name holds wherever its declaration does; `reference` says where names hold besides.
structure Reading where
  declaration : String → Option TypeExpr
  reference : String → Json → Prop
  void : Json → Prop
  binary : Json → Prop
  -- Properties keep their keys from the index signatures that stand beside them.
  exempting : Bool

-- The keys that an object type declares.
def keys : TypeExpr → List String
  | record members => members.filterMap fun member => match member with
    | .property p => some p.name
    | .index _ => none
  | _ => []

theorem keys_property (p : Property TypeExpr) (rest : List (Member TypeExpr)) :
    keys (record (.property p :: rest)) = p.name :: keys (record rest) := rfl

theorem keys_index (s : IndexSignature TypeExpr) (rest : List (Member TypeExpr)) :
    keys (record (.index s :: rest)) = keys (record rest) := rfl

namespace Reading

variable (r : Reading)

-- The keys that no index signature of these types constrains.
def exempt (types : List TypeExpr) : List String :=
  if r.exempting then types.flatMap keys else []

def primitive : Primitive → Json → Prop
  | .string, v => ∃ s, v = .string s
  | .number, v => ∃ n, v = .number n
  | .boolean, v => ∃ b, v = .bool b
  | .unknown, _ => True
  | .never, _ => False
  | .void, v => r.void v
  | .binary, v => r.binary v

end Reading

-- Which values a type holds of, read structurally. The keys in `outer` are those that types beside
-- this one declare; only an operand of an intersection has any. The empty object type asks nothing,
-- not even that the value is an object.
inductive Inhabits (r : Reading) : (outer : List String) → TypeExpr → Json → Prop where
  | primitive {outer : List String} {p : Primitive} {v : Json} (holds : r.primitive p v) :
      Inhabits r outer (.primitive p) v
  | literal {outer : List String} {l : Literal} {v : Json} (holds : Validator.literalHolds l v = true) :
      Inhabits r outer (.literal l) v
  | declared {outer : List String} {name : String} {type : TypeExpr} {v : Json}
      (found : r.declaration name = some type) (holds : Inhabits r [] type v) :
      Inhabits r outer (.reference name) v
  | reference {outer : List String} {name : String} {v : Json} (holds : r.reference name v) :
      Inhabits r outer (.reference name) v
  | union {outer : List String} {members : List TypeExpr} {member : TypeExpr} {v : Json}
      (inside : member ∈ members) (holds : Inhabits r [] member v) :
      Inhabits r outer (.union members) v
  | intersection {outer : List String} {members : List TypeExpr} {v : Json}
      (all : ∀ member ∈ members, Inhabits r (r.exempt members) member v) :
      Inhabits r outer (.intersection members) v
  | record {outer : List String} {members : List (Member TypeExpr)} {v : Json}
      (shaped : members ≠ [] → v.isObject = true)
      (required : ∀ p, .property p ∈ members → p.optional = false → (v.get? p.name).isSome = true)
      (present : ∀ p x, .property p ∈ members → v.get? p.name = some x → Inhabits r [] p.type x)
      (others : ∀ s key x, .index s ∈ members → (key, x) ∈ v.entries → key ∉ outer →
        key ∉ r.exempt [.record members] → Inhabits r [] s.value x) :
      Inhabits r outer (.record members) v
  | array {outer : List String} {type : TypeExpr} {items : List Json}
      (all : ∀ item ∈ items, Inhabits r [] type item) : Inhabits r outer (.array type) (.array items)
  | tuple {outer : List String} {places : List TypeExpr} {rest : Option TypeExpr} {items : List Json}
      (enough : places.length ≤ items.length) (ends : rest = none → items.length = places.length)
      (each : ∀ (n : Nat) item type, items[n]? = some item → (places[n]?).or rest = some type →
        Inhabits r [] type item) :
      Inhabits r outer (.tuple places rest) (.array items)

section Reading

variable {r : Reading} {outer : List String} {v : Json}

-- More keys beside a type ask less of it, and its own keys count in any case.
theorem inhabits_widen {inner : List String} {type : TypeExpr} (inhabited : Inhabits r inner type v)
    (wider : ∀ key ∈ inner, key ∈ outer ∨ key ∈ r.exempt [type]) : Inhabits r outer type v := by
  cases inhabited with
  | primitive holds => exact .primitive holds
  | literal holds => exact .literal holds
  | declared found holds => exact .declared found holds
  | reference holds => exact .reference holds
  | union inside holds => exact .union inside holds
  | intersection all => exact .intersection all
  | record shaped required present others =>
    refine .record shaped required present ?_
    intro s key x inside entry free own
    refine others s key x inside entry ?_ own
    intro declared
    rcases wider key declared with beside | itself
    · exact free beside
    · exact own itself
  | array all => exact .array all
  | tuple enough ends each => exact .tuple enough ends each

theorem inhabits_anywhere {type : TypeExpr} (inhabited : Inhabits r [] type v) :
    Inhabits r outer type v :=
  inhabits_widen inhabited fun _ member => nomatch member

theorem not_inhabits_never : ¬ Inhabits r outer never v := by
  intro inhabited
  cases inhabited with
  | primitive holds => exact holds

end Reading

-- Types that are found equal differ at most in the sign of a zero, which no value tells.
section Same

-- Members of equal object types that stand in the same place.
inductive Corresponds : Member TypeExpr → Member TypeExpr → Prop where
  | property {p q : Property TypeExpr} (name : p.name = q.name) (optional : p.optional = q.optional)
      (type : same p.type q.type = true) : Corresponds (.property p) (.property q)
  | index {s t : IndexSignature TypeExpr} (value : same s.value t.value = true) :
      Corresponds (.index s) (.index t)

theorem corresponds_of_test {member other : Member TypeExpr}
    (equal : testMember (member.map same) other = true) : Corresponds member other := by
  cases member with
  | property p =>
    cases other with
    | property q =>
      obtain ⟨typed, _⟩ := (Bool.and_eq_true _ _).mp equal
      obtain ⟨named, optional⟩ := (Bool.and_eq_true _ _).mp typed
      obtain ⟨name, type⟩ := (Bool.and_eq_true _ _).mp named
      exact .property (eq_of_beq name) (eq_of_beq optional) type
    | index t => cases equal
  | index s =>
    cases other with
    | property q => cases equal
    | index t =>
      obtain ⟨_, value⟩ := (Bool.and_eq_true _ _).mp equal
      exact .index value

theorem members_correspond {members others : List (Member TypeExpr)}
    (equal : same (record members) (record others) = true) :
    List.Forall₂ Corresponds members others := by
  have tests : pointwise testMember (members.map (Member.map same)) others = true :=
    (congrFun (fold_eq _ (record members)) (record others)).symm.trans equal
  have related := List.forall₂_map_left_iff.mp (pointwise_related tests)
  exact related.imp fun _ _ test => corresponds_of_test test

theorem all_same {types others : List TypeExpr}
    (equal : pointwise (fun test => test) (types.map same) others = true) :
    List.Forall₂ (fun type other => same type other = true) types others :=
  List.forall₂_map_left_iff.mp (pointwise_related equal)

theorem keys_correspond {members others : List (Member TypeExpr)}
    (related : List.Forall₂ Corresponds members others) : keys (record members) = keys (record others) := by
  induction related with
  | nil => rfl
  | cons first _ ih =>
    cases first with
    | property name optional type => rw [keys_property, keys_property, name, ih]
    | index value => rw [keys_index, keys_index, ih]

theorem keys_same {type other : TypeExpr} (equal : same type other = true) : keys type = keys other := by
  cases other with
  | record others =>
    cases type with
    | record members => exact keys_correspond (members_correspond equal)
    | tuple places rest => cases rest <;> cases equal
    | _ => cases equal
  | _ =>
    cases type with
    | record members => cases equal
    | _ => rfl

theorem exempt_same (r : Reading) {types others : List TypeExpr}
    (equal : List.Forall₂ (fun type other => same type other = true) types others) :
    r.exempt types = r.exempt others := by
  have allKeys : types.flatMap keys = others.flatMap keys := by
    induction equal with
    | nil => rfl
    | cons first _ ih => rw [List.flatMap_cons, List.flatMap_cons, keys_same first, ih]
  unfold Reading.exempt
  rw [allKeys]

-- An object type that is found equal to another, whose members hold of a value in all equal forms.
theorem record_same {r : Reading} {outer : List String} {types members : List (Member TypeExpr)} {v : Json}
    (equal : same (record types) (record members) = true)
    (shaped : members ≠ [] → v.isObject = true)
    (required : ∀ p, .property p ∈ members → p.optional = false → (v.get? p.name).isSome = true)
    (present : ∀ p x, .property p ∈ members → v.get? p.name = some x →
      ∀ {type : TypeExpr}, same type p.type = true → Inhabits r [] type x)
    (others : ∀ s key x, .index s ∈ members → (key, x) ∈ v.entries → key ∉ outer →
      key ∉ r.exempt [.record members] →
        ∀ {type : TypeExpr}, same type s.value = true → Inhabits r [] type x) :
    Inhabits r outer (record types) v := by
  have related := members_correspond equal
  have sameKeys : r.exempt [.record types] = r.exempt [.record members] :=
    exempt_same r (.cons equal .nil)
  refine .record ?_ ?_ ?_ ?_
  · intro some
    apply shaped
    intro empty
    cases empty
    cases related
    exact some rfl
  · intro p member optional
    obtain ⟨second, inside, corresponds⟩ := related_left related member
    cases corresponds with
    | property name sameOptional type =>
      rw [name]
      exact required _ inside (sameOptional.symm.trans optional)
  · intro p x member found
    obtain ⟨second, inside, corresponds⟩ := related_left related member
    cases corresponds with
    | property name sameOptional type =>
      rw [name] at found
      exact present _ x inside found type
  · intro s key x member entry free own
    obtain ⟨second, inside, corresponds⟩ := related_left related member
    cases corresponds with
    | index value =>
      rw [sameKeys] at own
      exact others _ key x inside entry free own value

theorem tuple_same {r : Reading} {outer : List String} {types places : List TypeExpr}
    {last rest : Option TypeExpr} {items : List Json}
    (equal : same (tuple types last) (tuple places rest) = true)
    (enough : places.length ≤ items.length) (ends : rest = none → items.length = places.length)
    (each : ∀ (n : Nat) item placed, items[n]? = some item → (places[n]?).or rest = some placed →
      ∀ {type : TypeExpr}, same type placed = true → Inhabits r [] type item) :
    Inhabits r outer (tuple types last) (.array items) := by
  have tests : (pointwise (fun test => test) (types.map same) places
      && pointwise? (fun test => test) (last.map same) rest) = true :=
    (congrFun (fold_eq _ (tuple types last)) (tuple places rest)).symm.trans equal
  obtain ⟨equalPlaces, equalRest⟩ := (Bool.and_eq_true _ _).mp tests
  have related := all_same equalPlaces
  have sameLast := rel_map_left (pointwise?_related equalRest)
  rw [← related.length_eq] at enough ends
  refine .tuple enough ?_ ?_
  · intro none
    cases none
    cases sameLast
    exact ends rfl
  · intro n item first found placed
    obtain ⟨second, there, equal⟩ := rel_some (rel_or (related_getElem? related n) sameLast) placed
    exact each n item second found there equal

-- Along the derivation for one type, a derivation for every type that is found equal to it.
theorem inhabits_same {r : Reading} {outer : List String} {type other : TypeExpr} {v : Json}
    (equal : same type other = true) (inhabited : Inhabits r outer other v) :
    Inhabits r outer type v := by
  induction inhabited generalizing type with
  | primitive holds =>
    cases type with
    | primitive p => cases eq_of_beq (show (p == _) = true from equal); exact .primitive holds
    | tuple places rest => cases rest <;> cases equal
    | _ => cases equal
  | literal holds =>
    cases type with
    | literal l => exact .literal ((Validator.literalHolds_same equal _).trans holds)
    | tuple places rest => cases rest <;> cases equal
    | _ => cases equal
  | declared found holds ih =>
    cases type with
    | reference name => cases eq_of_beq (show (name == _) = true from equal); exact .declared found holds
    | tuple places rest => cases rest <;> cases equal
    | _ => cases equal
  | reference holds =>
    cases type with
    | reference name => cases eq_of_beq (show (name == _) = true from equal); exact .reference holds
    | tuple places rest => cases rest <;> cases equal
    | _ => cases equal
  | @union _ members _ _ inside _ ih =>
    cases type with
    | union types =>
      have related := all_same ((congrFun (fold_eq _ (union types)) (union members)).symm.trans equal)
      obtain ⟨first, member, equal⟩ := related_right related inside
      exact .union member (ih equal)
    | tuple places rest => cases rest <;> cases equal
    | _ => cases equal
  | @intersection _ members _ _ ih =>
    cases type with
    | intersection types =>
      have related := all_same
        ((congrFun (fold_eq _ (intersection types)) (intersection members)).symm.trans equal)
      refine .intersection ?_
      intro first member
      obtain ⟨second, inside, equal⟩ := related_left related member
      rw [exempt_same r related]
      exact ih second inside equal
    | tuple places rest => cases rest <;> cases equal
    | _ => cases equal
  | record shaped required _ _ ihPresent ihOthers =>
    cases type with
    | record types => exact record_same equal shaped required ihPresent ihOthers
    | tuple places rest => cases rest <;> cases equal
    | _ => cases equal
  | array _ ih =>
    cases type with
    | array items => exact .array fun item member => ih item member equal
    | tuple places rest => cases rest <;> cases equal
    | _ => cases equal
  | tuple enough ends _ ih =>
    cases type with
    | tuple types last => exact tuple_same equal enough ends ih
    | _ => cases equal

theorem same_primitive {type : TypeExpr} {p : Primitive} (equal : same type (primitive p) = true) :
    type = primitive p := by
  cases type with
  | primitive q => cases eq_of_beq (show (q == p) = true from equal); rfl
  | tuple places rest => cases rest <;> cases equal
  | _ => cases equal

end Same

-- Object types that have properties only.
section Objects

variable {r : Reading} {v : Json}

-- What a property asks of a value on its own.
structure PropertyHolds (r : Reading) (p : Property TypeExpr) (v : Json) : Prop where
  shaped : v.isObject = true
  required : p.optional = false → (v.get? p.name).isSome = true
  present : ∀ x, v.get? p.name = some x → Inhabits r [] p.type x

theorem inhabits_object {outer : List String} {ps : List (Property TypeExpr)} :
    Inhabits r outer (object ps) v ↔ ∀ p ∈ ps, PropertyHolds r p v := by
  constructor
  · intro inhabited p member
    have inside : Member.property p ∈ ps.map .property := List.mem_map_of_mem member
    cases inhabited with
    | record shaped required present others =>
      exact ⟨shaped (List.ne_nil_of_mem inside), required p inside, fun x => present p x inside⟩
  · intro holds
    have inside (p : Property TypeExpr) (member : Member.property p ∈ ps.map .property) : p ∈ ps := by
      obtain ⟨q, member, equal⟩ := List.mem_map.mp member
      cases equal
      exact member
    refine .record ?_ ?_ ?_ ?_
    · intro some
      cases ps with
      | nil => exact absurd rfl some
      | cons p rest => exact (holds p List.mem_cons_self).shaped
    · exact fun p member => (holds p (inside p member)).required
    · exact fun p x member => (holds p (inside p member)).present x
    · intro s key x member
      obtain ⟨q, _, equal⟩ := List.mem_map.mp member
      cases equal

theorem inhabits_emptyObject {outer : List String} : Inhabits r outer emptyObject v := by
  have none : Inhabits r outer (object []) v := inhabits_object.mpr fun p member => by cases member
  exact none

theorem propertiesOf?_eq {members : List (Member TypeExpr)} {ps : List (Property TypeExpr)}
    (found : propertiesOf? members = some ps) : members = ps.map .property := by
  induction members generalizing ps with
  | nil => cases found; rfl
  | cons member rest ih =>
    cases member with
    | property p =>
      obtain ⟨others, later, rfl⟩ := Option.map_eq_some_iff.mp found
      rw [List.map_cons, ih later]
    | index s => cases found

theorem properties?_eq {type : TypeExpr} {ps : List (Property TypeExpr)}
    (found : type.properties? = some ps) : type = object ps := by
  cases type with
  | record members => exact congrArg record (propertiesOf?_eq found)
  | _ => cases found

end Objects

end TypeExpr

end ApiContract
