import ApiContract.Distinct
import ApiContract.Literal
import ApiContract.Pointwise

namespace ApiContract

inductive Primitive where
  | string
  | number
  | boolean
  | unknown
  | never
  | void
  | binary
deriving DecidableEq

def Primitive.keyword : Primitive → String
  | string => "string"
  | number => "number"
  | boolean => "boolean"
  | unknown => "unknown"
  | never => "never"
  | void => "void"
  | binary => "binary"

structure Property (T : Type) where
  name : String
  type : T
  optional : Bool := false
  doc : Option String := none

structure IndexSignature (T : Type) where
  keyName : String
  key : T
  value : T

inductive Member (T : Type) where
  | property (property : Property T)
  | index (signature : IndexSignature T)

def Member.map {T U : Type} (f : T → U) : Member T → Member U
  | property p => property ⟨p.name, f p.type, p.optional, p.doc⟩
  | index s => index ⟨s.keyName, f s.key, f s.value⟩

def Member.types {T : Type} : Member T → List T
  | property p => [p.type]
  | index s => [s.key, s.value]

inductive TypeExpr where
  | primitive (primitive : Primitive)
  | literal (literal : Literal)
  | reference (name : String)
  | union (members : List TypeExpr)
  | intersection (members : List TypeExpr)
  | record (members : List (Member TypeExpr))
  | array (items : TypeExpr)
  | tuple (places : List TypeExpr) (rest : Option TypeExpr)

namespace TypeExpr

structure Algebra (α : Type) where
  primitive : Primitive → α
  literal : Literal → α
  reference : String → α
  union : List α → α
  intersection : List α → α
  record : List (Member α) → α
  array : α → α
  tuple : List α → Option α → α

section Fold

variable {α : Type} (a : Algebra α)

mutual
def fold : TypeExpr → α
  | primitive p => a.primitive p
  | literal l => a.literal l
  | reference name => a.reference name
  | union members => a.union (foldAll members)
  | intersection members => a.intersection (foldAll members)
  | record members => a.record (foldMembers members)
  | array items => a.array (fold items)
  | tuple places none => a.tuple (foldAll places) none
  | tuple places (some rest) => a.tuple (foldAll places) (some (fold rest))
def foldAll : List TypeExpr → List α
  | [] => []
  | type :: rest => fold type :: foldAll rest
def foldMembers : List (Member TypeExpr) → List (Member α)
  | [] => []
  | .property ⟨name, type, optional, doc⟩ :: rest =>
    .property ⟨name, fold type, optional, doc⟩ :: foldMembers rest
  | .index ⟨keyName, key, value⟩ :: rest =>
    .index ⟨keyName, fold key, fold value⟩ :: foldMembers rest
end

theorem foldAll_eq_map (types : List TypeExpr) : foldAll a types = types.map (fold a) := by
  induction types with
  | nil => rfl
  | cons type rest ih => simp [foldAll, ih]

theorem foldMembers_eq_map (members : List (Member TypeExpr)) :
    foldMembers a members = members.map (Member.map (fold a)) := by
  induction members with
  | nil => rfl
  | cons member rest ih => cases member <;> simp [foldMembers, Member.map, ih]

theorem fold_eq (type : TypeExpr) : fold a type = match type with
    | primitive p => a.primitive p
    | literal l => a.literal l
    | reference name => a.reference name
    | union members => a.union (members.map (fold a))
    | intersection members => a.intersection (members.map (fold a))
    | record members => a.record (members.map (Member.map (fold a)))
    | array items => a.array (fold a items)
    | tuple places rest => a.tuple (places.map (fold a)) (rest.map (fold a)) := by
  cases type with
  | tuple places rest => cases rest <;> simp [fold, foldAll_eq_map]
  | _ => simp [fold, foldAll_eq_map, foldMembers_eq_map]

end Fold

def testMember : Member (TypeExpr → Bool) → Member TypeExpr → Bool
  | .property p, .property q =>
    p.name == q.name && p.type q.type && p.optional == q.optional && p.doc == q.doc
  | .index s, .index t => s.keyName == t.keyName && s.key t.key && s.value t.value
  | _, _ => false

def same : TypeExpr → TypeExpr → Bool :=
  fold {
    primitive := fun p type => match type with
      | primitive q => p == q
      | _ => false
    literal := fun l type => match type with
      | literal m => l == m
      | _ => false
    reference := fun name type => match type with
      | reference other => name == other
      | _ => false
    union := fun tests type => match type with
      | union members => pointwise (fun test => test) tests members
      | _ => false
    intersection := fun tests type => match type with
      | intersection members => pointwise (fun test => test) tests members
      | _ => false
    record := fun tests type => match type with
      | record members => pointwise testMember tests members
      | _ => false
    array := fun test type => match type with
      | array items => test items
      | _ => false
    tuple := fun tests test type => match type with
      | tuple places rest =>
        pointwise (fun test => test) tests places && pointwise? (fun test => test) test rest
      | _ => false }

instance : BEq TypeExpr := ⟨same⟩

def string : TypeExpr := primitive .string

def number : TypeExpr := primitive .number

def boolean : TypeExpr := primitive .boolean

def unknown : TypeExpr := primitive .unknown

def never : TypeExpr := primitive .never

def void : TypeExpr := primitive .void

def binary : TypeExpr := primitive .binary

def null : TypeExpr := literal .null

def text (s : String) : TypeExpr := literal (.string s)

def flag (b : Bool) : TypeExpr := literal (.bool b)

def object (properties : List (Property TypeExpr)) : TypeExpr := record (properties.map .property)

def emptyObject : TypeExpr := record []

def occurrences : TypeExpr → List String :=
  fold {
    primitive := fun _ => []
    literal := fun _ => []
    reference := fun name => [name]
    union := List.flatten
    intersection := List.flatten
    record := fun members => members.flatMap fun member => member.types.flatten
    array := id
    tuple := fun places rest => places.flatten ++ rest.getD [] }

def references (type : TypeExpr) : List String := distinct type.occurrences

def total (sizes : List Nat) : Nat := sizes.foldr (· + ·) 0

def size : TypeExpr → Nat :=
  fold {
    primitive := fun _ => 1
    literal := fun _ => 1
    reference := fun _ => 1
    union := fun sizes => 1 + total sizes
    intersection := fun sizes => 1 + total sizes
    record := fun members => 1 + total (members.map fun member => 1 + total member.types)
    array := fun size => 1 + size
    tuple := fun sizes rest => 1 + total sizes + rest.getD 0 }

def nesting : TypeExpr → Nat :=
  fold {
    primitive := fun _ => 0
    literal := fun _ => 0
    reference := fun _ => 0
    union := fun depths => depths.foldr max 0
    intersection := fun depths => depths.foldr max 0
    record := fun members => 1 + (members.flatMap Member.types).foldr max 0
    array := id
    tuple := fun depths rest => max (depths.foldr max 0) (rest.getD 0) }

end TypeExpr

end ApiContract
