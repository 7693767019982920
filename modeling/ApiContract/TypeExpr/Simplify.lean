import ApiContract.TypeExpr.Basic

namespace ApiContract

-- Members that are unions themselves are flattened, repeated ones dropped, and object types that
-- differ in one property only become one object type. Merging two object types joins property types,
-- which are less deeply nested, so the recursion is on the nesting of object types.

namespace TypeExpr

mutual
def unionParts : TypeExpr → List TypeExpr
  | union members => unionPartsAll members
  | type => [type]
def unionPartsAll : List TypeExpr → List TypeExpr
  | [] => []
  | type :: rest => unionParts type ++ unionPartsAll rest
end

mutual
def intersectionParts : TypeExpr → List TypeExpr
  | intersection members => intersectionPartsAll members
  | type => [type]
def intersectionPartsAll : List TypeExpr → List TypeExpr
  | [] => []
  | type :: rest => intersectionParts type ++ intersectionPartsAll rest
end

def dropNever (types : List TypeExpr) : List TypeExpr :=
  if 1 < types.length then types.filter (· != never) else types

def isFlag : TypeExpr → Bool
  | literal (.bool _) => true
  | _ => false

-- `true` and `false` together are `boolean`, in the place of the first; `boolean` absorbs either.
def collapseFlags (types : List TypeExpr) : List TypeExpr :=
  if types.contains (flag true) && types.contains (flag false) then
    distinct (types.map fun type => if type.isFlag then boolean else type)
  else if types.contains boolean then types.filter fun type => !type.isFlag
  else types

def propertiesOf? : List (Member TypeExpr) → Option (List (Property TypeExpr))
  | [] => some []
  | .property p :: rest => (propertiesOf? rest).map (p :: ·)
  | .index _ :: _ => none

def properties? : TypeExpr → Option (List (Property TypeExpr))
  | record members => propertiesOf? members
  | _ => none

def pairUp (right : List (Property TypeExpr)) :
    List (Property TypeExpr) → Option (List (Property TypeExpr × Property TypeExpr))
  | [] => some []
  | p :: rest =>
    match right.find? (fun q => q.name == p.name), pairUp right rest with
    | some q, some pairs => some ((p, q) :: pairs)
    | _, _ => none

def differs (pair : Property TypeExpr × Property TypeExpr) : Bool :=
  pair.1.type != pair.2.type || pair.1.optional != pair.2.optional

section Union

variable (join : TypeExpr → TypeExpr → TypeExpr)

def joinProperty (p q : Property TypeExpr) : Property TypeExpr :=
  { name := p.name
    type := join p.type q.type
    optional := p.optional || q.optional
    doc := p.doc.or q.doc }

-- One object type for two that have the same property names and differ in one property.
def mergePair? (left right : TypeExpr) : Option TypeExpr :=
  match left.properties?, right.properties? with
  | some ps, some qs =>
    if ps.isEmpty || ps.length != qs.length then none
    else match pairUp qs ps with
      | none => none
      | some pairs =>
        if (pairs.filter differs).length == 1 then
          some (object (pairs.map fun pair =>
            if differs pair then joinProperty join pair.1 pair.2 else pair.1))
        else none
  | _, _ => none

def mergeWith? (type : TypeExpr) : List TypeExpr → Option (TypeExpr × List TypeExpr)
  | [] => none
  | other :: rest =>
    match mergePair? join type other with
    | some merged => some (merged, rest)
    | none => (mergeWith? type rest).map fun result => (result.1, other :: result.2)

-- Merges the first pair that merges, in the place of the first of the two.
def mergeOnce? : List TypeExpr → Option (List TypeExpr)
  | [] => none
  | type :: rest =>
    match mergeWith? join type rest with
    | some (merged, others) => some (merged :: others)
    | none => (mergeOnce? rest).map (type :: ·)

def mergeUpTo : Nat → List TypeExpr → List TypeExpr
  | 0, types => types
  | steps + 1, types =>
    match mergeOnce? join types with
    | some merged => mergeUpTo steps (distinct merged)
    | none => types

def unionOfParts : List TypeExpr → TypeExpr
  | [] => never
  | [type] => type
  | types => union types

-- Each merge leaves fewer members, so there are no more merges than members.
def unionWith (types : List TypeExpr) : TypeExpr :=
  let parts := collapseFlags (distinct (dropNever (unionPartsAll types)))
  unionOfParts (mergeUpTo join parts.length parts)

end Union

def unionAt : Nat → List TypeExpr → TypeExpr
  | 0 => unionWith fun a b => union [a, b]
  | level + 1 => unionWith fun a b => unionAt level [a, b]

def nestingAll (types : List TypeExpr) : Nat := (types.map nesting).foldr max 0

def unionOf (types : List TypeExpr) : TypeExpr := unionAt (nestingAll types) types

section Intersection

variable (meet : TypeExpr → TypeExpr → TypeExpr)

def meetProperty (p q : Property TypeExpr) : Property TypeExpr :=
  { name := p.name
    type := meet p.type q.type
    optional := p.optional && q.optional
    doc := p.doc.or q.doc }

def addProperty (q : Property TypeExpr) : List (Property TypeExpr) → List (Property TypeExpr)
  | [] => [q]
  | p :: rest => if p.name == q.name then meetProperty meet p q :: rest else p :: addProperty q rest

def addProperties (ps qs : List (Property TypeExpr)) : List (Property TypeExpr) :=
  qs.foldl (fun ps q => addProperty meet q ps) ps

-- Gathers the object types that have properties only in the place of the first.
def gatherProperties : List TypeExpr → List TypeExpr
  | [] => []
  | type :: rest =>
    match type.properties? with
    | none => type :: gatherProperties rest
    | some ps =>
      object ((rest.filterMap properties?).foldl (addProperties meet) ps)
        :: rest.filter fun other => other.properties?.isNone

def intersectionOfParts (sawUnknown : Bool) : List TypeExpr → TypeExpr
  | [] => if sawUnknown then unknown else emptyObject
  | [type] => type
  | types => intersection types

def intersectionWith (types : List TypeExpr) : TypeExpr :=
  let parts := intersectionPartsAll types
  if parts.contains never then never
  else
    let kept := distinct (parts.filter fun type => type != unknown && type != emptyObject)
    intersectionOfParts (parts.contains unknown) (distinct (gatherProperties meet kept))

end Intersection

def intersectionAt : Nat → List TypeExpr → TypeExpr
  | 0 => intersectionWith fun a b => intersection [a, b]
  | level + 1 => intersectionWith fun a b => intersectionAt level [a, b]

def intersectionOf (types : List TypeExpr) : TypeExpr := intersectionAt (nestingAll types) types

end TypeExpr

end ApiContract
