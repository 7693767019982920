import ApiContract.Names
import ApiContract.Number.Layout
import ApiContract.TypeExpr.Basic

namespace ApiContract

def Literal.render : Literal → String
  | string s => Identifier.quote s
  | int n => toString n
  | number x => Number.Layout.plain.write x
  | bool b => toString b
  | null => "null"

namespace TypeExpr

-- What holds a text together at its top level, which decides where parentheses are needed.
inductive Grouping where
  | closed
  | union
  | intersection
deriving DecidableEq

structure Rendered where
  text : String
  grouping : Grouping := .closed

namespace Rendered

def operand (r : Rendered) : String :=
  if r.grouping = .union then "(" ++ r.text ++ ")" else r.text

def items (r : Rendered) : String :=
  if r.grouping = .closed then r.text ++ "[]" else "(" ++ r.text ++ ")[]"

end Rendered

def renderPrimitive (names : Names) : Primitive → String
  | .binary => names.binaryType
  | p => p.keyword

def renderMember : Member Rendered → String
  | .property p =>
    Identifier.propertyKey p.name ++ (if p.optional then "?" else "") ++ ": " ++ p.type.text
  | .index s => "[" ++ s.keyName ++ ": " ++ s.key.text ++ "]: " ++ s.value.text

def renderRecord (members : List (Member Rendered)) : String :=
  if members.isEmpty then "\x7b\x7d"
  else "\x7b " ++ "; ".intercalate (members.map renderMember) ++ " \x7d"

def rendered (names : Names) : TypeExpr → Rendered :=
  fold {
    primitive := fun p => ⟨renderPrimitive names p, .closed⟩
    literal := fun l => ⟨l.render, .closed⟩
    reference := fun name => ⟨names.model name, .closed⟩
    union := fun members => ⟨" | ".intercalate (members.map Rendered.text), .union⟩
    intersection := fun members => ⟨" & ".intercalate (members.map Rendered.operand), .intersection⟩
    record := fun members => ⟨renderRecord members, .closed⟩
    array := fun items => ⟨items.items, .closed⟩
    tuple := fun places rest =>
      ⟨"[" ++ ", ".intercalate (places.map Rendered.text
        ++ (rest.map fun r => "..." ++ r.items).toList) ++ "]", .closed⟩ }

def render (names : Names) (type : TypeExpr) : String := (type.rendered names).text

end TypeExpr

end ApiContract
