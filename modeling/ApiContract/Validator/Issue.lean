namespace ApiContract

inductive Segment where
  | key (name : String)
  | index (n : Nat)
deriving DecidableEq

structure Issue where
  path : List Segment
  message : String
deriving DecidableEq

namespace Issue

def here (message : String) : Issue := ⟨[], message⟩

def within (segment : Segment) (issue : Issue) : Issue := ⟨segment :: issue.path, issue.message⟩

def laterText : List Segment → String
  | [] => ""
  | .key name :: rest => "." ++ name ++ laterText rest
  | .index n :: rest => "[" ++ toString n ++ "]" ++ laterText rest

def pathText : List Segment → String
  | .key name :: rest => name ++ laterText rest
  | path => laterText path

def text (issue : Issue) : String :=
  if issue.path.isEmpty then issue.message else pathText issue.path ++ ": " ++ issue.message

end Issue

inductive CheckError where
  | unresolved (name : String)
  | pattern (text : String)
  -- References lead back to `name` without a step into the value.
  | endless (name : String)
deriving DecidableEq

def CheckError.message : CheckError → String
  | unresolved name => "no validator registered for '" ++ name ++ "'"
  | pattern text => "invalid pattern '" ++ text ++ "'"
  | endless name => "endless reference '" ++ name ++ "'"

end ApiContract
