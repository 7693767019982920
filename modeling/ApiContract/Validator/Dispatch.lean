import ApiContract.MediaType
import ApiContract.Validator.Basic

namespace ApiContract

-- Exact codes are tried before ranges, and what equals the fallback is left out.

-- Without a validator every body passes.
abbrev MediaTable := List (String × Option Validator)

abbrev ResponseTable := List (Status × MediaTable)

namespace Validator

def bodyOf (body : Option Validator) : Validator := body.getD unknown

def mediaCases (fallback : Arm Validator) (media : MediaTable) : List (String × Validator) :=
  (media.filter fun entry => entry.1 != MediaType.wildcard).filterMap fun entry =>
    let case := (entry.1, bodyOf entry.2)
    if fallback == .body case.2 then none else some case

-- The wildcard stands for all media types that are not listed.
def mediaArm (media : MediaTable) : Arm Validator :=
  if media.isEmpty then .body unknown
  else
    let fallback := match media.lookup MediaType.wildcard with
      | some body => .body (bodyOf body)
      | none => .reject .mediaType
    match mediaCases fallback media with
    | [] => fallback
    | cases => .media cases fallback

def fallbackArm (responses : ResponseTable) : Arm Validator :=
  match responses.lookup .default with
  | some media => mediaArm media
  | none => .reject .status

def rangeBranches (responses : ResponseTable) : List (Branch Validator) :=
  responses.filterMap fun entry => match entry.1 with
    | .range hundreds =>
      let arm := mediaArm entry.2
      if arm == fallbackArm responses then none else some ⟨.range hundreds, arm⟩
    | _ => none

-- A code that behaves as the fallback still needs its branch where a range would take it.
def codeBranches (responses : ResponseTable) : List (Branch Validator) :=
  responses.filterMap fun entry => match entry.1 with
    | .code code =>
      let arm := mediaArm entry.2
      if arm == fallbackArm responses
          && !(rangeBranches responses).any fun range => range.status.holds code then none
      else some ⟨.exact code, arm⟩
    | _ => none

def branchSequence (responses : ResponseTable) : Validator :=
  dispatch (codeBranches responses ++ rangeBranches responses) (fallbackArm responses)

def statusValidator : Status → Validator
  | .code code => literal (.int code)
  | .range hundreds =>
    number { integer := true
             min := some (.inclusive (.ofInt (hundreds * 100)))
             max := some (.strict (.ofInt (hundreds * 100 + 100))) }
  | .default => number { integer := true }

def envelope (status : Status) (mediaType : String) (body : Option Validator) : Validator :=
  object
    [⟨"status", statusValidator status, false⟩,
      ⟨"mediaType", if mediaType = MediaType.wildcard then string {} else literal (.string mediaType), false⟩,
      ⟨"body", bodyOf body, false⟩]
    (.catchall unknown)

-- Without any media type every response passes.
def ofResponses (responses : ResponseTable) : Validator :=
  match responses with
  | [(status, [(mediaType, body)])] => envelope status mediaType body
  | responses => if responses.all fun entry => entry.2.isEmpty then unknown else branchSequence responses

end Validator

end ApiContract
