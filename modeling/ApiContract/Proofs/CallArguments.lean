import ApiContract.Proofs.CanonicalContracts

namespace ApiContract

-- Which names the arguments of a call get. Parameters are named one after the other, each apart from those
-- before it; a body of one media type is named without looking at them.

section Parameters

variable {index : ModelIndex} {op : Operation}

-- What the contract of a parameter says about its name: cookies have none.
structure ParameterContract.NamedFor (p : Parameter) (taken : List String) (contract : ParameterContract) : Prop where
  name : contract.name = p.name
  location : contract.location = p.location
  supported : p.location ≠ .cookie
  argument : contract.argument = Identifier.fresh (Identifier.ofName p.name) taken

theorem ofParameters_cons {taken : List String} {p : Parameter} {rest : List Parameter}
    {contracts : List ParameterContract}
    (made : ParameterContract.ofParameters index op taken (p :: rest) = .ok contracts) :
    ∃ contract others, contracts = contract :: others ∧ contract.NamedFor p taken ∧
      ParameterContract.ofParameters index op (contract.argument :: taken) rest = .ok others := by
  obtain ⟨contract, first, next⟩ := bind_ok made
  obtain ⟨others, remaining, next⟩ := bind_ok next
  cases next
  obtain ⟨_, checked, first⟩ := bind_ok first
  obtain ⟨occurrence, _, first⟩ := bind_ok first
  cases first
  refine ⟨_, others, rfl, ⟨rfl, rfl, ?_, rfl⟩, remaining⟩
  intro cookie
  unfold ParameterContract.checkSupported at checked
  rw [cookie] at checked
  cases checked

theorem ofParameters_named {taken : List String} {parameters : List Parameter} {contracts : List ParameterContract}
    (made : ParameterContract.ofParameters index op taken parameters = .ok contracts) :
    List.Forall₂ (fun p contract => ∃ taken, contract.NamedFor p taken) parameters contracts := by
  induction parameters generalizing taken contracts with
  | nil =>
    cases made
    exact .nil
  | cons p rest ih =>
    obtain ⟨contract, others, rfl, named, remaining⟩ := ofParameters_cons made
    exact .cons ⟨taken, named⟩ (ih remaining)

theorem ofParameters_arguments {taken : List String} {parameters : List Parameter}
    {contracts : List ParameterContract}
    (made : ParameterContract.ofParameters index op taken parameters = .ok contracts) :
    Identifier.Apart (contracts.map ParameterContract.argument) taken := by
  induction parameters generalizing taken contracts with
  | nil =>
    cases made
    exact .nil taken
  | cons p rest ih =>
    obtain ⟨contract, others, rfl, named, remaining⟩ := ofParameters_cons made
    have new : contract.argument ∉ taken := named.argument ▸ Identifier.fresh_notMem _ _
    exact .cons new (ih remaining)

-- The identifier of a name is an argument as soon as a parameter has it, whoever comes first.
theorem ofParameters_identifier {taken : List String} {parameters : List Parameter}
    {contracts : List ParameterContract}
    (made : ParameterContract.ofParameters index op taken parameters = .ok contracts) :
    ∀ p ∈ parameters, Identifier.ofName p.name ∈ contracts.map ParameterContract.argument ++ taken := by
  induction parameters generalizing taken contracts with
  | nil => exact List.forall_mem_nil _
  | cons p rest ih =>
    obtain ⟨contract, others, rfl, named, remaining⟩ := ofParameters_cons made
    refine List.forall_mem_cons.mpr ⟨?_, fun q member => ?_⟩
    · by_cases used : Identifier.ofName p.name ∈ taken
      · exact List.mem_append_right _ used
      · rw [← Identifier.fresh_of_notMem used, ← named.argument]
        exact List.mem_cons_self
    · exact List.perm_middle.mem_iff.mp (ih remaining q member)

-- The groups hold every parameter that is no cookie.
theorem toList_ofList_perm {contracts : List ParameterContract}
    (supported : ∀ contract ∈ contracts, contract.location ≠ .cookie) :
    (ParameterGroups.ofList contracts).toList.Perm contracts := by
  unfold ParameterGroups.ofList ParameterGroups.toList
  induction contracts with
  | nil => exact .nil
  | cons contract rest ih =>
    obtain ⟨here, later⟩ := List.forall_mem_cons.mp supported
    have inner := ih later
    rw [List.append_assoc] at inner ⊢
    cases placed : contract.location with
    | path => simpa [placed] using inner
    | query => simpa [placed] using List.perm_middle.trans (inner.cons contract)
    | header =>
      rw [← List.append_assoc] at inner ⊢
      simpa [placed] using List.perm_middle.trans (inner.cons contract)
    | cookie => exact absurd placed here

end Parameters

-- The argument of a body that has one media type.
def BodyContract.argument? : BodyContract → Option String
  | single argument _ _ _ _ _ => some argument
  | variants _ _ _ _ _ => none

-- The arguments of a call: one for each parameter, and one for a body of one media type.
def Contract.callArguments (contract : Contract) : List String :=
  contract.parameters.toList.map ParameterContract.argument
    ++ (contract.requestBody.bind BodyContract.argument?).toList

-- The operation takes a body that has just one media type.
def Operation.TakesOneBody (op : Operation) : Prop :=
  ∃ body entry, op.requestBody = some body ∧ body.content = [entry]

theorem ofBody?_argument {index : ModelIndex} {op : Operation} {contract : Option BodyContract}
    (made : BodyContract.ofBody? index op.requestBody = .ok contract) :
    op.TakesOneBody ∧ contract.bind BodyContract.argument? = some "body" ∨
      ¬ op.TakesOneBody ∧ contract.bind BodyContract.argument? = none := by
  unfold BodyContract.ofBody? at made
  split at made
  · rename_i absent
    cases made
    refine .inr ⟨?_, rfl⟩
    rintro ⟨body, entry, present, _⟩
    cases absent.symm.trans present
  · rename_i body present
    split at made
    · rename_i empty
      cases made
      refine .inr ⟨?_, rfl⟩
      rintro ⟨other, entry, also, single⟩
      cases present.symm.trans also
      rw [single] at empty
      cases empty
    · obtain ⟨inner, compiled, rfl⟩ := map_ok made
      unfold BodyContract.ofBody at compiled
      split at compiled
      · rename_i mediaType node single
        obtain ⟨occurrence, _, next⟩ := bind_ok compiled
        cases next
        exact .inl ⟨⟨body, (mediaType, node), present, single⟩, rfl⟩
      · rename_i several
        obtain ⟨variants, _, next⟩ := bind_ok compiled
        cases next
        refine .inr ⟨?_, rfl⟩
        rintro ⟨other, entry, also, single⟩
        cases present.symm.trans also
        exact several entry.1 entry.2 single

theorem body_mem_arguments {index : ModelIndex} {op : Operation} {parameters : List Parameter}
    {contracts : List ParameterContract}
    (made : ParameterContract.ofParameters index op [] parameters = .ok contracts) :
    "body" ∈ contracts.map ParameterContract.argument ↔ ∃ p ∈ parameters, Identifier.ofName p.name = "body" := by
  constructor
  · intro member
    obtain ⟨contract, listed, equal⟩ := List.mem_map.mp member
    obtain ⟨p, given, taken, names⟩ := related_right (ofParameters_named made) listed
    rw [names.argument] at equal
    refine ⟨p, given, ?_⟩
    rcases Identifier.fresh_cases (Identifier.ofName p.name) taken with own | ⟨n, numbered⟩
    · exact own.symm.trans equal
    · -- a numbered name ends with a digit
      obtain ⟨c, last, digit⟩ := Identifier.numbered_last (Identifier.ofName p.name) n
      rw [← numbered, equal] at last
      cases last
      cases digit
  · rintro ⟨p, given, equal⟩
    have used := ofParameters_identifier made p given
    rwa [List.append_nil, equal] at used

-- No two parameters share an argument. A call repeats one just where a body of one media type meets a
-- parameter whose identifier is `body`.
theorem call_arguments_apart {settings : Settings} {index : ModelIndex} {op : Operation} {contract : Contract}
    (compiled : Contract.ofOperation settings index op = .ok contract) :
    (contract.parameters.toList.map ParameterContract.name).Perm (op.parameters.map Parameter.name) ∧
    (contract.parameters.toList.map ParameterContract.argument).Nodup ∧
    (contract.callArguments.Nodup ↔
      ¬ (op.TakesOneBody ∧ ∃ p ∈ op.parameters, Identifier.ofName p.name = "body")) := by
  obtain ⟨contracts, variants, made⟩ := ofOperation_compiled compiled
  have named := ofParameters_named made.parametersMade
  have supported : ∀ contract ∈ contracts, contract.location ≠ .cookie := by
    intro contract listed
    obtain ⟨p, _, taken, names⟩ := related_right named listed
    rw [names.location]
    exact names.supported
  have all : contract.parameters.toList.Perm contracts := made.parameters ▸ toList_ofList_perm supported
  have distinct : (contract.parameters.toList.map ParameterContract.argument).Nodup :=
    (all.map _).nodup_iff.mpr (ofParameters_arguments made.parametersMade).1
  refine ⟨?_, distinct, ?_⟩
  · have names : op.parameters.map Parameter.name = contracts.map ParameterContract.name :=
      map_related named fun p contract named => named.elim fun _ names => names.name.symm
    exact names ▸ all.map _
  · unfold Contract.callArguments
    rcases ofBody?_argument made.requestBody with ⟨single, body⟩ | ⟨several, none⟩
    · rw [body, Option.toList_some, (List.perm_append_singleton _ _).nodup_iff, List.nodup_cons,
        ← body_mem_arguments made.parametersMade, ← (all.map _).mem_iff]
      exact ⟨fun apart both => apart.1 both.2, fun free => ⟨fun used => free ⟨single, used⟩, distinct⟩⟩
    · rw [none, Option.toList_none, List.append_nil]
      exact iff_of_true distinct fun both => several both.1

-- A pet is stored under a query parameter that is called like the body.
def captionOperation : Operation where
  name := "captionPet"
  method := .post
  path := "/pets"
  parameters := [⟨"body", .query, false, none, none, .string, none, false⟩,
    ⟨"body-", .header, false, none, none, .string, none, false⟩]
  requestBody := some { content := [("text/plain", .string)] }

theorem caption_repeats_argument : ∃ contract, Contract.ofOperation {} {} captionOperation = .ok contract ∧
    contract.callArguments = ["body", "body2", "body"] ∧ ¬ contract.callArguments.Nodup := by
  have evaluated : (Contract.ofOperation {} {} captionOperation).toOption.map Contract.callArguments =
      some ["body", "body2", "body"] := by
    decide +kernel
  obtain ⟨contract, built, arguments⟩ := Option.map_eq_some_iff.mp evaluated
  have compiled := toOption_some built
  have named : ∃ p ∈ captionOperation.parameters, Identifier.ofName p.name = "body" :=
    ⟨_, List.mem_cons_self, by decide +kernel⟩
  exact ⟨contract, compiled, arguments, fun distinct =>
    (call_arguments_apart compiled).2.2.mp distinct ⟨⟨_, _, rfl, rfl⟩, named⟩⟩

end ApiContract
