import ApiContract.Proofs.CanonicalContracts

namespace ApiContract

-- A body of several media types is a union that keeps one member for each of them.

namespace TypeExpr

section Objects

theorem mergePair?_missing {ps qs : List (Property TypeExpr)} {name : String} (present : name ∈ ps.map Property.name)
    (missing : name ∉ qs.map Property.name) (join : TypeExpr → TypeExpr → TypeExpr) :
    mergePair? join (object ps) (object qs) = none := by
  have unpaired : pairUp qs ps = none := by
    cases paired : pairUp qs ps with
    | none => rfl
    | some pairs => exact absurd (pairUp_subset paired present) missing
  simp [mergePair?, properties?_object, unpaired]

theorem object_differs {ps qs : List (Property TypeExpr)} {name : String} (present : name ∈ ps.map Property.name)
    (missing : name ∉ qs.map Property.name) : (object ps == object qs) = false := by
  rw [Bool.eq_false_iff]
  intro equal
  have names := keys_same equal
  rw [keys_object, keys_object] at names
  exact missing (names ▸ present)

-- Object types are left as they are if each has a property that those after it lack.
theorem unionOf_objects {rows : List (List (Property TypeExpr))} (several : 2 ≤ rows.length)
    (apart : rows.Pairwise fun ps qs => ∃ name ∈ ps.map Property.name, name ∉ qs.map Property.name) :
    unionOf (rows.map object) = union (rows.map object) := by
  have object? {type : TypeExpr} (member : type ∈ rows.map object) : ∃ members, type = record members := by
    obtain ⟨ps, _, rfl⟩ := List.mem_map.mp member
    exact ⟨_, rfl⟩
  have scalar {type : TypeExpr} (plain : ∀ members, type ≠ record members) : type ∉ rows.map object := by
    intro member
    obtain ⟨members, equal⟩ := object? member
    exact plain members equal
  have reduced : UnionReduced (rows.map object) := by
    refine ⟨⟨?_, ?_, ?_, ?_⟩, List.pairwise_map.mpr ?_, List.pairwise_map.mpr ?_⟩
    · rintro type member members rfl
      exact scalar (by simp) member
    · exact fun member => absurd member (scalar (by simp [never]))
    · exact fun both => scalar (by simp [flag]) both.1
    · exact fun member => absurd member (scalar (by simp [boolean]))
    · exact apart.imp fun ⟨name, present, missing⟩ => object_differs present missing
    · exact apart.imp fun ⟨name, present, missing⟩ => mergePair?_missing present missing
  cases rows with
  | nil => simp at several
  | cons first rest =>
    cases rest with
    | nil => simp at several
    | cons second rest => exact unionOf_reduced reduced (by simp)

end Objects

end TypeExpr

namespace Document

section MediaTypes

open Json (map_gives record_gives optional?_gives withDefault?_gives)

-- No media type of a body comes twice.
def DistinctMedia (op : Operation) : Prop := ∀ body, op.requestBody = some body → (Keyed.keys body.content).Nodup

theorem requestBody_media : requestBody.Gives fun body => (Keyed.keys body.content).Nodup := by
  refine record_gives fun levels fields body read => ?_
  simp only [Option.bind_eq_bind, Option.bind_eq_some_iff, Option.pure_def] at read
  obtain ⟨required, -, description, -, media, mediaRead, equal⟩ := read
  cases equal
  refine withDefault?_gives (P := fun found => (Keyed.keys found).Nodup) ?_
    (fun source found decoded => (map_gives mediaType_distinct levels source found decoded).1) mediaRead
  exact List.nodup_nil

theorem operation_media : operation.Gives DistinctMedia := by
  refine record_gives fun levels fields op read => ?_
  simp only [Option.bind_eq_bind, Option.bind_eq_some_iff, Option.pure_def] at read
  obtain ⟨operationId, -, summary, -, description, -, tags, -, deprecated, -, parameters, -, body, bodyRead,
    responses, -, equal⟩ := read
  cases equal
  refine optional?_gives (Q := fun found => ∀ body : RequestBody, found = some body →
    (Keyed.keys body.content).Nodup) (by simp) ?_ bodyRead
  intro source body decoded other equal
  cases equal
  exact requestBody_media levels source body decoded

theorem pathItem_media : pathItem.Gives fun item => ∀ entry ∈ item.operations, DistinctMedia entry.2 := by
  refine record_gives fun levels fields item read => ?_
  simp only [Option.bind_eq_bind, Option.bind_eq_some_iff, Option.pure_def] at read
  obtain ⟨operations, operationsRead, parameters, -, equal⟩ := read
  cases equal
  exact operations?_gives operation_media operationsRead

theorem decoder_media : decoder.Gives fun document => ∀ source ∈ document.operations, DistinctMedia source.2.2.2 := by
  refine record_gives fun levels fields document read => ?_
  simp only [Option.bind_eq_bind, Option.bind_eq_some_iff, Option.pure_def] at read
  obtain ⟨version, -, paths, pathsRead, schemas, -, equal⟩ := read
  cases equal
  refine List.forall_mem_flatMap.mpr fun entry member => List.forall_mem_map.mpr ?_
  exact paths_gives pathItem_media pathsRead entry member

-- Lowering a body keeps its media types.
theorem lowerBody_media {source : RequestBody} {body : ApiContract.RequestBody}
    (made : lowerBody source = .ok (some body)) : Keyed.keys body.content = Keyed.keys source.content := by
  obtain ⟨content, contentMade, next⟩ := bind_ok made
  have kept : (if content.isEmpty then none
      else some (⟨source.required, source.description, content⟩ : ApiContract.RequestBody)) = some body :=
    Except.ok.inj next
  split at kept
  · cases kept
  · cases kept
    refine (map_related (traverse_ok contentMade) ?_).symm
    intro written entry made
    split at made
    · obtain ⟨node, _, rfl⟩ := map_ok made
      rfl
    · cases made
      rfl

theorem lowerOperation_media {source : String × List Parameter × Method × Operation} {op : ApiContract.Operation}
    (made : lowerOperation source.1 source.2.1 source.2.2 = .ok op) (media : DistinctMedia source.2.2.2) :
    ∀ body, op.requestBody = some body → (Keyed.keys body.content).Nodup := by
  obtain ⟨parameters, _, next⟩ := bind_ok made
  obtain ⟨requestBody, bodyMade, next⟩ := bind_ok next
  obtain ⟨responses, _, next⟩ := bind_ok next
  cases next
  intro body equal
  cases (equal : requestBody = some body)
  cases given : source.2.2.2.requestBody with
  | none =>
    rw [given] at bodyMade
    cases bodyMade
  | some written =>
    rw [given] at bodyMade
    rw [lowerBody_media bodyMade]
    exact media written given

end MediaTypes

end Document

theorem Description.load_media {text : String} {description : Description}
    (loaded : Description.load text = .ok description) : ∀ op ∈ description.operations,
      ∀ body, op.requestBody = some body → (Keyed.keys body.content).Nodup := by
  unfold Description.load at loaded
  split at loaded
  · cases loaded
  · rename_i document read
    obtain ⟨source, _, decoded⟩ := Option.bind_eq_some_iff.mp read
    have media := Document.decoder_media _ _ _ decoded
    obtain ⟨schemas, _, next⟩ := bind_ok loaded
    obtain ⟨operations, operationsMade, next⟩ := bind_ok next
    cases next
    intro op member
    obtain ⟨source, given, lowered⟩ := (Document.lowerOperations_sources operationsMade).2.2 op member
    exact Document.lowerOperation_media lowered (media source given)

namespace BodyContract

section Variants

variable {index : ModelIndex}

-- What the variant of a media type takes from it. The argument is chosen beside those of the others.
def OfMediaType (entry : String × Node) (variant : BodyVariant) : Prop :=
  variant.mediaType = entry.1 ∧ variant.type = TypeExpr.ofNode entry.2

theorem occurrence_type {node : Node} {occurrence : Occurrence} (made : Occurrence.ofNode index node = .ok occurrence) :
    occurrence.type = TypeExpr.ofNode node := by
  obtain ⟨validator, _, next⟩ := bind_ok made
  split at next
  · cases next
  · cases next
    rfl

theorem variantsOf_mediaTypes {taken : List String} {content : List (String × Node)} {variants : List BodyVariant}
    (made : variantsOf index taken content = .ok variants) : List.Forall₂ OfMediaType content variants := by
  induction content generalizing taken variants with
  | nil =>
    cases made
    exact .nil
  | cons entry rest ih =>
    obtain ⟨occurrence, occurs, next⟩ := bind_ok made
    obtain ⟨others, remaining, next⟩ := bind_ok next
    cases next
    exact .cons ⟨rfl, occurrence_type occurs⟩ (ih remaining)

end Variants

section Members

def variantProperties (defaultMediaType : Option String) (variant : BodyVariant) : List (Property TypeExpr) :=
  [{ name := discriminator
     type := .text variant.mediaType
     optional := defaultMediaType == some variant.mediaType },
    { name := variant.argument, type := variant.type }]

-- The members are not merged, whatever their types are, because no argument occurs in two of them.
theorem union_variants {variants : List BodyVariant} (defaultMediaType : Option String) (several : 2 ≤ variants.length)
    (distinct : (variants.map BodyVariant.argument).Nodup)
    (free : ∀ variant ∈ variants, variant.argument ∉ [discriminator]) :
    TypeExpr.unionOf (variants.map (variantType defaultMediaType))
      = .union (variants.map (variantType defaultMediaType)) := by
  have apart : (variants.map (variantProperties defaultMediaType)).Pairwise fun ps qs =>
      ∃ name ∈ ps.map Property.name, name ∉ qs.map Property.name := by
    rw [List.pairwise_map]
    refine (List.pairwise_map.mp distinct).imp_of_mem fun {first second} member _ differ => ?_
    have own : first.argument ≠ discriminator := by simpa using free first member
    exact ⟨first.argument, by simp [variantProperties], by simp [variantProperties, own, differ]⟩
  have objects := TypeExpr.unionOf_objects (by simpa using several) apart
  rwa [List.map_map] at objects

-- The first JSON media type is the default; no other one is, because no media type comes twice.
theorem default_iff {before after : List String} {mediaType : String}
    (distinct : (before ++ mediaType :: after).Nodup) :
    ((before ++ mediaType :: after).find? MediaType.isJson == some mediaType) = true ↔
      MediaType.isJson mediaType = true ∧ ∀ earlier ∈ before, MediaType.isJson earlier = false := by
  have fresh : mediaType ∉ before := by
    intro member
    exact (List.nodup_append.mp distinct).2.2 mediaType member mediaType List.mem_cons_self rfl
  rw [beq_iff_eq, List.find?_append]
  cases found : before.find? MediaType.isJson with
  | some earlier =>
    have inside := List.mem_of_find?_eq_some found
    have json := List.find?_some found
    constructor
    · intro equal
      cases equal
      exact absurd inside fresh
    · intro first
      exact absurd json (by simp [first.2 earlier inside])
  | none =>
    have none : ∀ earlier ∈ before, MediaType.isJson earlier = false := by simpa using found
    rw [Option.none_or]
    constructor
    · exact fun equal => ⟨List.find?_some equal, none⟩
    · exact fun first => List.find?_cons_of_pos first.1

end Members

-- Whatever the schemas are: the type of the body has one member for each media type, in order, and only
-- the first one that carries JSON may go without its media type. The bodies of a description are as asked.
theorem bodies_stay_discriminated :
    (∀ text description, Description.load text = .ok description → ∀ op ∈ description.operations,
      ∀ body, op.requestBody = some body → (Keyed.keys body.content).Nodup) ∧
    ∀ (index : ModelIndex) (body : RequestBody) (contract : BodyContract),
      (Keyed.keys body.content).Nodup → 2 ≤ body.content.length → ofBody index body = .ok contract →
      ∃ defaultMediaType variants members,
        contract = .variants "contentType" defaultMediaType body.required variants (.union members) ∧
        variants.length = body.content.length ∧ members.length = body.content.length ∧
        (variants.map BodyVariant.argument).Nodup ∧ "contentType" ∉ variants.map BodyVariant.argument ∧
        ∀ before entry after, body.content = before ++ entry :: after → ∃ variant optional,
          variants[before.length]? = some variant ∧
          variant.mediaType = entry.1 ∧ variant.type = TypeExpr.ofNode entry.2 ∧
          members[before.length]? = some (.object [
            { name := "contentType", type := .text entry.1, optional := optional },
            { name := variant.argument, type := variant.type }]) ∧
          (optional = true ↔
            MediaType.isJson entry.1 = true ∧ ∀ earlier ∈ before, MediaType.isJson earlier.1 = false) := by
  refine ⟨fun text description => Description.load_media, ?_⟩
  intro index body contract isMap several made
  unfold ofBody at made
  split at made
  · rename_i single
    simp [single] at several
  · obtain ⟨variants, variantsMade, next⟩ := bind_ok made
    cases next
    have related := variantsOf_mediaTypes variantsMade
    obtain ⟨distinct, free⟩ := variantsOf_arguments variantsMade
    have sized : variants.length = body.content.length := related.length_eq.symm
    rw [union_variants _ (sized ▸ several) distinct free]
    refine ⟨_, variants, _, rfl, sized, by simp [sized], distinct, ?_, ?_⟩
    · intro member
      obtain ⟨variant, inside, equal⟩ := List.mem_map.mp member
      exact free variant inside (by simp [equal, discriminator])
    · intro before entry after split
      have given : body.content[before.length]? = some entry := by simp [split]
      obtain ⟨variant, found, mediaType, type⟩ := rel_some (related_getElem? related before.length) given
      have keys : body.content.map Prod.fst = before.map Prod.fst ++ entry.1 :: after.map Prod.fst := by simp [split]
      rw [Keyed.keys, keys] at isMap
      refine ⟨variant, (body.content.map Prod.fst).find? MediaType.isJson == some entry.1, found, mediaType, type,
        ?_, ?_⟩
      · rw [List.getElem?_map, found, Option.map_some, variantType, mediaType]
        rfl
      · rw [keys, default_iff isMap, List.forall_mem_map]

-- Three media types of a body that nothing inhabits; two of them carry JSON.
def upload : RequestBody :=
  { content := [("multipart/form-data", .never), ("application/json", .never),
      ("application/merge-patch+json", .never)] }

theorem upload_discriminated :
    ∃ contract, ofBody {} upload = .ok contract ∧ ∃ defaultMediaType variants members,
      contract = .variants "contentType" defaultMediaType false variants (.union members) ∧ members.length = 3 ∧
      (variants.map BodyVariant.argument).Nodup ∧ ∃ variant, variants[1]? = some variant ∧
        members[1]? = some (.object [
          { name := "contentType", type := .text "application/json", optional := true },
          { name := variant.argument, type := .never }]) := by
  have succeeds : (ofBody {} upload).toOption.isSome = true := by decide +kernel
  obtain ⟨contract, made⟩ := Option.isSome_iff_exists.mp succeeds
  have isMap : (Keyed.keys upload.content).Nodup := by decide
  obtain ⟨defaultMediaType, variants, members, equal, _, sized, distinct, _, each⟩ :=
    bodies_stay_discriminated.2 _ _ _ isMap (by decide) (toOption_some made)
  obtain ⟨variant, optional, found, _, type, member, first⟩ :=
    each [("multipart/form-data", .never)] ("application/json", .never) [("application/merge-patch+json", .never)] rfl
  have chosen : optional = true := first.mpr (by decide +kernel)
  subst chosen
  have never : variant.type = .never := type
  rw [never] at member
  exact ⟨contract, toOption_some made, defaultMediaType, variants, members, equal, sized, distinct, variant, found,
    member⟩

end BodyContract

end ApiContract
