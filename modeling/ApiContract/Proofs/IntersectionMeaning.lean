import ApiContract.Proofs.Inhabitation

namespace ApiContract.TypeExpr

-- A value of all members is a value of the canonical intersection. Flattening puts more types beside
-- an operand, so its index signatures are left with fewer keys; no step takes a declared key away.

variable {r : Reading} {v : Json}

theorem mem_exempt {types : List TypeExpr} {key : String} :
    key ∈ r.exempt types ↔ r.exempting = true ∧ ∃ type ∈ types, key ∈ keys type := by
  unfold Reading.exempt
  split
  · rename_i exempting
    simp only [List.mem_flatMap, exempting, true_and]
  · rename_i exempting
    simp [exempting]

-- Some type of the list declares the key.
def Declares (types : List TypeExpr) (key : String) : Prop := ∃ type ∈ types, key ∈ keys type

theorem exempt_mono {types others : List TypeExpr} (declares : ∀ key, Declares types key → Declares others key)
    {key : String} (member : key ∈ r.exempt types) : key ∈ r.exempt others := by
  obtain ⟨exempting, declared⟩ := mem_exempt.mp member
  exact mem_exempt.mpr ⟨exempting, declares key declared⟩

theorem intersectionPartsAll_eq (types : List TypeExpr) :
    intersectionPartsAll types = types.flatMap intersectionParts := by
  induction types with
  | nil => rfl
  | cons type rest ih => rw [intersectionPartsAll, ih, List.flatMap_cons]

-- Only an object type declares keys, and it is a part of itself.
theorem keys_intersectionParts {type : TypeExpr} {key : String} (own : key ∈ keys type) :
    Declares (intersectionParts type) key := by
  cases type with
  | record members => exact ⟨_, List.mem_singleton_self _, own⟩
  | _ => cases own

theorem exempt_intersectionParts {types : List TypeExpr} {key : String} (member : key ∈ r.exempt types) :
    key ∈ r.exempt (intersectionPartsAll types) := by
  refine exempt_mono ?_ member
  rintro key ⟨type, inside, own⟩
  obtain ⟨part, among, own⟩ := keys_intersectionParts own
  rw [intersectionPartsAll_eq]
  exact ⟨part, List.mem_flatMap.mpr ⟨type, inside, among⟩, own⟩

-- All types of the list hold of the value, with the same keys declared beside each of them.
def Meets (r : Reading) (v : Json) (declared : List String) (types : List TypeExpr) : Prop :=
  ∀ type ∈ types, Inhabits r declared type v

theorem meets_alone {inner declared : List String} {type : TypeExpr} (inhabited : Inhabits r inner type v)
    (wider : ∀ key ∈ inner, key ∈ declared) : Meets r v declared [type] := by
  intro part member
  cases List.mem_singleton.mp member
  exact inhabits_widen inhabited fun key inside => .inl (wider key inside)

theorem meets_intersectionParts {inner declared : List String} {type : TypeExpr}
    (inhabited : Inhabits r inner type v) (wider : ∀ key ∈ inner, key ∈ declared)
    (own : ∀ key ∈ r.exempt (intersectionParts type), key ∈ declared) :
    Meets r v declared (intersectionParts type) := by
  induction inhabited generalizing declared with
  | @intersection _ members _ _ ih =>
    intro part member
    rw [intersectionParts] at own
    rw [intersectionParts, intersectionPartsAll_eq] at member
    obtain ⟨operand, inside, among⟩ := List.mem_flatMap.mp member
    refine ih operand inside ?_ ?_ part among
    · exact fun key beside => own key (exempt_intersectionParts beside)
    · intro key beside
      refine own key (exempt_mono ?_ beside)
      rintro key ⟨type, among, own⟩
      rw [intersectionPartsAll_eq]
      exact ⟨type, List.mem_flatMap.mpr ⟨operand, inside, among⟩, own⟩
  | primitive holds => exact meets_alone (.primitive holds) wider
  | literal holds => exact meets_alone (.literal holds) wider
  | declared found holds => exact meets_alone (.declared found holds) wider
  | reference holds => exact meets_alone (.reference holds) wider
  | union inside holds => exact meets_alone (.union inside holds) wider
  | record shaped required present others =>
    exact meets_alone (.record shaped required present others) wider
  | array all => exact meets_alone (.array all) wider
  | tuple enough ends each => exact meets_alone (.tuple enough ends each) wider

section Gathering

variable {meet : TypeExpr → TypeExpr → TypeExpr}

-- A value of both types is a value of their meet.
def Joint (r : Reading) (meet : TypeExpr → TypeExpr → TypeExpr) : Prop :=
  ∀ a b w, Inhabits r [] a w → Inhabits r [] b w → Inhabits r [] (meet a b) w

def AllHold (r : Reading) (v : Json) (ps : List (Property TypeExpr)) : Prop :=
  ∀ p ∈ ps, PropertyHolds r p v

theorem meetProperty_holds (joint : Joint r meet) {p q : Property TypeExpr} (name : p.name = q.name)
    (first : PropertyHolds r p v) (second : PropertyHolds r q v) :
    PropertyHolds r (meetProperty meet p q) v := by
  refine ⟨first.shaped, ?_, ?_⟩
  · intro optional
    rcases Bool.and_eq_false_iff.mp optional with required | required
    · exact first.required required
    · have present := second.required required
      rwa [← name] at present
  · intro x found
    exact joint _ _ _ (first.present x found) (second.present x (name ▸ found))

theorem addProperty_holds (joint : Joint r meet) {q : Property TypeExpr} {ps : List (Property TypeExpr)}
    (first : AllHold r v ps) (second : PropertyHolds r q v) : AllHold r v (addProperty meet q ps) := by
  induction ps with
  | nil =>
    intro p member
    cases List.mem_singleton.mp member
    exact second
  | cons p rest ih =>
    have later : AllHold r v rest := fun p member => first p (List.mem_cons_of_mem _ member)
    have here := first p List.mem_cons_self
    unfold addProperty
    split
    · rename_i name
      intro other member
      rcases List.mem_cons.mp member with rfl | member
      · exact meetProperty_holds joint (eq_of_beq name) here second
      · exact later other member
    · intro other member
      rcases List.mem_cons.mp member with rfl | member
      · exact here
      · exact ih later other member

theorem addProperties_holds (joint : Joint r meet) {ps qs : List (Property TypeExpr)}
    (first : AllHold r v ps) (second : AllHold r v qs) : AllHold r v (addProperties meet ps qs) := by
  unfold addProperties
  induction qs generalizing ps with
  | nil => exact first
  | cons q rest ih =>
    refine ih (addProperty_holds joint first (second q List.mem_cons_self)) ?_
    exact fun p member => second p (List.mem_cons_of_mem _ member)

theorem gathered_holds (joint : Joint r meet) {ps : List (Property TypeExpr)}
    {groups : List (List (Property TypeExpr))} (first : AllHold r v ps)
    (second : ∀ qs ∈ groups, AllHold r v qs) : AllHold r v (groups.foldl (addProperties meet) ps) := by
  induction groups generalizing ps with
  | nil => exact first
  | cons qs rest ih =>
    refine ih (addProperties_holds joint first (second qs List.mem_cons_self)) ?_
    exact fun group member => second group (List.mem_cons_of_mem _ member)

theorem gatherProperties_meets (joint : Joint r meet) {declared : List String} {types : List TypeExpr}
    (meets : Meets r v declared types) : Meets r v declared (gatherProperties meet types) := by
  induction types with
  | nil => exact meets
  | cons type rest ih =>
    have later : Meets r v declared rest := fun other member => meets other (List.mem_cons_of_mem _ member)
    unfold gatherProperties
    split
    · intro other member
      rcases List.mem_cons.mp member with rfl | member
      · exact meets _ List.mem_cons_self
      · exact ih later other member
    · rename_i ps properties
      intro other member
      rcases List.mem_cons.mp member with rfl | member
      · apply inhabits_object.mpr
        refine gathered_holds joint ?_ ?_
        · exact inhabits_object.mp (properties?_eq properties ▸ meets type List.mem_cons_self)
        · intro qs among
          obtain ⟨operand, inside, found⟩ := List.mem_filterMap.mp among
          exact inhabits_object.mp (properties?_eq found ▸ later operand inside)
      · exact later other (List.mem_of_mem_filter member)

theorem keys_object (ps : List (Property TypeExpr)) : keys (object ps) = ps.map Property.name := by
  induction ps with
  | nil => rfl
  | cons p rest ih => exact congrArg (p.name :: ·) ih

theorem names_addProperty (q : Property TypeExpr) (ps : List (Property TypeExpr)) {key : String}
    (named : key = q.name ∨ key ∈ ps.map Property.name) :
    key ∈ (addProperty meet q ps).map Property.name := by
  induction ps with
  | nil => simpa [addProperty] using named
  | cons p rest ih =>
    unfold addProperty
    split
    · rename_i same
      have name : p.name = q.name := eq_of_beq same
      simpa [meetProperty, name] using named
    · rw [List.map_cons, List.mem_cons] at named ⊢
      rcases named with new | old | later
      · exact .inr (ih (.inl new))
      · exact .inl old
      · exact .inr (ih (.inr later))

theorem names_addProperties {ps qs : List (Property TypeExpr)} {key : String}
    (named : key ∈ ps.map Property.name ∨ key ∈ qs.map Property.name) :
    key ∈ (addProperties meet ps qs).map Property.name := by
  unfold addProperties
  induction qs generalizing ps with
  | nil => simpa using named
  | cons q rest ih =>
    apply ih
    rw [List.map_cons, List.mem_cons] at named
    rcases named with old | new | later
    · exact .inl (names_addProperty q ps (.inr old))
    · exact .inl (names_addProperty q ps (.inl new))
    · exact .inr later

theorem names_gathered {ps : List (Property TypeExpr)} {groups : List (List (Property TypeExpr))}
    {key : String} (named : key ∈ ps.map Property.name ∨ ∃ qs ∈ groups, key ∈ qs.map Property.name) :
    key ∈ (groups.foldl (addProperties meet) ps).map Property.name := by
  induction groups generalizing ps with
  | nil =>
    rcases named with old | ⟨qs, among, _⟩
    · exact old
    · cases among
  | cons group rest ih =>
    apply ih
    rcases named with old | ⟨qs, among, new⟩
    · exact .inl (names_addProperties (.inl old))
    · rcases List.mem_cons.mp among with rfl | later
      · exact .inl (names_addProperties (.inr new))
      · exact .inr ⟨qs, later, new⟩

theorem gatherProperties_declares {types : List TypeExpr} {key : String} (declared : Declares types key) :
    Declares (gatherProperties meet types) key := by
  induction types with
  | nil => exact declared
  | cons type rest ih =>
    obtain ⟨found, member, own⟩ := declared
    unfold gatherProperties
    split
    · rcases List.mem_cons.mp member with rfl | member
      · exact ⟨found, List.mem_cons_self, own⟩
      · obtain ⟨other, inside, own⟩ := ih ⟨found, member, own⟩
        exact ⟨other, List.mem_cons_of_mem _ inside, own⟩
    · rename_i ps properties
      have gathered (named : key ∈ ps.map Property.name ∨
          ∃ qs ∈ rest.filterMap properties?, key ∈ qs.map Property.name) :
          Declares (object ((rest.filterMap properties?).foldl (addProperties meet) ps)
            :: rest.filter fun other => other.properties?.isNone) key :=
        ⟨_, List.mem_cons_self, keys_object _ ▸ names_gathered named⟩
      rcases List.mem_cons.mp member with rfl | member
      · apply gathered
        rw [properties?_eq properties, keys_object] at own
        exact .inl own
      · cases pure : found.properties? with
        | none => exact ⟨found, List.mem_cons_of_mem _ (List.mem_filter.mpr ⟨member, by simp [pure]⟩), own⟩
        | some qs =>
          apply gathered
          rw [properties?_eq pure, keys_object] at own
          exact .inr ⟨qs, List.mem_filterMap.mpr ⟨found, member, pure⟩, own⟩

end Gathering

theorem distinct_declares {types : List TypeExpr} {key : String} (declared : Declares types key) :
    Declares (distinct types) key :=
  exists_mem_distinct (fun _ _ equal own => keys_same equal ▸ own) declared

-- What is dropped because it asks nothing declares nothing either.
theorem kept_declares {types : List TypeExpr} {key : String} (declared : Declares types key) :
    Declares (types.filter fun type => type != unknown && type != emptyObject) key := by
  obtain ⟨type, member, own⟩ := declared
  refine ⟨type, List.mem_filter.mpr ⟨member, ?_⟩, own⟩
  rw [Bool.and_eq_true, bne, bne, Bool.not_eq_true', Bool.not_eq_true', Bool.eq_false_iff, Bool.eq_false_iff]
  constructor
  · intro equal
    rw [same_primitive equal] at own
    cases own
  · intro equal
    rw [keys_same equal] at own
    cases own

theorem contains_never {types : List TypeExpr} (found : types.contains never = true) : never ∈ types := by
  obtain ⟨type, member, equal⟩ := List.contains_iff_exists_mem_beq.mp found
  cases type with
  | primitive p => cases eq_of_beq (show (Primitive.never == p) = true from equal); exact member
  | _ => cases equal

theorem intersectionOfParts_inhabits {outer declared : List String} {types : List TypeExpr}
    (sawUnknown : Bool) (meets : Meets r v declared types)
    (own : ∀ key ∈ declared, key ∈ r.exempt types) :
    Inhabits r outer (intersectionOfParts sawUnknown types) v := by
  unfold intersectionOfParts
  split
  · split
    · exact .primitive trivial
    · exact inhabits_emptyObject
  · exact inhabits_widen (meets _ List.mem_cons_self) fun key member => .inr (own key member)
  · exact .intersection fun type member =>
      inhabits_widen (meets type member) fun key member => .inl (own key member)

theorem intersectionWith_inhabits {meet : TypeExpr → TypeExpr → TypeExpr} (joint : Joint r meet)
    {outer : List String} {types : List TypeExpr} (inhabited : Inhabits r [] (intersection types) v) :
    Inhabits r outer (intersectionWith meet types) v := by
  have parts : Meets r v (r.exempt (intersectionPartsAll types)) (intersectionPartsAll types) :=
    meets_intersectionParts inhabited (fun _ member => nomatch member) fun _ member => member
  unfold intersectionWith
  dsimp only
  split
  · rename_i absurd
    exact (not_inhabits_never (parts never (contains_never absurd))).elim
  · have kept : Meets r v (r.exempt (intersectionPartsAll types))
        (distinct ((intersectionPartsAll types).filter fun type => type != unknown && type != emptyObject)) :=
      fun type member => parts type (List.mem_of_mem_filter (distinct_subset member))
    have gathered := gatherProperties_meets joint kept
    refine intersectionOfParts_inhabits _ (fun type member => gathered type (distinct_subset member)) ?_
    intro key member
    refine exempt_mono ?_ member
    exact fun key declared =>
      distinct_declares (gatherProperties_declares (distinct_declares (kept_declares declared)))

theorem intersectionAt_inhabits (level : Nat) {outer : List String} {types : List TypeExpr}
    (inhabited : Inhabits r [] (intersection types) v) :
    Inhabits r outer (intersectionAt level types) v := by
  have both {a b : TypeExpr} {w : Json} (first : Inhabits r [] a w) (second : Inhabits r [] b w) :
      Inhabits r [] (intersection [a, b]) w := by
    refine .intersection ?_
    intro type member
    rcases List.mem_cons.mp member with rfl | member
    · exact inhabits_anywhere first
    · cases List.mem_singleton.mp member
      exact inhabits_anywhere second
  induction level generalizing v outer types with
  | zero => exact intersectionWith_inhabits (fun a b w first second => both first second) inhabited
  | succ level ih =>
    exact intersectionWith_inhabits (fun a b w first second => ih (both first second)) inhabited

theorem intersectionOf_inhabits {outer : List String} {types : List TypeExpr}
    (inhabited : Inhabits r [] (intersection types) v) :
    Inhabits r outer (intersectionOf types) v :=
  intersectionAt_inhabits _ inhabited

end ApiContract.TypeExpr
