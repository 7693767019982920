import ApiContract.Distinct
import ApiContract.Keyed
import ApiContract.Pointwise
import ApiContract.SortedSet
import ApiContract.Traverse
import Mathlib.Data.List.Forall2

namespace ApiContract

-- What the list operations of the library keep. Equality tests are not assumed to decide equality:
-- types and validators are compared up to the sign of a zero.

section Results

variable {ε α β γ : Type}

theorem map_ok {result : Except ε α} {f : α → β} {y : β} (mapped : result.map f = .ok y) :
    ∃ x, result = .ok x ∧ f x = y := by
  cases result with
  | error e => cases mapped
  | ok x => exact ⟨x, rfl, Except.ok.inj mapped⟩

theorem bind_ok {result : Except ε α} {f : α → Except ε β} {y : β} (ran : result.bind f = .ok y) :
    ∃ x, result = .ok x ∧ f x = .ok y := by
  cases result with
  | error e => cases ran
  | ok x => exact ⟨x, rfl, ran⟩

theorem map_error {result : Except ε α} {f : α → β} {e : ε} (mapped : result.map f = .error e) :
    result = .error e := by
  cases result with
  | error found => cases mapped; rfl
  | ok x => cases mapped

theorem bind_error {result : Except ε α} {f : α → Except ε β} {e : ε} (ran : result.bind f = .error e) :
    result = .error e ∨ ∃ x, result = .ok x ∧ f x = .error e := by
  cases result with
  | error found => cases ran; exact .inl rfl
  | ok x => exact .inr ⟨x, rfl, ran⟩

-- Where the result is an error, the error has the property.
def ErrorsIn (P : ε → Prop) (result : Except ε α) : Prop := ∀ e, result = .error e → P e

theorem errorsIn_ok {P : ε → Prop} (x : α) : ErrorsIn P (.ok x : Except ε α) := by
  intro e equal
  cases equal

theorem errorsIn_map {P : ε → Prop} {result : Except ε α} {f : α → β} (first : ErrorsIn P result) :
    ErrorsIn P (result.map f) :=
  fun e equal => first e (map_error equal)

theorem errorsIn_bind {P : ε → Prop} {result : Except ε α} {f : α → Except ε β} (first : ErrorsIn P result)
    (later : ∀ x, result = .ok x → ErrorsIn P (f x)) : ErrorsIn P (result.bind f) := by
  intro e equal
  rcases bind_error equal with failed | ⟨x, made, failed⟩
  · exact first e failed
  · exact later x made e failed

theorem toOption_some {result : Except ε α} {x : α} (kept : result.toOption = some x) : result = .ok x := by
  cases result with
  | error e => cases kept
  | ok y => exact congrArg Except.ok (Option.some.inj kept)

theorem traverse_ok {f : α → Except ε β} {xs : List α} {ys : List β}
    (ran : traverse f xs = .ok ys) : List.Forall₂ (fun x y => f x = .ok y) xs ys := by
  induction xs generalizing ys with
  | nil => cases ran; exact .nil
  | cons x rest ih =>
    unfold traverse at ran
    split at ran
    · cases ran
    · rename_i y first
      split at ran
      · cases ran
      · rename_i others later
        cases ran
        exact .cons first (ih later)

theorem traverse_of_related {f : α → Except ε β} {g : γ → β} {xs : List α} {zs : List γ}
    (related : List.Forall₂ (fun x z => f x = .ok (g z)) xs zs) : traverse f xs = .ok (zs.map g) := by
  induction related with
  | nil => rfl
  | cons first _ ih =>
    unfold traverse
    rw [first, ih]
    rfl

theorem traverse_error {f : α → Except ε β} {xs : List α} {e : ε} (ran : traverse f xs = .error e) :
    ∃ x ∈ xs, f x = .error e := by
  induction xs with
  | nil => cases ran
  | cons x rest ih =>
    unfold traverse at ran
    split at ran
    · rename_i found first
      cases ran
      exact ⟨x, List.mem_cons_self, first⟩
    · split at ran
      · rename_i found later
        cases ran
        obtain ⟨y, member, failed⟩ := ih later
        exact ⟨y, List.mem_cons_of_mem x member, failed⟩
      · cases ran

theorem errorsIn_traverse {P : ε → Prop} {f : α → Except ε β} {xs : List α}
    (each : ∀ x ∈ xs, ErrorsIn P (f x)) : ErrorsIn P (traverse f xs) := by
  intro e equal
  obtain ⟨x, member, failed⟩ := traverse_error equal
  exact each x member e failed

theorem traverse_succeeds {f : α → Except ε β} {xs : List α}
    (each : ∀ x ∈ xs, ∃ y, f x = .ok y) : ∃ ys, traverse f xs = .ok ys := by
  induction xs with
  | nil => exact ⟨[], rfl⟩
  | cons x rest ih =>
    obtain ⟨⟨y, first⟩, later⟩ := List.forall_mem_cons.mp each
    obtain ⟨ys, others⟩ := ih later
    refine ⟨y :: ys, ?_⟩
    unfold traverse
    rw [first, others]

end Results

section Related

variable {α β : Type} {R : α → β → Prop} {xs : List α} {ys : List β}

theorem related_left (related : List.Forall₂ R xs ys) {x : α} (member : x ∈ xs) :
    ∃ y ∈ ys, R x y := by
  induction related with
  | nil => cases member
  | @cons a b _ _ first _ ih =>
    rcases List.mem_cons.mp member with rfl | later
    · exact ⟨b, List.mem_cons_self, first⟩
    · obtain ⟨y, inside, holds⟩ := ih later
      exact ⟨y, List.mem_cons_of_mem b inside, holds⟩

theorem related_right (related : List.Forall₂ R xs ys) {y : β} (member : y ∈ ys) :
    ∃ x ∈ xs, R x y :=
  related_left (R := fun y x => R x y) related.flip member

theorem related_imp_mem {S : α → β → Prop} (related : List.Forall₂ R xs ys)
    (step : ∀ x ∈ xs, ∀ y ∈ ys, R x y → S x y) : List.Forall₂ S xs ys := by
  induction related with
  | nil => exact .nil
  | cons first _ ih =>
    refine .cons (step _ List.mem_cons_self _ List.mem_cons_self first) (ih ?_)
    exact fun x inside y given => step x (List.mem_cons_of_mem _ inside) y (List.mem_cons_of_mem _ given)

theorem related_imp {S : α → β → Prop} (related : List.Forall₂ R xs ys)
    (step : ∀ x ∈ xs, ∀ y, R x y → S x y) : List.Forall₂ S xs ys :=
  related_imp_mem related fun x inside y _ => step x inside y

theorem map_related {γ : Type} {f : α → γ} {g : β → γ} (related : List.Forall₂ R xs ys)
    (same : ∀ x y, R x y → f x = g y) : xs.map f = ys.map g := by
  induction related with
  | nil => rfl
  | cons first _ ih => rw [List.map_cons, List.map_cons, same _ _ first, ih]

theorem related_getElem? (related : List.Forall₂ R xs ys) (n : Nat) : Option.Rel R xs[n]? ys[n]? := by
  induction related generalizing n with
  | nil => simp
  | cons first _ ih =>
    cases n with
    | zero => simpa using Option.Rel.some first
    | succ n => simpa using ih n

theorem rel_or {a c : Option α} {b d : Option β} (first : Option.Rel R a b) (second : Option.Rel R c d) :
    Option.Rel R (a.or c) (b.or d) := by
  cases first with
  | some holds => exact .some holds
  | none => exact second

theorem rel_some {x : α} {a : Option α} {b : Option β} (related : Option.Rel R a b) (found : a = some x) :
    ∃ y, b = some y ∧ R x y := by
  cases related with
  | some holds => cases found; exact ⟨_, rfl, holds⟩
  | none => cases found

theorem rel_some_right {y : β} {a : Option α} {b : Option β} (related : Option.Rel R a b)
    (found : b = some y) : ∃ x, a = some x ∧ R x y := by
  cases related with
  | none => cases found
  | some holds => cases found; exact ⟨_, rfl, holds⟩

theorem rel_map_left {γ : Type} {f : γ → α} {c : Option γ} {b : Option β}
    (related : Option.Rel R (c.map f) b) : Option.Rel (fun z y => R (f z) y) c b := by
  cases c with
  | none => cases related; exact .none
  | some z =>
    cases related with
    | some holds => exact .some holds

-- Related lists of pairs have related values under every key.
theorem lookup_paired {κ : Type} [BEq κ] [LawfulBEq κ] {P : κ × α → κ × β → Prop} {xs : List (κ × α)}
    {ys : List (κ × β)} (keys : ∀ x y, P x y → x.1 = y.1) (related : List.Forall₂ P xs ys) (key : κ) :
    Option.Rel (fun a b => P (key, a) (key, b)) (xs.lookup key) (ys.lookup key) := by
  induction related with
  | nil => exact .none
  | @cons x y _ _ first _ ih =>
    obtain ⟨k, a⟩ := x
    obtain ⟨l, b⟩ := y
    have same : k = l := keys _ _ first
    subst same
    rw [List.lookup_cons, List.lookup_cons]
    cases equal : key == k with
    | true => cases eq_of_beq equal; exact .some first
    | false => exact ih

theorem lookup_related {κ : Type} [BEq κ] [LawfulBEq κ] {xs : List (κ × α)} {ys : List (κ × β)}
    (related : List.Forall₂ (fun x y => x.1 = y.1 ∧ R x.2 y.2) xs ys) (key : κ) :
    Option.Rel R (xs.lookup key) (ys.lookup key) := by
  have paired := lookup_paired (fun _ _ both => both.1) related key
  generalize xs.lookup key = a at paired ⊢
  generalize ys.lookup key = b at paired ⊢
  cases paired with
  | some both => exact .some both.2
  | none => exact .none

theorem find?_related {p : α → Bool} {q : β → Bool}
    (related : List.Forall₂ (fun x y => p x = q y ∧ R x y) xs ys) :
    Option.Rel R (xs.find? p) (ys.find? q) := by
  induction related with
  | nil => exact .none
  | cons first _ ih =>
    simp only [List.find?_cons, first.1]
    split
    · exact .some first.2
    · exact ih

theorem pointwise_related {holds : α → β → Bool} (same : pointwise holds xs ys = true) :
    List.Forall₂ (fun x y => holds x y = true) xs ys := by
  induction xs generalizing ys with
  | nil =>
    cases ys with
    | nil => exact .nil
    | cons y ys => cases same
  | cons x xs ih =>
    cases ys with
    | nil => cases same
    | cons y ys =>
      obtain ⟨first, later⟩ := (Bool.and_eq_true _ _).mp same
      exact .cons first (ih later)

theorem pointwise_of_related {holds : α → β → Bool}
    (related : List.Forall₂ (fun x y => holds x y = true) xs ys) : pointwise holds xs ys = true := by
  induction related with
  | nil => rfl
  | cons first _ ih => exact (Bool.and_eq_true _ _).mpr ⟨first, ih⟩

theorem pointwise?_related {holds : α → β → Bool} {x : Option α} {y : Option β}
    (same : pointwise? holds x y = true) : Option.Rel (fun x y => holds x y = true) x y := by
  cases x with
  | none =>
    cases y with
    | none => exact .none
    | some y => cases same
  | some x =>
    cases y with
    | none => cases same
    | some y => exact .some same

theorem beq_related {α : Type} [BEq α] {xs ys : List α} (same : (xs == ys) = true) :
    List.Forall₂ (fun x y => (x == y) = true) xs ys := by
  induction xs generalizing ys with
  | nil =>
    cases ys with
    | nil => exact .nil
    | cons y ys => cases same
  | cons x xs ih =>
    cases ys with
    | nil => cases same
    | cons y ys =>
      obtain ⟨first, later⟩ := (Bool.and_eq_true _ _).mp same
      exact .cons first (ih later)

end Related

-- Maps: lists of pairs in which no key comes twice.
section Keyed

variable {κ α β : Type} [BEq κ] [LawfulBEq κ] {entries : List (κ × α)}

theorem lookup_eq_find? (entries : List (κ × α)) (key : κ) :
    entries.lookup key = (entries.find? fun entry => entry.1 == key).map Prod.snd := by
  induction entries with
  | nil => rfl
  | cons entry rest ih =>
    obtain ⟨k, v⟩ := entry
    rw [List.lookup_cons, List.find?_cons, BEq.comm (a := key)]
    cases k == key with
    | true => rfl
    | false => exact ih

omit [LawfulBEq κ] in
theorem lookup_map (f : α → β) (entries : List (κ × α)) (key : κ) :
    (entries.map fun entry => (entry.1, f entry.2)).lookup key = (entries.lookup key).map f := by
  induction entries with
  | nil => rfl
  | cons entry rest ih =>
    rw [List.map_cons, List.lookup_cons, List.lookup_cons]
    cases key == entry.1 with
    | true => rfl
    | false => exact ih

theorem lookup_none {key : κ} (absent : key ∉ entries.map Prod.fst) : entries.lookup key = none := by
  rw [List.lookup_eq_none_iff]
  intro entry member
  rw [bne_iff_ne]
  rintro rfl
  exact absent (List.mem_map_of_mem member)

theorem lookup_mem {key : κ} {value : α} (found : entries.lookup key = some value) :
    (key, value) ∈ entries := by
  rw [lookup_eq_find?] at found
  obtain ⟨entry, first, rfl⟩ := Option.map_eq_some_iff.mp found
  have equal : entry.1 = key := eq_of_beq (by simpa using List.find?_some first)
  subst equal
  exact List.mem_of_find?_eq_some first

theorem contains_iff_mem {key : κ} : Keyed.contains key entries = true ↔ key ∈ Keyed.keys entries := by
  constructor
  · intro present
    obtain ⟨value, found⟩ := Option.isSome_iff_exists.mp present
    exact List.mem_map_of_mem (lookup_mem found)
  · intro member
    obtain ⟨entry, inside, rfl⟩ := List.mem_map.mp member
    rw [Keyed.contains, Option.isSome_iff_ne_none, ne_eq, List.lookup_eq_none_iff]
    intro none
    simpa using none entry inside

theorem mem_insert {key : κ} {value : α} {entry : κ × α} (member : entry ∈ Keyed.insert key value entries) :
    entry ∈ entries ∨ entry = (key, value) := by
  induction entries with
  | nil => exact .inr (List.mem_singleton.mp member)
  | cons first rest ih =>
    obtain ⟨k, v⟩ := first
    unfold Keyed.insert at member
    split at member
    · rename_i equal
      rcases List.mem_cons.mp member with rfl | later
      · exact .inr (by rw [eq_of_beq equal])
      · exact .inl (List.mem_cons_of_mem _ later)
    · rcases List.mem_cons.mp member with rfl | later
      · exact .inl List.mem_cons_self
      · exact (ih later).imp_left (List.mem_cons_of_mem _)

theorem mem_keys_insert {key other : κ} {value : α}
    (member : other ∈ Keyed.keys (Keyed.insert key value entries)) :
    other ∈ Keyed.keys entries ∨ other = key := by
  obtain ⟨entry, inside, rfl⟩ := List.mem_map.mp member
  rcases mem_insert inside with old | rfl
  · exact .inl (List.mem_map_of_mem old)
  · exact .inr rfl

theorem nodup_keys_insert (key : κ) (value : α) (distinct : (Keyed.keys entries).Nodup) :
    (Keyed.keys (Keyed.insert key value entries)).Nodup := by
  induction entries with
  | nil => exact List.nodup_cons.mpr ⟨List.not_mem_nil, List.nodup_nil⟩
  | cons first rest ih =>
    obtain ⟨absent, later⟩ := List.nodup_cons.mp distinct
    unfold Keyed.insert
    split
    · exact distinct
    · rename_i different
      refine List.nodup_cons.mpr ⟨?_, ih later⟩
      intro member
      rcases mem_keys_insert member with old | equal
      · exact absent old
      · exact different (beq_iff_eq.mpr equal)

theorem lookup_insert_self (key : κ) (value : α) (entries : List (κ × α)) :
    (Keyed.insert key value entries).lookup key = some value := by
  induction entries with
  | nil => rw [Keyed.insert, List.lookup_cons, beq_self_eq_true]
  | cons first rest ih =>
    unfold Keyed.insert
    split
    · rename_i found
      rw [List.lookup_cons, eq_of_beq found, beq_self_eq_true]
    · rename_i different
      have apart : (key == first.1) = false := beq_false_of_ne fun equal => different (beq_iff_eq.mpr equal.symm)
      rw [List.lookup_cons, apart, ih]

theorem lookup_insert_of_ne {key other : κ} (differ : other ≠ key) (value : α) (entries : List (κ × α)) :
    (Keyed.insert key value entries).lookup other = entries.lookup other := by
  induction entries with
  | nil => rw [Keyed.insert, List.lookup_cons, beq_false_of_ne differ]
  | cons first rest ih =>
    unfold Keyed.insert
    split
    · rename_i found
      rw [List.lookup_cons, List.lookup_cons, eq_of_beq found, beq_false_of_ne differ]
    · rw [List.lookup_cons, List.lookup_cons, ih]

theorem mem_inserted {pairs : List (κ × α)} {entry : κ × α}
    (member : entry ∈ pairs.foldl (fun map pair => Keyed.insert pair.1 pair.2 map) entries) :
    entry ∈ entries ∨ entry ∈ pairs := by
  induction pairs generalizing entries with
  | nil => exact .inl member
  | cons pair rest ih =>
    rcases ih member with before | later
    · rcases mem_insert before with old | rfl
      · exact .inl old
      · exact .inr List.mem_cons_self
    · exact .inr (List.mem_cons_of_mem _ later)

theorem nodup_keys_inserted (pairs : List (κ × α)) (distinct : (Keyed.keys entries).Nodup) :
    (Keyed.keys (pairs.foldl (fun map pair => Keyed.insert pair.1 pair.2 map) entries)).Nodup := by
  induction pairs generalizing entries with
  | nil => exact distinct
  | cons pair rest ih => exact ih (nodup_keys_insert pair.1 pair.2 distinct)

theorem lookup_of_mem (distinct : (Keyed.keys entries).Nodup) {key : κ} {value : α}
    (member : (key, value) ∈ entries) : entries.lookup key = some value := by
  induction entries with
  | nil => cases member
  | cons first rest ih =>
    obtain ⟨absent, later⟩ := List.nodup_cons.mp distinct
    rw [List.lookup_cons]
    rcases List.mem_cons.mp member with rfl | inside
    · rw [beq_self_eq_true]
    · have different : key ≠ first.1 := fun equal => absent (equal ▸ List.mem_map_of_mem inside)
      rw [beq_false_of_ne different]
      exact ih later inside

-- What is kept of a map can be found under the key that it was kept for.
theorem find?_kept {keep : κ × α → Option β} {p : β → Bool} (key : κ)
    (distinct : (entries.map Prod.fst).Nodup)
    (only : ∀ entry kept, keep entry = some kept → (p kept = true ↔ entry.1 = key)) :
    (entries.filterMap keep).find? p = (entries.lookup key).bind fun value => keep (key, value) := by
  induction entries with
  | nil => rfl
  | cons entry rest ih =>
    obtain ⟨k, v⟩ := entry
    obtain ⟨absent, later⟩ := List.nodup_cons.mp distinct
    have tail := ih later
    rw [List.lookup_cons]
    by_cases equal : k = key
    · subst equal
      rw [lookup_none absent] at tail
      rw [beq_self_eq_true]
      cases kept : keep (k, v) with
      | none => rw [List.filterMap_cons_none kept, tail, Option.bind_none, Option.bind_some, kept]
      | some b =>
        have holds : p b = true := (only _ b kept).mpr rfl
        rw [List.filterMap_cons_some kept, List.find?_cons_of_pos holds, Option.bind_some, kept]
    · rw [beq_false_of_ne (Ne.symm equal)]
      cases kept : keep (k, v) with
      | none => rw [List.filterMap_cons_none kept, tail]
      | some b =>
        have fails : ¬ p b = true := fun holds => equal ((only _ b kept).mp holds)
        rw [List.filterMap_cons_some kept, List.find?_cons_of_neg fails, tail]

end Keyed

section Distinct

variable {α : Type} [BEq α]

theorem distinct_subset {x : α} {xs : List α} (member : x ∈ distinct xs) : x ∈ xs := by
  induction xs with
  | nil => cases member
  | cons head rest ih =>
    rcases List.mem_cons.mp member with rfl | later
    · exact List.mem_cons_self
    · exact List.mem_cons_of_mem head (ih (List.mem_of_mem_filter later))

theorem distinct_eq_nil {xs : List α} (none : distinct xs = []) : xs = [] := by
  cases xs with
  | nil => rfl
  | cons head rest => cases none

theorem distinct_sublist (xs : List α) : (distinct xs).Sublist xs := by
  induction xs with
  | nil => exact List.Sublist.refl _
  | cons head rest ih => exact .cons_cons head (List.filter_sublist.trans ih)

theorem pairwise_distinct (xs : List α) : (distinct xs).Pairwise fun a b => (a == b) = false := by
  induction xs with
  | nil => exact .nil
  | cons head rest ih =>
    refine List.pairwise_cons.mpr ⟨?_, ih.filter _⟩
    intro other member
    simpa using (List.mem_filter.mp member).2

theorem distinct_of_pairwise {xs : List α} (apart : xs.Pairwise fun a b => (a == b) = false) :
    distinct xs = xs := by
  induction xs with
  | nil => rfl
  | cons head rest ih =>
    obtain ⟨first, later⟩ := List.pairwise_cons.mp apart
    have all : rest.filter (fun y => !(head == y)) = rest :=
      List.filter_eq_self.mpr fun other member => by simp [first other member]
    rw [distinct, ih later, all]

theorem distinct_append (xs ys : List α) :
    distinct (xs ++ ys) = distinct xs ++ (distinct ys).filter fun y => xs.all fun x => !(x == y) := by
  induction xs with
  | nil => simp [distinct]
  | cons head rest ih =>
    simp only [List.cons_append, distinct, ih, List.filter_append, List.filter_filter, List.all_cons]

-- What is there already adds nothing.
theorem distinct_append_subset [ReflBEq α] {xs ys : List α} (held : ys ⊆ xs) :
    distinct (xs ++ ys) = distinct xs := by
  have none : (distinct ys).filter (fun y => xs.all fun x => !(x == y)) = [] := by
    refine List.filter_eq_nil_iff.mpr ?_
    intro y member all
    simpa using List.all_eq_true.mp all y (held (distinct_subset member))
  rw [distinct_append, none, List.append_nil]

theorem distinct_of_forall_eq [ReflBEq α] {a : α} {xs : List α} (some : xs ≠ []) (all : ∀ x ∈ xs, x = a) :
    distinct xs = [a] := by
  cases xs with
  | nil => exact absurd rfl some
  | cons x rest =>
    obtain ⟨rfl, later⟩ := List.forall_mem_cons.mp all
    exact distinct_append_subset fun y member => List.mem_singleton.mpr (later y member)

-- A second copy of elements that differ from each other adds nothing.
theorem distinct_twice [ReflBEq α] {xs : List α} (apart : xs.Pairwise fun a b => (a == b) = false) :
    distinct (xs ++ xs) = xs := by
  rw [distinct_append_subset (List.Subset.refl xs), distinct_of_pairwise apart]

-- A property that passes from an element to every one equal to it is not lost with repetitions.
theorem exists_mem_distinct {P : α → Prop} (respects : ∀ x y, (x == y) = true → P y → P x)
    {xs : List α} (found : ∃ x ∈ xs, P x) : ∃ x ∈ distinct xs, P x := by
  induction xs with
  | nil =>
    obtain ⟨x, member, _⟩ := found
    cases member
  | cons head rest ih =>
    obtain ⟨x, member, holds⟩ := found
    rcases List.mem_cons.mp member with rfl | later
    · exact ⟨x, List.mem_cons_self, holds⟩
    · obtain ⟨y, kept, holds⟩ := ih ⟨x, later, holds⟩
      by_cases equal : (head == y) = true
      · exact ⟨head, List.mem_cons_self, respects head y equal holds⟩
      · exact ⟨y, List.mem_cons_of_mem head (List.mem_filter.mpr ⟨kept, by simpa using equal⟩), holds⟩

theorem mem_distinct [LawfulBEq α] {x : α} {xs : List α} : x ∈ distinct xs ↔ x ∈ xs := by
  constructor
  · exact distinct_subset
  · intro member
    obtain ⟨y, kept, equal⟩ := exists_mem_distinct (P := fun y => y = x)
      (fun a b same equal => (eq_of_beq same).trans equal) ⟨x, member, rfl⟩
    rwa [equal] at kept

theorem nodup_distinct [LawfulBEq α] (xs : List α) : (distinct xs).Nodup := by
  induction xs with
  | nil => exact .nil
  | cons head rest ih =>
    refine List.nodup_cons.mpr ⟨?_, ih.filter _⟩
    intro member
    simpa using (List.mem_filter.mp member).2

-- What is kept of two lists together depends only on what is kept of each.
theorem distinct_append_congr [LawfulBEq α] {xs xs' ys ys' : List α} (first : distinct xs = distinct xs')
    (second : distinct ys = distinct ys') : distinct (xs ++ ys) = distinct (xs' ++ ys') := by
  have members (x : α) : x ∈ xs ↔ x ∈ xs' := by rw [← mem_distinct, first, mem_distinct]
  have fresh (y : α) : (xs.all fun x => !(x == y)) = xs'.all fun x => !(x == y) := by
    rw [Bool.eq_iff_iff, List.all_eq_true, List.all_eq_true]
    exact forall_congr' fun x => imp_congr_left (members x)
  simp only [distinct_append, first, second, fresh]

theorem distinct_flatMap_congr {ι : Type} [LawfulBEq α] {f g : ι → List α} {xs : List ι}
    (each : ∀ x ∈ xs, distinct (f x) = distinct (g x)) : distinct (xs.flatMap f) = distinct (xs.flatMap g) := by
  induction xs with
  | nil => rfl
  | cons x rest ih =>
    obtain ⟨first, later⟩ := List.forall_mem_cons.mp each
    exact distinct_append_congr first (ih later)

-- Elements whose results stand before them already can be left out.
theorem distinct_flatMap_filter {ι : Type} [LawfulBEq α] {f : ι → List α} {keep : ι → Bool} {xs : List ι}
    {before : List α} (covered : ∀ x ∈ xs, keep x = false → f x ⊆ before) :
    distinct (before ++ (xs.filter keep).flatMap f) = distinct (before ++ xs.flatMap f) := by
  induction xs generalizing before with
  | nil => rfl
  | cons x rest ih =>
    obtain ⟨own, later⟩ := List.forall_mem_cons.mp covered
    rw [List.flatMap_cons, ← List.append_assoc]
    cases kept : keep x with
    | true =>
      rw [List.filter_cons_of_pos kept, List.flatMap_cons, ← List.append_assoc]
      exact ih fun y member dropped => List.Subset.trans (later y member dropped) (List.subset_append_left _ _)
    | false =>
      rw [List.filter_cons_of_neg (by simp [kept]), ih later]
      exact distinct_append_congr (distinct_append_subset (own kept)).symm rfl

-- Of equal elements, with equal results, only the first counts.
theorem distinct_flatMap_distinct {ι : Type} [BEq ι] [LawfulBEq α] {f : ι → List α}
    (respects : ∀ x y, (x == y) = true → f x = f y) (xs : List ι) :
    distinct ((distinct xs).flatMap f) = distinct (xs.flatMap f) := by
  induction xs with
  | nil => rfl
  | cons x rest ih =>
    rw [distinct, List.flatMap_cons, List.flatMap_cons, distinct_flatMap_filter]
    · exact distinct_append_congr rfl ih
    · intro y _ dropped
      rw [respects x y (by simpa using dropped)]
      exact List.Subset.refl _

theorem distinct_eq_singleton [LawfulBEq α] {x : α} {xs : List α} :
    distinct xs = [x] ↔ ∀ y, y ∈ xs ↔ y = x := by
  constructor
  · intro single y
    rw [← mem_distinct, single, List.mem_singleton]
  · intro only
    have found : x ∈ distinct xs := mem_distinct.mpr ((only x).mpr rfl)
    have all : ∀ y ∈ distinct xs, y = x := fun y member => (only y).mp (mem_distinct.mp member)
    have once := nodup_distinct xs
    generalize distinct xs = ys at found all once
    cases ys with
    | nil => cases found
    | cons first rest =>
      obtain ⟨rfl, others⟩ := List.forall_mem_cons.mp all
      have none : rest = [] := List.eq_nil_iff_forall_not_mem.mpr fun y member =>
        (List.nodup_cons.mp once).1 (others y member ▸ member)
      rw [none]

end Distinct

section Sorted

variable {α : Type} {before : α → α → Bool}

theorem mem_sortedInsert (total : ∀ a b, before a b = false → before b a = false → a = b) {x y : α}
    {set : List α} : x ∈ SortedSet.insert before y set ↔ x = y ∨ x ∈ set := by
  induction set with
  | nil => exact List.mem_singleton.trans (by simp)
  | cons first rest ih =>
    unfold SortedSet.insert
    split
    · exact List.mem_cons
    · split
      · rw [List.mem_cons, ih, List.mem_cons, or_left_comm]
      · rename_i notBefore notAfter
        have equal := total y first (by simpa using notBefore) (by simpa using notAfter)
        rw [equal, List.mem_cons, ← or_assoc, or_self]

theorem mem_sortedOfList (total : ∀ a b, before a b = false → before b a = false → a = b) {x : α}
    {xs : List α} : x ∈ SortedSet.ofList before xs ↔ x ∈ xs := by
  have run (set : List α) : x ∈ xs.foldl (fun set x => SortedSet.insert before x set) set
      ↔ x ∈ xs ∨ x ∈ set := by
    induction xs generalizing set with
    | nil => simp
    | cons first rest ih =>
      rw [List.foldl_cons, ih, mem_sortedInsert total, List.mem_cons, ← or_assoc, or_comm (a := x ∈ rest)]
  exact (run []).trans (by simp)

theorem sorted_insert (total : ∀ a b, before a b = false → before b a = false → a = b)
    (trans : ∀ a b c, before a b = true → before b c = true → before a c = true) (x : α) {set : List α}
    (sorted : set.Pairwise fun a b => before a b = true) :
    (SortedSet.insert before x set).Pairwise fun a b => before a b = true := by
  induction set with
  | nil => exact List.pairwise_singleton _ _
  | cons first rest ih =>
    obtain ⟨least, later⟩ := List.pairwise_cons.mp sorted
    unfold SortedSet.insert
    split
    · rename_i early
      refine List.pairwise_cons.mpr ⟨?_, sorted⟩
      exact List.forall_mem_cons.mpr ⟨early, fun other member => trans _ _ _ early (least other member)⟩
    · split
      · rename_i late
        refine List.pairwise_cons.mpr ⟨?_, ih later⟩
        intro other member
        rcases (mem_sortedInsert total).mp member with rfl | old
        · exact late
        · exact least other old
      · exact sorted

theorem nodup_sortedOfList (total : ∀ a b, before a b = false → before b a = false → a = b)
    (trans : ∀ a b c, before a b = true → before b c = true → before a c = true)
    (irrefl : ∀ a, before a a = false) (xs : List α) : (SortedSet.ofList before xs).Nodup := by
  have run (set : List α) (sorted : set.Pairwise fun a b => before a b = true) :
      (xs.foldl (fun set x => SortedSet.insert before x set) set).Pairwise
        fun a b => before a b = true := by
    induction xs generalizing set with
    | nil => exact sorted
    | cons first rest ih => exact ih _ (sorted_insert total trans first sorted)
  refine (run [] List.Pairwise.nil).imp ?_
  rintro a b early rfl
  rw [irrefl] at early
  cases early

theorem mem_ofStrings {text : String} {texts : List String} :
    text ∈ SortedSet.ofStrings texts ↔ text ∈ texts :=
  mem_sortedOfList fun _ _ first second =>
    String.le_antisymm (of_decide_eq_false second) (of_decide_eq_false first)

end Sorted

end ApiContract
