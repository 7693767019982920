import ApiContract.Pattern.Search
import ApiContract.Proofs.CheckErrors
import ApiContract.Proofs.ReferenceLimits
import Mathlib.Data.Fintype.Card
import Mathlib.Data.Fintype.EquivFin
import Mathlib.Data.Fintype.Sets
import Mathlib.Order.RelClasses

namespace ApiContract.Validator

-- References may be recursive as long as every way from a name back to itself goes into the value. Then
-- the plain recursion of a check, which counts no references, comes to an end everywhere: a call goes to
-- a less deep value, or stays at the value and gets nearer to a validator that looks into it. The
-- limited check is that recursion, and its limit is never met.

variable {table : List (String × Validator)}

-- Steps that stay at the value: through a validator that wraps another, or from a name to what it
-- stands for.
inductive Stays (table : List (String × Validator)) : Validator → Validator → Prop where
  | through {v part : Validator} (wraps : Wraps v part) : Stays table v part
  | reference {name : String} {v : Validator} (found : table.lookup name = some v) : Stays table (lazy name) v

-- No name leads back to itself by such steps alone.
def Guarded (table : List (String × Validator)) : Prop :=
  ∀ name, ¬ Relation.TransGen (Stays table) (lazy name) (lazy name)

section Chains

open Relation (TransGen ReflTransGen)

theorem wraps_part {v part : Validator} (wraps : Wraps v part) : part ∈ v.parts := by
  cases wraps with
  | union member => exact member
  | intersection member => exact member
  | nullable => exact List.mem_singleton_self _
  | refined => exact List.mem_singleton_self _

theorem stays_lazy {name : String} {v : Validator} (stays : Stays table (lazy name) v) :
    table.lookup name = some v := by
  cases stays with
  | through wraps => cases wraps
  | reference found => exact found

-- A chain of steps comes to an end if it does from every name that it meets.
theorem stays_acc_of_names {v : Validator}
    (names : ∀ name, ReflTransGen (Stays table) v (lazy name) → Acc (fun part v => Stays table v part) (lazy name)) :
    Acc (fun part v => Stays table v part) v := by
  induction v using parts_induction with
  | step v ih =>
    by_cases reference : ∃ name, v = lazy name
    · obtain ⟨name, rfl⟩ := reference
      exact names name .refl
    · refine ⟨_, fun part stays => ?_⟩
      cases stays with
      | through wraps =>
        refine ih part (wraps_part wraps) fun name reached => names name ?_
        exact .head (.through wraps) reached
      | reference found => exact absurd ⟨_, rfl⟩ reference

theorem stays_acc_of_missing {name : String} (absent : name ∉ Keyed.keys table) :
    Acc (fun part v => Stays table v part) (lazy name) := by
  refine ⟨_, fun part stays => ?_⟩
  have found := stays_lazy stays
  rw [lookup_none absent] at found
  cases found

-- There are only so many names in the table, and with none of them leading back to itself they cannot
-- be followed for ever.
theorem names_wellFounded (guarded : Guarded table) :
    WellFounded fun later name : { name // name ∈ Keyed.keys table } =>
      TransGen (Stays table) (lazy name.1) (lazy later.1) := by
  have trans : IsTrans { name // name ∈ Keyed.keys table } fun later name =>
      TransGen (Stays table) (lazy name.1) (lazy later.1) := ⟨fun _ _ _ first second => second.trans first⟩
  have irrefl : Std.Irrefl fun later name : { name // name ∈ Keyed.keys table } =>
      TransGen (Stays table) (lazy name.1) (lazy later.1) := ⟨fun name => guarded name.1⟩
  exact Finite.wellFounded_of_trans_of_irrefl _

theorem stays_wellFounded (guarded : Guarded table) : WellFounded fun part v => Stays table v part := by
  have named (name : { name // name ∈ Keyed.keys table }) :
      Acc (fun part v => Stays table v part) (lazy name.1) := by
    induction name using (names_wellFounded guarded).induction with
    | _ name ih =>
      refine ⟨_, fun v stays => stays_acc_of_names fun later reached => ?_⟩
      by_cases listed : later ∈ Keyed.keys table
      · exact ih ⟨later, listed⟩ (.head' stays reached)
      · exact stays_acc_of_missing listed
  refine ⟨fun v => stays_acc_of_names fun name _ => ?_⟩
  by_cases listed : name ∈ Keyed.keys table
  · exact named ⟨name, listed⟩
  · exact stays_acc_of_missing listed

end Chains

-- The check of the second validator at its value can call that of the first one at its value.
inductive Calls (table : List (String × Validator)) : Validator × Json → Validator × Json → Prop where
  | part {v part : Validator} {value next : Json} (asks : Asks v value part next) :
      Calls table (part, next) (v, value)
  | reference {name : String} {v : Validator} {value : Json} (found : table.lookup name = some v) :
      Calls table (v, value) (lazy name, value)

section Calls

theorem calls_stays {called caller : Validator × Json} (calls : Calls table called caller) :
    Stays table caller.1 called.1 ∧ called.2 = caller.2 ∨ called.2.depth < caller.2.depth := by
  cases calls with
  | part asks => exact (asks_wraps asks).imp_left fun ⟨wraps, same⟩ => ⟨.through wraps, same⟩
  | reference found => exact .inl ⟨.reference found, rfl⟩

-- First the depth of the value counts, then the validator.
theorem calls_wellFounded (guarded : Guarded table) : WellFounded (Calls table) := by
  have lex : WellFounded (Prod.Lex (· < ·) fun part v => Stays table v part) :=
    WellFounded.prod_lex Nat.lt_wfRel.wf (stays_wellFounded guarded)
  refine Subrelation.wf (fun {called caller} calls => ?_)
    (InvImage.wf (fun call : Validator × Json => (call.2.depth, call.1)) lex)
  show Prod.Lex _ _ (called.2.depth, called.1) (caller.2.depth, caller.1)
  rcases calls_stays calls with ⟨stays, same⟩ | deeper
  · rw [same]
    exact .right _ stays
  · exact .left _ _ deeper

end Calls

-- The recursion without a limit: `recur` checks the parts, and what a name stands for.
def follow (table : List (String × Validator)) (recur : Validator → Check) (name : String) : Check :=
  fun value => match table.lookup name with
    | none => .error (.unresolved name)
    | some v => recur v value

def recursion [Pattern.Engine] (table : List (String × Validator)) (recur : Validator → Check) : Validator → Check :=
  layer (follow table recur) recur

section Recursion

variable {f g : Validator → Check} {v : Validator} {value : Json}

theorem follow_congr {name : String}
    (called : ∀ target, table.lookup name = some target → f target value = g target value) :
    follow table f name value = follow table g name value := by
  unfold follow
  split
  · rfl
  · rename_i target found
    exact called target found

variable [Pattern.Engine]

-- The recursion makes the calls and no others.
theorem recursion_congr
    (called : ∀ part next, Calls table (part, next) (v, value) → f part next = g part next) :
    recursion table f v value = recursion table g v value := by
  refine related_layer Outcome.compatible_eq _ _ ?_ fun part next asks => called part next (.part asks)
  rintro name rfl
  exact follow_congr fun target found => called target value (.reference found)

theorem recursion_unique (guarded : Guarded table) (first : f = recursion table f)
    (second : g = recursion table g) : f = g := by
  have agree (call : Validator × Json) : f call.1 call.2 = g call.1 call.2 := by
    induction call using (calls_wellFounded guarded).induction with
    | _ call ih =>
      rw [first, second]
      exact recursion_congr fun part next calls => ih (part, next) calls
  funext v value
  exact agree (v, value)

end Recursion

section Limit

variable {limit : Nat} {value : Json}

-- The errors that a check without a limit can have.
def Ends (e : CheckError) : Prop := ∀ name, e ≠ .endless name

theorem Outcome.Precedes.eq_of_ends {a b : Outcome} (precedes : Precedes a b) (ends : ErrorsIn Ends a) : a = b := by
  rcases precedes with ⟨name, ran⟩ | same
  · exact absurd rfl (ends _ ran name)
  · exact same

variable [Pattern.Engine]

theorem meaning_absent {name : String} (absent : table.lookup name = none)
    (enough : referenceLimit table.length value ≤ limit) :
    meaning table limit name value = .error (.unresolved name) := by
  have positive : 0 < limit := Nat.lt_of_lt_of_le (Nat.mul_pos (Nat.succ_pos _) (Nat.succ_pos _)) enough
  obtain ⟨before, rfl⟩ := Nat.exists_eq_add_one_of_ne_zero positive.ne'
  exact meaning_none absent before value

-- Where what it stands for has an answer, a name has the same one: one reference more makes no
-- difference beyond the limit.
theorem meaning_follow {name : String} (enough : referenceLimit table.length value ≤ limit)
    (ends : ∀ v, table.lookup name = some v → ErrorsIn Ends (evaluate (meaning table limit) v value)) :
    meaning table limit name value = follow table (evaluate (meaning table limit)) name value := by
  unfold follow
  split
  · rename_i absent
    exact meaning_absent absent enough
  · rename_i v found
    have settled := settled_referenceLimit enough name
    rw [meaning_some found] at settled
    exact (settled.eq_of_ends (ends v found)).symm

theorem evaluate_ends (guarded : Guarded table) (call : Validator × Json) {limit : Nat}
    (enough : referenceLimit table.length call.2 ≤ limit) :
    ErrorsIn Ends (evaluate (meaning table limit) call.1 call.2) := by
  induction call using (calls_wellFounded guarded).induction with
  | _ call ih =>
    obtain ⟨v, value⟩ := call
    rw [evaluate_layer]
    have patterns (text : String) : Ends (.pattern text) := fun name equal => by cases equal
    refine related_layer (compatible_errors patterns) (g := evaluate (meaning table limit)) _
      (meaning table limit) ?_ fun part next asks => ?_
    · rintro name rfl
      have target (v : Validator) (found : table.lookup name = some v) :
          ErrorsIn Ends (evaluate (meaning table limit) v value) :=
        ih (v, value) (.reference found) enough
      rw [meaning_follow enough target]
      unfold follow
      split
      · intro e equal other
        cases equal
        exact fun equal => by cases equal
      · rename_i v found
        exact target v found
    · exact ih (part, next) (.part asks) ((referenceLimit_mono _ (asks_within asks).depth_le).trans enough)

-- All limits from that of the value on are the same.
theorem evaluate_eq_of_guarded (guarded : Guarded table) (enough : referenceLimit table.length value ≤ limit)
    (v : Validator) : evaluate (meaning table limit) v value = check table v value := by
  have precedes : Outcome.Precedes (check table v value) (evaluate (meaning table limit) v value) :=
    evaluate_precedes v fun name next _ => meaning_mono table enough name next
  exact (precedes.eq_of_ends (evaluate_ends guarded (v, value) le_rfl)).symm

theorem check_recursion (guarded : Guarded table) : check table = recursion table (check table) := by
  funext v value
  show evaluate (meaning table (referenceLimit table.length value)) v value = _
  rw [evaluate_layer]
  refine related_layer Outcome.compatible_eq _ _ ?_ fun part next asks => ?_
  · rintro name rfl
    rw [meaning_follow le_rfl fun v _ => evaluate_ends guarded (v, value) le_rfl]
    rfl
  · exact evaluate_eq_of_guarded guarded (referenceLimit_mono _ (asks_within asks).depth_le) part

end Limit

-- The calls cannot go on for ever, they are all that the recursion consults, and its one solution is
-- the check, which has an outcome of its own everywhere.
theorem guarded_recursion_terminates [Pattern.Engine] (guarded : Guarded table) :
    WellFounded (Calls table) ∧
    (∀ f g v value, (∀ part next, Calls table (part, next) (v, value) → f part next = g part next) →
      recursion table f v value = recursion table g v value) ∧
    (∀ recur, recur = recursion table recur ↔ recur = check table) ∧
    ∀ v value name, check table v value ≠ .error (.endless name) := by
  refine ⟨calls_wellFounded guarded, fun f g v value => recursion_congr, fun recur => ⟨fun solves => ?_, ?_⟩, ?_⟩
  · exact recursion_unique guarded solves (check_recursion guarded)
  · rintro rfl
    exact check_recursion guarded
  · intro v value name ran
    exact evaluate_ends guarded (v, value) le_rfl _ ran name rfl

-- A thread is nothing or a post, and a post has threads for its replies.
def threads : List (String × Validator) :=
  [("Thread", .union [.null, .lazy "Post"]),
    ("Post", .object [⟨"replies", .array (.lazy "Thread") none none, false⟩] .strict)]

-- Where a post leads without a step into the value, and where a thread does.
def postChain : List Validator := [.object [⟨"replies", .array (.lazy "Thread") none none, false⟩] .strict]

def threadChain : List Validator := .union [.null, .lazy "Post"] :: .null :: .lazy "Post" :: postChain

theorem stays_post {v w : Validator} (member : v = .lazy "Post" ∨ v ∈ postChain) (stays : Stays threads v w) :
    w ∈ postChain := by
  rcases member with rfl | member
  · cases stays_lazy stays
    exact List.mem_singleton_self _
  · cases List.mem_singleton.mp member
    cases stays with
    | through wraps => cases wraps

theorem stays_thread {v w : Validator} (member : v = .lazy "Thread" ∨ v ∈ threadChain) (stays : Stays threads v w) :
    w ∈ threadChain := by
  rcases member with rfl | member
  · cases stays_lazy stays
    exact List.mem_cons_self
  · simp only [threadChain, List.mem_cons] at member
    rcases member with rfl | rfl | rfl | later
    · cases stays with
      | through wraps =>
        cases wraps with
        | union member => exact List.mem_cons_of_mem _ (List.mem_append_left postChain member)
    · cases stays with
      | through wraps => cases wraps
    · exact List.mem_append_right [.union [.null, .lazy "Post"], .null, .lazy "Post"] (stays_post (.inl rfl) stays)
    · exact List.mem_append_right [.union [.null, .lazy "Post"], .null, .lazy "Post"] (stays_post (.inr later) stays)

theorem threads_guarded : Guarded threads := by
  have closed {chain : List Validator} {start w : Validator}
      (step : ∀ {v w}, v = start ∨ v ∈ chain → Stays threads v w → w ∈ chain)
      (reached : Relation.TransGen (Stays threads) start w) : w ∈ chain := by
    induction reached with
    | single stays => exact step (.inl rfl) stays
    | tail _ stays ih => exact step (.inr ih) stays
  intro name back
  obtain ⟨v, first, _⟩ := Relation.TransGen.head'_iff.mp back
  have listed : name ∈ ["Thread", "Post"] := List.mem_map_of_mem (f := Prod.fst) (lookup_mem (stays_lazy first))
  simp only [List.mem_cons, List.not_mem_nil, or_false] at listed
  rcases listed with rfl | rfl
  · have inside : lazy "Thread" ∈ threadChain := closed stays_thread back
    simp [threadChain, postChain] at inside
  · have inside : lazy "Post" ∈ postChain := closed stays_post back
    simp [postChain] at inside

-- A post with two replies, of which one is nothing and the other has a wrong reply of its own.
def posted : Json :=
  .object [("replies", .array [.null, .object [("replies", .array [.bool true])]])]

theorem threads_terminate :
    Guarded threads ∧ WellFounded (Calls threads) ∧ check threads = recursion threads (check threads) ∧
      (check threads (.lazy "Thread") posted ≠ .error (.endless "Thread")) ∧
      check threads (.lazy "Thread") posted = .ok [⟨[], "Invalid input"⟩] := by
  obtain ⟨wellFounded, _, solution, ends⟩ := guarded_recursion_terminates threads_guarded
  exact ⟨threads_guarded, wellFounded, (solution _).mpr rfl, ends _ _ _, rfl⟩

end ApiContract.Validator
