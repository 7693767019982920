import ApiContract.Proofs.CheckCalls

namespace ApiContract.Validator

-- A check has an error only for a pattern that cannot be read, or where a reference that it follows has
-- one. So what holds of those two holds of every error.

section References

variable {P : CheckError → Prop} {resolve : String → Check}

theorem compatible_errors (patterns : ∀ text, P (.pattern text)) :
    Outcome.Compatible fun a _ => ErrorsIn P a where
  issues _ := errorsIn_ok _
  pattern text := by
    intro e equal
    cases equal
    exact patterns text
  bind first second := errorsIn_bind first fun found _ => second found

-- Every error of the check has the property, whatever the value.
def Raises (P : CheckError → Prop) (check : Check) : Prop := ∀ value, ErrorsIn P (check value)

variable [Pattern.Engine]

theorem evaluate_errors (patterns : ∀ text, P (.pattern text)) {v : Validator}
    (named : v.NamesIn fun name => Raises P (resolve name)) : Raises P (evaluate resolve v) :=
  fun _ => related_evaluate (compatible_errors patterns) resolve resolve
    fun name mentioned next _ => named name mentioned next

-- Every name in a validator of the table is a name of the table.
def Closed (table : List (String × Validator)) : Prop :=
  ∀ entry ∈ table, entry.2.NamesIn (· ∈ Keyed.keys table)

theorem resolveWithin_errors {table : List (String × Validator)} (closed : Closed table)
    (patterns : ∀ text, P (.pattern text)) (endless : ∀ name, P (.endless name)) (limit : Nat) {name : String}
    (listed : name ∈ Keyed.keys table) :
    Raises P (resolveWithin (fun name => table.lookup name) limit name) := by
  induction limit generalizing name with
  | zero =>
    intro value e equal
    cases equal
    exact endless name
  | succ limit ih =>
    intro value
    unfold resolveWithin
    split
    · rename_i absent
      obtain ⟨entry, member, rfl⟩ := List.mem_map.mp listed
      simpa using List.lookup_eq_none_iff.mp absent entry member
    · rename_i v found
      refine evaluate_errors patterns ?_ value
      exact fun other mentioned => ih (closed _ (lookup_mem found) other mentioned)

-- A check whose references all lead into a closed table never misses a validator.
theorem check_finds_references {table : List (String × Validator)} (closed : Closed table) {v : Validator}
    (named : v.NamesIn (· ∈ Keyed.keys table)) (value : Json) (name : String) :
    check table v value ≠ .error (.unresolved name) := by
  intro missed
  refine evaluate_errors (P := fun e => ∀ missing, e ≠ .unresolved missing) ?_ ?_ value _ missed name rfl
  · exact fun text missing equal => by cases equal
  · intro other mentioned
    refine resolveWithin_errors closed ?_ ?_ _ (named other mentioned)
    · exact fun text missing equal => by cases equal
    · exact fun endless missing equal => by cases equal

end References

end ApiContract.Validator
