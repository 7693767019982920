import ApiContract.Identifier
import Mathlib.Data.List.Basic

namespace ApiContract.Text

-- Reading a text from the front. Two texts with something behind them may be the same as a whole; they can be
-- told apart if then they end at the same place and stand for the same thing.

-- Nothing at all, or one of the marks and then anything.
def Begins (marks : List (List Char)) (text : List Char) : Prop :=
  text = [] ∨ ∃ mark ∈ marks, ∃ rest, text = mark ++ rest

def Reads (follow : List Char → Prop) (a b : List Char) (same : Prop) : Prop :=
  ∀ r s, follow r → follow s → a ++ r = b ++ s → same ∧ r = s

section Marks

variable {marks : List (List Char)} {mark : List Char}

theorem Begins.mono {more : List (List Char)} (subset : marks ⊆ more) {text : List Char} (begins : Begins marks text) :
    Begins more text := by
  rcases begins with empty | ⟨mark, listed, rest, equal⟩
  · exact .inl empty
  · exact .inr ⟨mark, subset listed, rest, equal⟩

theorem begins_mark (listed : mark ∈ marks) (rest : List Char) : Begins marks (mark ++ rest) :=
  .inr ⟨mark, listed, rest, rfl⟩

-- What the first character tells about all that may follow.
theorem Begins.head {P : Char → Prop} (each : ∀ mark ∈ marks, ∃ c ∈ mark.head?, P c) {text : List Char}
    (begins : Begins marks text) : ∀ c ∈ text.head?, P c := by
  rcases begins with rfl | ⟨mark, listed, rest, rfl⟩
  · intro c first
    cases first
  · obtain ⟨c, first, holds⟩ := each mark listed
    intro d start
    rw [List.head?_append, first] at start
    cases start
    exact holds

end Marks

section Starts

-- The text is not empty, and its first character has the property.
def StartsWith (P : Char → Prop) (text : List Char) : Prop := ∃ c rest, text = c :: rest ∧ P c

variable {P Q : Char → Prop} {text : List Char}

theorem StartsWith.append (starts : StartsWith P text) (more : List Char) : StartsWith P (text ++ more) := by
  obtain ⟨c, rest, rfl, holds⟩ := starts
  exact ⟨c, rest ++ more, rfl, holds⟩

theorem StartsWith.imp (starts : StartsWith P text) (step : ∀ c, P c → Q c) : StartsWith Q text := by
  obtain ⟨c, rest, equal, holds⟩ := starts
  exact ⟨c, rest, equal, step c holds⟩

theorem startsWith_intercalate {α : Type} {spelled : α → List Char} {xs : List α} (mark : List Char) (some : xs ≠ [])
    (each : ∀ x ∈ xs, StartsWith P (spelled x)) : StartsWith P (mark.intercalate (xs.map spelled)) := by
  cases xs with
  | nil => exact absurd rfl some
  | cons x xs =>
    have first := each x List.mem_cons_self
    cases xs with
    | nil => simpa [List.intercalate] using first
    | cons y ys => simpa [List.intercalate] using first.append _

-- Two texts that start with different characters are no starts of the same text.
theorem StartsWith.reads {follow : List Char → Prop} {other : List Char} {same : Prop} (starts : StartsWith P text)
    (differs : StartsWith (fun c => ¬ P c) other) : Reads follow text other same := by
  obtain ⟨c, rest, rfl, holds⟩ := starts
  obtain ⟨d, more, rfl, fails⟩ := differs
  intro r s _ _ equal
  exact absurd ((List.cons.inj equal).1 ▸ holds) fails

end Starts

section Combining

variable {follow next : List Char → Prop} {a b c d : List Char} {same also : Prop}

theorem Reads.mono (reads : Reads follow a b same) (weaker : ∀ r, next r → follow r) : Reads next a b same :=
  fun r s first second equal => reads r s (weaker r first) (weaker s second) equal

theorem Reads.imp (reads : Reads follow a b same) (step : same → also) : Reads follow a b also := by
  intro r s first second equal
  obtain ⟨holds, rest⟩ := reads r s first second equal
  exact ⟨step holds, rest⟩

-- One text after the other: what comes second has to be fit to follow what comes first.
theorem Reads.append (reads : Reads follow a b same) (later : same → Reads next c d also)
    (left : ∀ r, next r → follow (c ++ r)) (right : ∀ s, next s → follow (d ++ s)) :
    Reads next (a ++ c) (b ++ d) (same ∧ also) := by
  intro r s first second equal
  rw [List.append_assoc, List.append_assoc] at equal
  obtain ⟨here, rest⟩ := reads _ _ (left r first) (right s second) equal
  obtain ⟨there, behind⟩ := later here r s first second rest
  exact ⟨⟨here, there⟩, behind⟩

theorem reads_mark (mark : List Char) : Reads follow mark mark True :=
  fun _ _ _ _ equal => ⟨trivial, List.append_cancel_left equal⟩

theorem Reads.after (mark : List Char) (reads : Reads follow a b same) : Reads follow (mark ++ a) (mark ++ b) same := by
  intro r s first second equal
  rw [List.append_assoc, List.append_assoc] at equal
  exact reads r s first second (List.append_cancel_left equal)

-- A closing mark makes it irrelevant what stands behind it.
theorem Reads.closed {mark : List Char} (reads : Reads follow a b same) (closes : ∀ r, follow (mark ++ r)) :
    Reads next (a ++ mark) (b ++ mark) same := by
  intro r s _ _ equal
  rw [List.append_assoc, List.append_assoc] at equal
  obtain ⟨holds, rest⟩ := reads _ _ (closes r) (closes s) equal
  exact ⟨holds, List.append_cancel_left rest⟩

end Combining

section Lists

variable {α γ : Type} {text : α → List Char} {value : α → γ} {mark : List Char} {marks : List (List Char)}

-- Items with a mark between them, where the mark cannot be what follows the whole. The induction takes one
-- item from both lists; a list that ends before the other is followed by the mark.
theorem reads_separated {xs ys : List α} (first : xs ≠ []) (second : ys ≠ [])
    (apart : ∀ rest, ¬ Begins marks (mark ++ rest))
    (each : ∀ x ∈ xs, ∀ y ∈ ys, Reads (Begins (mark :: marks)) (text x) (text y) (value x = value y)) :
    Reads (Begins marks) (mark.intercalate (xs.map text)) (mark.intercalate (ys.map text))
      (xs.map value = ys.map value) := by
  have ending {r : List Char} (begins : Begins marks r) : Begins (mark :: marks) r :=
    begins.mono (List.subset_cons_self _ _)
  have between (rest : List Char) : Begins (mark :: marks) (mark ++ rest) := begins_mark List.mem_cons_self rest
  induction xs generalizing ys with
  | nil => exact absurd rfl first
  | cons x xs ih =>
    cases ys with
    | nil => exact absurd rfl second
    | cons y ys =>
      have here := each x List.mem_cons_self y List.mem_cons_self
      cases xs with
      | nil =>
        cases ys with
        | nil =>
          intro r s left right equal
          obtain ⟨same, rest⟩ := here r s (ending left) (ending right) (by simpa using equal)
          exact ⟨by simpa using same, rest⟩
        | cons y' ys =>
          intro r s left right equal
          have longer : text x ++ r = text y ++ (mark ++ (mark.intercalate ((y' :: ys).map text) ++ s)) := by
            simpa [List.intercalate] using equal
          obtain ⟨_, rest⟩ := here _ _ (ending left) (between _) longer
          exact absurd (rest ▸ left) (apart _)
      | cons x' xs =>
        cases ys with
        | nil =>
          intro r s left right equal
          have longer : text x ++ (mark ++ (mark.intercalate ((x' :: xs).map text) ++ r)) = text y ++ s := by
            simpa [List.intercalate] using equal
          obtain ⟨_, rest⟩ := here _ _ (between _) (ending right) longer
          exact absurd (rest ▸ right) (apart _)
        | cons y' ys =>
          intro r s left right equal
          have longer : text x ++ (mark ++ (mark.intercalate ((x' :: xs).map text) ++ r)) =
              text y ++ (mark ++ (mark.intercalate ((y' :: ys).map text) ++ s)) := by
            simpa [List.intercalate] using equal
          obtain ⟨same, rest⟩ := here _ _ (between _) (between _) longer
          obtain ⟨later, behind⟩ := ih (List.cons_ne_nil _ _) (List.cons_ne_nil _ _)
            (fun x inside y listed => each x (List.mem_cons_of_mem _ inside) y (List.mem_cons_of_mem _ listed))
            r s left right (List.append_cancel_left rest)
          exact ⟨congrArg₂ List.cons same later, behind⟩

end Lists

section Tokens

-- A text that a stop character ends.
theorem reads_until {stop : Char → Prop} {a b : List Char} (first : ∀ c ∈ a, ¬ stop c) (second : ∀ c ∈ b, ¬ stop c) :
    Reads (fun r => ∀ c ∈ r.head?, stop c) a b (a = b) := by
  induction a generalizing b with
  | nil =>
    intro r s left _ equal
    cases b with
    | nil => exact ⟨rfl, equal⟩
    | cons d b =>
      have start : r = d :: (b ++ s) := equal
      exact absurd (left d (by simp [start])) (second d List.mem_cons_self)
  | cons c a ih =>
    obtain ⟨here, later⟩ := List.forall_mem_cons.mp first
    intro r s left right equal
    cases b with
    | nil =>
      have start : c :: (a ++ r) = s := equal
      exact absurd (right c (by simp [← start])) here
    | cons d b =>
      obtain ⟨rfl, rest⟩ := List.cons.inj (show c :: (a ++ r) = d :: (b ++ s) from equal)
      obtain ⟨rfl, behind⟩ := ih later (List.forall_mem_cons.mp second).2 r s left right rest
      exact ⟨rfl, behind⟩

-- What one character is written as between quotes.
def escapeChar (c : Char) : List Char := if c = '\\' ∨ c = '"' then ['\\', c] else [c]

theorem escapeChars_cons (c : Char) (rest : List Char) :
    Identifier.escapeChars (c :: rest) = escapeChar c ++ Identifier.escapeChars rest := by
  rw [Identifier.escapeChars, escapeChar]
  split <;> rfl

theorem reads_escapeChar (c d : Char) :
    Reads (fun _ => True) (escapeChar c) (escapeChar d) (c = d) := by
  intro r s _ _ equal
  unfold escapeChar at equal
  split at equal
  · split at equal
    · simpa using equal
    · rename_i plain
      exact absurd (.inl (List.cons.inj equal).1.symm) plain
  · rename_i plain
    split at equal
    · exact absurd (.inl (List.cons.inj equal).1) plain
    · simpa using equal

theorem escapeChar_ne_quote (c : Char) (r s : List Char) : escapeChar c ++ r ≠ '"' :: s := by
  intro equal
  unfold escapeChar at equal
  split at equal
  · cases equal
  · rename_i plain
    exact plain (.inr (List.cons.inj equal).1)

theorem escapeChars_inj {a b r s : List Char}
    (equal : Identifier.escapeChars a ++ '"' :: r = Identifier.escapeChars b ++ '"' :: s) : a = b ∧ r = s := by
  induction a generalizing b with
  | nil =>
    cases b with
    | nil => exact ⟨rfl, (List.cons.inj equal).2⟩
    | cons d b =>
      rw [escapeChars_cons, List.append_assoc] at equal
      exact absurd equal.symm (escapeChar_ne_quote d _ _)
  | cons c a ih =>
    rw [escapeChars_cons, List.append_assoc] at equal
    cases b with
    | nil => exact absurd equal (escapeChar_ne_quote c _ _)
    | cons d b =>
      rw [escapeChars_cons, List.append_assoc] at equal
      obtain ⟨rfl, later⟩ := reads_escapeChar c d _ _ trivial trivial equal
      obtain ⟨rfl, rest⟩ := ih later
      exact ⟨rfl, rest⟩

theorem reads_quote {follow : List Char → Prop} (s t : String) :
    Reads follow (Identifier.quote s).toList (Identifier.quote t).toList (s = t) := by
  intro r r' _ _ equal
  rw [Identifier.toList_quote, Identifier.toList_quote] at equal
  have inner : Identifier.escapeChars s.toList ++ '"' :: r = Identifier.escapeChars t.toList ++ '"' :: r' := by
    simpa using equal
  obtain ⟨same, rest⟩ := escapeChars_inj inner
  exact ⟨String.toList_inj.mp same, rest⟩

end Tokens

end ApiContract.Text
