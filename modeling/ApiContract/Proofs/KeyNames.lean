import ApiContract.Proofs.CamelCase
import ApiContract.Proofs.HereditaryTypes

namespace ApiContract

-- The names of the keys in index signatures. Each is made from the title of a schema for other keys than the
-- declared ones, and nothing is done about a digit in front or about a reserved word.

namespace Identifier

-- The title has no digit before its first letter, and is not a single reserved word written with or without
-- a capital.
def Nameable (title : Option String) : Prop :=
  ∀ text ∈ title, (∀ c ∈ text.toList.find? isWordChar, isDigit c = false) ∧
    ∀ word, asciiWords text.toList = [word] → String.ofList (lowerFirst word) ∉ reservedWords

theorem nameable_some (text : String) : Nameable (some text) ↔
    (∀ c ∈ (camelCase text).toList.head?, isDigit c = false) ∧ camelCase text ∉ reservedWords := by
  have first : (∀ c ∈ (camelCase text).toList.head?, isDigit c = false) ↔
      ∀ c ∈ text.toList.find? isWordChar, isDigit c = false := by
    rw [toList_camelCase, camelChars_head?]
    cases found : text.toList.find? isWordChar with
    | none => simp
    | some c => simp [isDigit_toLower (List.find?_some found)]
  rw [first, camelCase_reserved]
  simp [Nameable]

end Identifier

open Identifier (isWordChar IsIdentifier Nameable camelCase camelChars)

namespace TypeExpr

section Titles

theorem keyName_some (text : String) :
    keyName (some text) = if camelChars text.toList = [] then "key" else camelCase text := by
  have empty : (camelCase text).isEmpty = true ↔ camelChars text.toList = [] := by
    rw [String.isEmpty_iff, ← String.toList_eq_nil_iff, Identifier.toList_camelCase]
  simp only [keyName, empty]

theorem keyName_chars (title : Option String) :
    (keyName title).toList ≠ [] ∧ ∀ c ∈ (keyName title).toList, isWordChar c = true := by
  have default : "key".toList ≠ [] ∧ ∀ c ∈ "key".toList, isWordChar c = true :=
    ⟨by decide, List.all_eq_true.mp (by decide)⟩
  cases title with
  | none => exact default
  | some text =>
    rw [keyName_some]
    split
    · exact default
    · rename_i filled
      rw [Identifier.toList_camelCase]
      exact ⟨filled, Identifier.camelChars_chars text.toList⟩

theorem key_unreserved : (∀ c ∈ "key".toList.head?, Identifier.isDigit c = false) ∧
    "key" ∉ Identifier.reservedWords := by
  have letter : "key".toList.head? = some 'k' := by decide
  refine ⟨fun c first => ?_, by decide⟩
  rw [letter] at first
  cases first
  rfl

theorem isIdentifier_keyName (title : Option String) : IsIdentifier (keyName title) ↔ Nameable title := by
  obtain ⟨filled, words⟩ := keyName_chars title
  rw [Identifier.isIdentifier_words filled words]
  cases title with
  | none => exact iff_of_true key_unreserved (by simp [Nameable])
  | some text =>
    rw [Identifier.nameable_some, keyName_some]
    split
    · rename_i blank
      rw [camelCase, blank, String.toList_ofList]
      exact iff_of_true key_unreserved ⟨by simp, by decide⟩
    · rfl

end Titles

section Signatures

-- An index signature that stands somewhere in a type.
inductive Indexes (s : IndexSignature TypeExpr) : TypeExpr → Prop where
  | here {members : List (Member TypeExpr)} (listed : .index s ∈ members) : Indexes s (record members)
  | inside {type part : TypeExpr} (member : part ∈ type.parts) (indexed : Indexes s part) : Indexes s type

-- Every key name in the type has the property.
def KeysIn (P : String → Prop) (type : TypeExpr) : Prop := ∀ s, Indexes s type → P s.keyName

variable {P : String → Prop}

theorem hereditary_keysIn (P : String → Prop) : Hereditary (KeysIn P) := by
  intro type ordinary
  constructor
  · intro all part member s indexed
    exact all s (.inside member indexed)
  · intro each s indexed
    cases indexed with
    | here listed =>
      obtain ⟨ps, rfl⟩ := ordinary
      obtain ⟨p, _, equal⟩ := List.mem_map.mp listed
      cases equal
    | inside member indexed => exact each _ member s indexed

theorem keysIn_reference (name : String) : KeysIn P (reference name) := by
  intro s indexed
  cases indexed with
  | inside member => cases member

theorem keysIn_index {name : String} {value : TypeExpr} (holds : P name) (values : KeysIn P value) :
    KeysIn P (record [.index ⟨name, string, value⟩]) := by
  intro s indexed
  cases indexed with
  | here listed =>
    cases List.mem_singleton.mp listed
    exact holds
  | inside member indexed =>
    exact forall_pair ((hereditary_keysIn P).primitive .string) values _ member s indexed

end Signatures

end TypeExpr

section Schemas

-- An open object that is the node itself or stands below it, where neither a named schema nor a reference is
-- entered.
inductive Node.Opens (o : ObjectShape Node) : Node → Prop where
  | here {node : Node} (shape : node.shape = .object o) (opened : o.isClosed = false) : Opens o node
  | child {node child : Node} (member : child ∈ node.children) (entered : child.target? = none)
      (opens : Opens o child) : Opens o node

namespace TypeExpr

-- The name is made from the title of what an open object of the node asks of other keys.
def MadeFor (node : Node) (name : String) : Prop := ∃ o, node.Opens o ∧ name = keyName o.additional.title

theorem ofShape_keysIn {node : Node}
    (children : ∀ child ∈ node.children, KeysIn (fun name => child.target? = none ∧ MadeFor child name) (ofNode child)) :
    KeysIn (MadeFor node) (ofShape (node.shape.map fun child => (child, ofNode child))) := by
  refine (hereditary_keysIn _).ofShape ?_ ?_ ?_
  · exact fun name _ => keysIn_reference name
  · exact fun o shape opened => keysIn_index ⟨o, .here shape opened, rfl⟩
  · intro child member s indexed
    obtain ⟨entered, o, opens, equal⟩ := children child member s indexed
    exact ⟨o, .child member entered opens, equal⟩

theorem ofNode_keysIn (node : Node) :
    KeysIn (fun name => node.target? = none ∧ MadeFor node name) (ofNode node) := by
  induction node using Node.children_induction with
  | step node ih =>
    rw [ofNode, Node.foldPaired_eq]
    refine (hereditary_keysIn _).orNull node.nullable ?_
    cases target : node.target? with
    | some name => exact keysIn_reference name
    | none => exact fun s indexed => ⟨rfl, ofShape_keysIn ih s indexed⟩

theorem expanded_keysIn (node : Node) : KeysIn (MadeFor node) (expanded node) :=
  (hereditary_keysIn _).orNull node.nullable (ofShape_keysIn fun child _ => ofNode_keysIn child)

-- A key name consists of letters and digits. It is an identifier just if the title that it comes from has no
-- digit in front and is no reserved word.
theorem key_names_from_titles (node : Node) (s : IndexSignature TypeExpr)
    (indexed : Indexes s (ofNode node) ∨ Indexes s (expanded node)) :
    (s.keyName.toList ≠ [] ∧ ∀ c ∈ s.keyName.toList, isWordChar c = true) ∧
    ∃ o, node.Opens o ∧ s.keyName = keyName o.additional.title ∧
      (IsIdentifier s.keyName ↔ Nameable o.additional.title) := by
  have made : MadeFor node s.keyName := by
    rcases indexed with inside | inside
    · exact (ofNode_keysIn node s inside).2
    · exact expanded_keysIn node s inside
  obtain ⟨o, opens, equal⟩ := made
  rw [equal]
  exact ⟨keyName_chars _, o, opens, rfl, isIdentifier_keyName _⟩

-- A map of texts whose schema has a title.
def mapTitled (title : String) : Node :=
  .ofShape (.object ⟨[], [], { Node.string with title := some title }, none, none⟩)

theorem mapTitled_opens {title : String} {o : ObjectShape Node} (opens : (mapTitled title).Opens o) :
    o.additional.title = some title := by
  cases opens with
  | here shape =>
    cases shape
    rfl
  | child member _ opens =>
    cases List.mem_singleton.mp member
    cases opens with
    | here shape => cases shape
    | child member => cases member

theorem mapTitled_indexed (title : String) :
    Indexes ⟨keyName (some title), string, string⟩ (expanded (mapTitled title)) :=
  .here (List.mem_singleton_self _)

-- One title starts with a digit, the other one is a reserved word.
theorem factor_and_class_no_identifiers :
    (Indexes ⟨"2ndFactor", string, string⟩ (expanded (mapTitled "2nd factor")) ∧ ¬ IsIdentifier "2ndFactor") ∧
      Indexes ⟨"class", string, string⟩ (expanded (mapTitled "Class")) ∧ ¬ IsIdentifier "class" := by
  have made {title name : String} (equal : keyName (some title) = name) (bad : ¬ Nameable (some title)) :
      Indexes ⟨name, string, string⟩ (expanded (mapTitled title)) ∧ ¬ IsIdentifier name := by
    have indexed := mapTitled_indexed title
    rw [equal] at indexed
    obtain ⟨_, o, opens, _, exact⟩ := key_names_from_titles (mapTitled title) _ (.inr indexed)
    rw [mapTitled_opens opens] at exact
    exact ⟨indexed, mt exact.mp bad⟩
  have digit : ¬ Nameable (some "2nd factor") := by
    intro nameable
    cases (nameable _ rfl).1 '2' (by decide +kernel)
  have reserved : ¬ Nameable (some "Class") := by
    intro nameable
    exact (nameable _ rfl).2 "Class".toList (by decide +kernel) (by decide +kernel)
  exact ⟨made (by decide +kernel) digit, made (by decide +kernel) reserved⟩

end TypeExpr

end Schemas

end ApiContract
