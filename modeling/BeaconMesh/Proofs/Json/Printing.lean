import BeaconMesh.Json.Printer
import BeaconMesh.Proofs.Json.Reading

/-!
# Written values are JSON

`Value.pretty` writes one of the texts of a value, provided the value has one: its numbers must be
literals of the grammar, and its strings must denote a text (`Value.Printable`).
-/

namespace BeaconMesh.Json

/-! ### Scalars -/

theorem spelling_escapeChar (c : Char) :
    ∃ p, Piece.Spelling p (escapeChar c) ∧ ∀ ps cs, Denotes ps cs → Denotes (p :: ps) (c :: cs) := by
  fun_cases escapeChar c
  case case8 control =>
    have digit : ∀ n, n < 16 → IsHexDigit (Nat.digitChar n) n := fun n below => ⟨below, .inl rfl⟩
    refine ⟨_, .unit (digit 0 (by decide)) (digit 0 (by decide)) (digit (c.toNat / 16) (by omega))
      (digit (c.toNat % 16) (by omega)), fun ps cs rest => ?_⟩
    have unit : 16 * (16 * (16 * 0 + 0) + c.toNat / 16) + c.toNat % 16 = c.toNat := by omega
    have units : utf16 c = [c.toNat] := if_pos (by omega)
    have := Denotes.escaped c rest
    rwa [units, ← unit] at this
  case case9 notQuote notEscape _ _ _ _ _ printable =>
    exact ⟨_, .plain (by omega) notQuote notEscape, fun _ _ => .plain c⟩
  all_goals exact ⟨_, .short (by decide), fun _ _ => .plain _⟩

theorem spelling_quote (s : String) :
    Token.Spelling (.string (some s)) (quote (some s)).toList := by
  have pieces : ∀ cs : List Char,
      ∃ ps, Row Piece.Spelling ps (cs.flatMap escapeChar) ∧ Denotes ps cs := by
    intro cs
    induction cs with
    | nil => exact ⟨[], .nil, .nil⟩
    | cons c cs ih =>
      obtain ⟨ps, row, denotes⟩ := ih
      obtain ⟨p, spelled, denotes'⟩ := spelling_escapeChar c
      exact ⟨p :: ps, .cons spelled row, denotes' ps cs denotes⟩
  obtain ⟨ps, row, denotes⟩ := pieces s.toList
  rw [quote, String.toList_ofList]
  exact .string row denotes

theorem spelling_integer (negative : Bool) (n : Nat) :
    Number.Spelling (.integer negative n) (Number.integer negative n).text.toList := by
  have digits : (toString n).toList = Nat.toDigits 10 n := Nat.toList_repr
  have := Number.Spelling.integer negative n
  cases negative <;> simpa [Number.text, wholeNumber, digits] using this

/-! ### Values -/

def Token.Printable : Token → Prop
  | .number n => n.Spelling n.text.toList
  | .string t => t ≠ none
  | _ => True

/-- Whether a value can be written. -/
def Value.Printable (v : Value) : Prop := ∀ t ∈ v.tokens, t.Printable

theorem spelling_string {t : Text} (printable : Token.Printable (.string t)) :
    Token.Spelling (.string t) (quote t).toList := by
  obtain ⟨s, rfl⟩ := Option.ne_none_iff_exists'.mp printable
  exact spelling_quote s

theorem printable_nat (n : Nat) : (Value.nat n).Printable := by
  simpa [Value.Printable, Value.nat, Value.tokens, Token.Printable] using spelling_integer false n

theorem printable_text (s : String) : (Value.text s).Printable := by
  simp [Value.Printable, Value.text, Value.tokens, Token.Printable]

theorem printable_ofOption {α : Type} {f : α → Value} (printable : ∀ a, (f a).Printable)
    (o : Option α) : (Value.ofOption f o).Printable := by
  cases o with
  | none => simp [Value.Printable, Value.ofOption, Value.tokens, Token.Printable]
  | some a => exact printable a

theorem printable_record {members : List (String × Value)}
    (printable : ∀ m ∈ members, m.2.Printable) : (Value.record members).Printable := by
  have key : ∀ s, Token.Printable (.string (some s)) := Option.some_ne_none
  have others : ∀ {ms : List (String × Value)}, (∀ m ∈ ms, m.2.Printable) →
      ∀ t ∈ moreMembers (ms.map fun m => (some m.1, m.2)), t.Printable := by
    intro ms printable
    induction ms with
    | nil => simp [moreMembers]
    | cons m ms ih =>
      obtain ⟨first, rest⟩ := List.forall_mem_cons.mp printable
      simp only [List.map_cons, moreMembers, List.forall_mem_cons, List.forall_mem_append]
      exact ⟨trivial, key m.1, trivial, first, ih rest⟩
  cases members with
  | nil => simp [Value.Printable, Value.record, Value.tokens, Token.Printable]
  | cons m ms =>
    obtain ⟨first, rest⟩ := List.forall_mem_cons.mp printable
    simp only [Value.Printable, Value.record, List.map_cons, Value.tokens, List.forall_mem_cons,
      List.forall_mem_append]
    exact ⟨trivial, key m.1, trivial, first, others rest, trivial, by simp⟩

theorem blanks_newLine (depth : Nat) : Blanks (newLine depth).toList := by
  intro c mem
  simp only [newLine, String.toList_ofList, List.mem_cons, List.mem_replicate] at mem
  obtain rfl | ⟨-, rfl⟩ := mem <;> simp

theorem row_symbol {t : Token} {c : Char} (symbol : t.symbol? = some c) :
    Row Token.Spaced [t] [c] := .single (Token.Spelling.symbol symbol).spaced

theorem Value.row_after_blanks {v : Value} {cs blanks : List Char}
    (row : Row Token.Spaced v.tokens cs) (blank : Blanks blanks) :
    Row Token.Spaced v.tokens (blanks ++ cs) := by
  obtain ⟨t, ts, tokens, -⟩ := v.tokens_head
  rw [tokens] at row ⊢
  exact row.after_blanks blank

theorem row_member {k : Text} {v : Value} {cs : List Char} (key : Token.Printable (.string k))
    (row : Row Token.Spaced v.tokens cs) (depth : Nat) :
    Row Token.Spaced (.string k :: .colon :: v.tokens)
      ((newLine depth).toList ++ (quote k).toList ++ [':', ' '] ++ cs) := by
  have space : Blanks [' '] := by simp [Blanks]
  have key := (Row.single (spelling_string key).spaced).after_blanks (blanks_newLine depth)
  have member := key.append <| (row_symbol (t := .colon) rfl).append <| v.row_after_blanks row space
  simpa using member

theorem row_close {t : Token} {c : Char} (symbol : t.symbol? = some c) (depth : Nat) :
    Row Token.Spaced [t] ((newLine depth).toList ++ [c]) :=
  (row_symbol symbol).after_blanks (blanks_newLine depth)

mutual

theorem row_indented : ∀ (v : Value) (depth : Nat), v.Printable →
    Row Token.Spaced v.tokens (v.indented depth).toList
  | .null, depth, _ => by
    simpa [Value.indented, Value.tokens] using Row.single Token.Spelling.null.spaced
  | .bool true, depth, _ => by
    simpa [Value.indented, Value.tokens] using Row.single Token.Spelling.true.spaced
  | .bool false, depth, _ => by
    simpa [Value.indented, Value.tokens] using Row.single Token.Spelling.false.spaced
  | .number n, depth, printable => by
    rw [Value.indented]
    exact .single (Token.Spelling.number (printable _ List.mem_cons_self)).spaced
  | .string t, depth, printable => by
    rw [Value.indented]
    exact .single (spelling_string (printable _ List.mem_cons_self)).spaced
  | .array [], depth, _ => by
    have row := (row_symbol (t := .openArray) rfl).append (row_symbol (t := .closeArray) rfl)
    simpa [Value.indented, Value.tokens] using row
  | .array (v :: rest), depth, printable => by
    have first : v.Printable := fun t mem => printable t (by simp [Value.tokens, mem])
    have others : ∀ t ∈ moreItems rest, t.Printable := fun t mem =>
      printable t (by simp [Value.tokens, mem])
    have row := (row_symbol (t := .openArray) rfl).append <|
      (Value.row_after_blanks (row_indented v (depth + 1) first) (blanks_newLine (depth + 1))).append <|
      (row_indentedItems rest (depth + 1) others).append (row_close (t := .closeArray) rfl depth)
    simpa [Value.indented, Value.tokens, Value.indentedItems] using row
  | .object [], depth, _ => by
    have row := (row_symbol (t := .openObject) rfl).append (row_symbol (t := .closeObject) rfl)
    simpa [Value.indented, Value.tokens] using row
  | .object ((k, v) :: rest), depth, printable => by
    have key : Token.Printable (.string k) := printable _ (by simp [Value.tokens])
    have first : v.Printable := fun t mem => printable t (by simp [Value.tokens, mem])
    have others : ∀ t ∈ moreMembers rest, t.Printable := fun t mem =>
      printable t (by simp [Value.tokens, mem])
    have row := (row_symbol (t := .openObject) rfl).append <|
      (row_member key (row_indented v (depth + 1) first) (depth + 1)).append <|
      (row_indentedMembers rest (depth + 1) others).append (row_close (t := .closeObject) rfl depth)
    simpa [Value.indented, Value.tokens, Value.indentedMembers] using row

theorem row_indentedItems : ∀ (items : List Value) (depth : Nat),
    (∀ t ∈ moreItems items, t.Printable) →
    Row Token.Spaced (moreItems items) (Value.indentedItems depth false items).toList
  | [], depth, _ => by simpa [moreItems, Value.indentedItems] using Row.nil
  | v :: rest, depth, printable => by
    have first : v.Printable := fun t mem => printable t (by simp [moreItems, mem])
    have others : ∀ t ∈ moreItems rest, t.Printable := fun t mem =>
      printable t (by simp [moreItems, mem])
    have row := (row_symbol (t := .comma) rfl).append <|
      (Value.row_after_blanks (row_indented v depth first) (blanks_newLine depth)).append <|
      row_indentedItems rest depth others
    simpa [moreItems, Value.indentedItems] using row

theorem row_indentedMembers : ∀ (members : List (Text × Value)) (depth : Nat),
    (∀ t ∈ moreMembers members, t.Printable) →
    Row Token.Spaced (moreMembers members) (Value.indentedMembers depth false members).toList
  | [], depth, _ => by simpa [moreMembers, Value.indentedMembers] using Row.nil
  | (k, v) :: rest, depth, printable => by
    have key : Token.Printable (.string k) := printable _ (by simp [moreMembers])
    have first : v.Printable := fun t mem => printable t (by simp [moreMembers, mem])
    have others : ∀ t ∈ moreMembers rest, t.Printable := fun t mem =>
      printable t (by simp [moreMembers, mem])
    have row := (row_symbol (t := .comma) rfl).append <|
      (row_member key (row_indented v depth first) depth).append <|
      row_indentedMembers rest depth others
    simpa [moreMembers, Value.indentedMembers] using row

end

/-- What is written for a value is a text of it. -/
theorem Value.isText_pretty {v : Value} (printable : v.Printable) : v.IsText v.pretty :=
  ⟨_, [], row_indented v 0 printable, by simp [Blanks], (List.append_nil _).symm⟩

theorem parse?_pretty {v : Value} (printable : v.Printable) : parse? v.pretty = some v :=
  parse?_of_isText (Value.isText_pretty printable)

end BeaconMesh.Json
