import BeaconMesh.Json.Parser
import BeaconMesh.Proofs.Json.Lexing

/-!
# Reading written JSON

`parse?_of_isText`: every text of a value is read as that value. The token machine is followed
along the tokens of the value, by recursion over the value; the lexer gives it these tokens since
no two scalars are neighbours among them.
-/

namespace BeaconMesh.Json

/-! ### Neighbours -/

theorem isChain_symbol {t : Token} {before after : List Token} (symbol : t.symbol?.isSome)
    (first : List.IsChain Token.Apart before) (second : List.IsChain Token.Apart after) :
    List.IsChain Token.Apart (before ++ t :: after) := by
  refine List.isChain_append.mpr ⟨first, List.isChain_cons.mpr ⟨fun _ _ => .inl symbol, second⟩, ?_⟩
  intro last _ next head
  obtain rfl : t = next := Option.some.inj head
  exact .inr symbol

theorem isChain_member {k : Text} {after : List Token} (chain : List.IsChain Token.Apart after) :
    List.IsChain Token.Apart (.string k :: .colon :: after) := by
  have key : List.IsChain Token.Apart [.string k] := .singleton _
  exact isChain_symbol (t := .colon) rfl key chain

mutual

theorem Value.tokens_isChain : ∀ v : Value, List.IsChain Token.Apart v.tokens
  | .null | .bool _ | .number _ | .string _ => .singleton _
  | .array [] | .object [] => .cons_cons (.inl rfl) (.singleton _)
  | .array (v :: rest) => by
    have items := isChain_symbol (t := .closeArray) rfl (moreItems_isChain rest v.tokens_isChain)
      .nil
    rw [Value.tokens, ← List.append_assoc]
    exact isChain_symbol (t := .openArray) rfl .nil items
  | .object ((k, v) :: rest) => by
    have members := isChain_symbol (t := .closeObject) rfl
      (moreMembers_isChain rest v.tokens_isChain) .nil
    rw [Value.tokens, ← List.append_assoc]
    exact isChain_symbol (t := .openObject) rfl .nil (isChain_member members)

theorem moreItems_isChain : ∀ (items : List Value) {before : List Token},
    List.IsChain Token.Apart before → List.IsChain Token.Apart (before ++ moreItems items)
  | [], before, chain => by simpa [moreItems]
  | v :: rest, before, chain =>
    isChain_symbol (t := .comma) rfl chain (moreItems_isChain rest v.tokens_isChain)

theorem moreMembers_isChain : ∀ (members : List (Text × Value)) {before : List Token},
    List.IsChain Token.Apart before → List.IsChain Token.Apart (before ++ moreMembers members)
  | [], before, chain => by simpa [moreMembers]
  | (k, v) :: rest, before, chain =>
    isChain_symbol (t := .comma) rfl chain
      (isChain_member (moreMembers_isChain rest v.tokens_isChain))

end

/-! ### The machine -/

theorem Parser.firstItem_eq_value (v : Value) (frames : List Frame) :
    v.tokens.foldlM step (.firstItem frames) =
      v.tokens.foldlM step (.value (.array [] :: frames)) := by
  obtain ⟨t, ts, tokens, notClosed⟩ := v.tokens_head
  have first : step (.firstItem frames) t = step (.value (.array [] :: frames)) t := by
    cases t <;> first | rfl | exact absurd rfl notClosed
  rw [tokens, List.foldlM_cons, List.foldlM_cons, first]

mutual

theorem Parser.read_value : ∀ (v : Value) (frames : List Frame),
    v.tokens.foldlM step (.value frames) = some (.after v frames)
  | .null, _ | .bool _, _ | .number _, _ | .string _, _ => rfl
  | .array [], _ | .object [], _ => rfl
  | .array (v :: rest), frames => by
    show (v.tokens ++ (moreItems rest ++ [Token.closeArray])).foldlM step (.firstItem frames) = _
    rw [List.foldlM_append, firstItem_eq_value, read_value v]
    exact read_moreItems rest v [] frames
  | .object ((k, v) :: rest), frames => by
    show (v.tokens ++ (moreMembers rest ++ [Token.closeObject])).foldlM step
      (.value (.object [] k :: frames)) = _
    rw [List.foldlM_append, read_value v]
    exact read_moreMembers rest k v [] frames

theorem Parser.read_moreItems : ∀ (rest : List Value) (v : Value) (before : List Value)
    (frames : List Frame),
    (moreItems rest ++ [Token.closeArray]).foldlM step (.after v (.array before :: frames)) =
      some (.after (.array (before.reverse ++ v :: rest)) frames)
  | [], v, before, frames => by simp [moreItems, step]
  | w :: rest, v, before, frames => by
    rw [moreItems, List.cons_append, List.append_assoc]
    show (w.tokens ++ (moreItems rest ++ [Token.closeArray])).foldlM step
      (.value (.array (v :: before) :: frames)) = _
    rw [List.foldlM_append, read_value w]
    exact (read_moreItems rest w (v :: before) frames).trans (by simp)

theorem Parser.read_moreMembers : ∀ (rest : List (Text × Value)) (k : Text) (v : Value)
    (before : List (Text × Value)) (frames : List Frame),
    (moreMembers rest ++ [Token.closeObject]).foldlM step (.after v (.object before k :: frames)) =
      some (.after (.object (before.reverse ++ (k, v) :: rest)) frames)
  | [], k, v, before, frames => by simp [moreMembers, step]
  | (k', w) :: rest, k, v, before, frames => by
    rw [moreMembers, List.cons_append, List.cons_append, List.cons_append, List.append_assoc]
    show (w.tokens ++ (moreMembers rest ++ [Token.closeObject])).foldlM step
      (.value (.object ((k, v) :: before) k' :: frames)) = _
    rw [List.foldlM_append, read_value w]
    exact (read_moreMembers rest k' w ((k, v) :: before) frames).trans (by simp)

end

theorem ofTokens?_tokens (v : Value) : ofTokens? v.tokens = some v := by
  rw [ofTokens?, Parser.read_value]

/-- Every text of a value is read as that value. -/
theorem parse?_of_isText {v : Value} {s : String} (text : v.IsText s) : parse? s = some v := by
  obtain ⟨cs, blanks, row, blank, whole⟩ := text
  rw [parse?, whole, tokens?_of_row row v.tokens_isChain blank]
  exact ofTokens?_tokens v

end BeaconMesh.Json
