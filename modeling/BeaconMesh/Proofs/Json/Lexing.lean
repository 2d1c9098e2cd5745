import BeaconMesh.Proofs.Json.Grammar
import Mathlib.Data.List.Chain

/-!
# Cutting written JSON into tokens

Whatever a token is spelled as, the lexer takes in that token. A number ends where the next
character cannot belong to it, so a number that has been read is kept back until then:
`Lexer.Settled` covers this state, and it is enough that of two neighbours in a row of tokens one
is structural (`Token.Apart`).
-/

namespace BeaconMesh.Json

/-! ### Strings -/

theorem hexValue?_of_isHexDigit {c : Char} {n : Nat} (digit : IsHexDigit c n) :
    hexValue? c = some n := by
  have both : ∀ n : Fin 16, hexValue? (Nat.digitChar n.val) = some n.val ∧
      hexValue? (Nat.digitChar n.val).toUpper = some n.val := by decide
  obtain ⟨below, rfl | rfl⟩ := digit
  · exact (both ⟨n, below⟩).1
  · exact (both ⟨n, below⟩).2

theorem escapedChar?_of_mem {letter c : Char} (short : (letter, c) ∈ shortEscapes) :
    letter ≠ 'u' ∧ escapedChar? letter = some c := by
  have all : ∀ e ∈ shortEscapes, e.1 ≠ 'u' ∧ escapedChar? e.1 = some e.2 := by decide
  exact all _ short

theorem Piece.Spelling.read {p : Piece} {cs : List Char} (spelled : p.Spelling cs)
    (ps : List Piece) (ts : List Token) :
    cs.foldlM Lexer.step ⟨.string ps, ts⟩ = some ⟨.string (p :: ps), ts⟩ := by
  cases spelled with
  | plain large notQuote notEscape =>
    simp [Lexer.step, notQuote, notEscape, Nat.not_lt.mpr large]
  | short mem =>
    obtain ⟨notUnit, escape⟩ := escapedChar?_of_mem mem
    simp [Lexer.step, notUnit, escape]
  | unit d₃ d₂ d₁ d₀ =>
    simp [Lexer.step, hexValue?_of_isHexDigit d₃, hexValue?_of_isHexDigit d₂,
      hexValue?_of_isHexDigit d₁, hexValue?_of_isHexDigit d₀]

theorem read_pieces {ps : List Piece} {cs : List Char} (row : Row Piece.Spelling ps cs)
    (before : List Piece) (ts : List Token) :
    cs.foldlM Lexer.step ⟨.string before, ts⟩ = some ⟨.string (ps.reverse ++ before), ts⟩ := by
  induction row generalizing before with
  | nil => rfl
  | cons spelled _ ih =>
    rw [List.foldlM_append, spelled.read]
    simp [ih]

/-- The unit of an escape has sixteen bits. -/
def Piece.IsShort : Piece → Prop
  | .char _ => True
  | .unit u => u < 0x10000

theorem Piece.Spelling.isShort {p : Piece} {cs : List Char} (spelled : p.Spelling cs) :
    p.IsShort := by
  cases spelled with
  | plain | short => trivial
  | unit d₃ d₂ d₁ d₀ =>
    have := d₃.1; have := d₂.1; have := d₁.1; have := d₀.1
    simp only [Piece.IsShort]
    omega

theorem isShort_of_row {ps : List Piece} {cs : List Char} (row : Row Piece.Spelling ps cs) :
    ∀ p ∈ ps, p.IsShort := by
  induction row with
  | nil => simp
  | cons spelled _ ih => exact List.forall_mem_cons.mpr ⟨spelled.isShort, ih⟩

/-- A character of the first plane is no half of a surrogate pair. -/
theorem not_half (c : Char) (small : c.toNat < 0x10000) :
    isHighHalf c.toNat = false ∧ isLowHalf c.toNat = false := by
  have valid : c.toNat < 0xD800 ∨ (0xDFFF < c.toNat ∧ c.toNat < 0x110000) := c.valid
  simp only [isHighHalf, isLowHalf, decide_eq_false_iff_not]
  omega

theorem joinPieces_escaped (c : Char) (ps : List Piece) :
    joinPieces ((utf16 c).map .unit ++ ps) = (joinPieces ps).map (c :: ·) := by
  unfold utf16
  split
  · next small =>
    obtain ⟨notHigh, notLow⟩ := not_half c small
    rcases ps with _ | ⟨_ | v, rest⟩ <;> simp [joinPieces, notHigh, notLow, Char.ofNat_toNat]
  · next large =>
    have valid : c.toNat < 0xD800 ∨ (0xDFFF < c.toNat ∧ c.toNat < 0x110000) := c.valid
    have high : isHighHalf (0xD800 + (c.toNat - 0x10000) / 0x400) = true := by
      simp only [isHighHalf, decide_eq_true_eq]
      omega
    have low : isLowHalf (0xDC00 + (c.toNat - 0x10000) % 0x400) = true := by
      simp only [isLowHalf, decide_eq_true_eq]
      omega
    have whole : 0x10000 + (0xD800 + (c.toNat - 0x10000) / 0x400 - 0xD800) * 0x400 +
        (0xDC00 + (c.toNat - 0x10000) % 0x400 - 0xDC00) = c.toNat := by omega
    simp only [List.map_cons, List.map_nil, List.cons_append, List.nil_append, joinPieces, high,
      low, if_true, whole, Char.ofNat_toNat]

theorem joinPieces_of_denotes {ps : List Piece} {cs : List Char} (denotes : Denotes ps cs) :
    joinPieces ps = some cs := by
  induction denotes with
  | nil => rfl
  | plain c _ ih => simp [joinPieces, ih]
  | escaped c _ ih => simp [joinPieces_escaped, ih]

theorem toNat_ofNat {n : Nat} (valid : n.isValidChar) : (Char.ofNat n).toNat = n := by
  rw [Char.ofNat, dif_pos valid]
  rfl

theorem utf16_of_unit {u : Nat} (small : u < 0x10000) (notHigh : ¬ isHighHalf u)
    (notLow : ¬ isLowHalf u) : utf16 (Char.ofNat u) = [u] := by
  simp only [isHighHalf, isLowHalf, decide_eq_true_eq] at notHigh notLow
  have valid : u.isValidChar := by
    simp only [Nat.isValidChar]
    omega
  rw [utf16, toNat_ofNat valid, if_pos small]

theorem utf16_of_pair {u v : Nat} (high : isHighHalf u) (low : isLowHalf v) :
    utf16 (Char.ofNat (0x10000 + (u - 0xD800) * 0x400 + (v - 0xDC00))) = [u, v] := by
  simp only [isHighHalf, isLowHalf, decide_eq_true_eq] at high low
  have valid : (0x10000 + (u - 0xD800) * 0x400 + (v - 0xDC00)).isValidChar := by
    simp only [Nat.isValidChar]
    omega
  rw [utf16, toNat_ofNat valid, if_neg (by omega)]
  simp only [List.cons.injEq, and_true]
  omega

theorem Denotes.unit {u : Nat} {ps : List Piece} {cs : List Char} (short : u < 0x10000)
    (notHigh : ¬ isHighHalf u) (notLow : ¬ isLowHalf u) (rest : Denotes ps cs) :
    Denotes (.unit u :: ps) (Char.ofNat u :: cs) := by
  have := escaped (Char.ofNat u) rest
  rwa [utf16_of_unit short notHigh notLow] at this

theorem Denotes.pair {u v : Nat} {ps : List Piece} {cs : List Char} (high : isHighHalf u)
    (low : isLowHalf v) (rest : Denotes ps cs) :
    Denotes (.unit u :: .unit v :: ps)
      (Char.ofNat (0x10000 + (u - 0xD800) * 0x400 + (v - 0xDC00)) :: cs) := by
  have := escaped (Char.ofNat (0x10000 + (u - 0xD800) * 0x400 + (v - 0xDC00))) rest
  rwa [utf16_of_pair high low] at this

theorem denotes_of_joinPieces {ps : List Piece} {cs : List Char} (short : ∀ p ∈ ps, p.IsShort)
    (joined : joinPieces ps = some cs) : Denotes ps cs := by
  induction ps using joinPieces.induct generalizing cs with
  | case1 =>
    cases joined
    exact .nil
  | case2 c rest ih =>
    obtain ⟨ds, tail, rfl⟩ := Option.map_eq_some_iff.mp joined
    exact .plain c (ih (fun p mem => short p (.tail _ mem)) tail)
  | case3 u v rest high low ih =>
    rw [joinPieces, if_pos high, if_pos low] at joined
    obtain ⟨ds, tail, rfl⟩ := Option.map_eq_some_iff.mp joined
    exact .pair high low (ih (fun p mem => short p (.tail _ (.tail _ mem))) tail)
  | case4 u v rest high notLow => simp [joinPieces, high, notLow] at joined
  | case5 u v rest notHigh low => simp [joinPieces, notHigh, low] at joined
  | case6 u v rest notHigh notLow ih =>
    rw [joinPieces, if_neg notHigh, if_neg notLow] at joined
    obtain ⟨ds, tail, rfl⟩ := Option.map_eq_some_iff.mp joined
    exact .unit (short _ List.mem_cons_self) notHigh notLow
      (ih (fun p mem => short p (.tail _ mem)) tail)
  | case7 u rest alone half =>
    rw [joinPieces, if_pos half] at joined
    · cases joined
    · exact alone
  | case8 u rest alone whole ih =>
    rw [joinPieces, if_neg whole] at joined
    · obtain ⟨ds, tail, rfl⟩ := Option.map_eq_some_iff.mp joined
      simp only [Bool.or_eq_true, not_or] at whole
      exact .unit (short _ List.mem_cons_self) whole.1 whole.2
        (ih (fun p mem => short p (.tail _ mem)) tail)
    · exact alone

theorem join_of_isTextOf {ps : List Piece} {t : Text} (short : ∀ p ∈ ps, p.IsShort)
    (text : IsTextOf ps t) : (joinPieces ps).map String.ofList = t := by
  cases t with
  | some s => rw [joinPieces_of_denotes text, Option.map_some, String.ofList_toList]
  | none =>
    have none : joinPieces ps = none := Option.eq_none_iff_forall_ne_some.mpr fun cs joined =>
      text cs (denotes_of_joinPieces short joined)
    rw [none, Option.map_none]

/-! ### Numbers -/

def NumberPart.run? (part : NumberPart) (cs : List Char) : Option NumberPart :=
  cs.foldlM NumberPart.next? part

theorem read_literal {part part' : NumberPart} {cs : List Char} (runs : part.run? cs = some part')
    (literal : List Char) (ts : List Token) :
    cs.foldlM Lexer.step ⟨.number part literal, ts⟩ =
      some ⟨.number part' (cs.reverse ++ literal), ts⟩ := by
  induction cs generalizing part literal with
  | nil =>
    cases runs
    rfl
  | cons c rest ih =>
    obtain ⟨next, takes, runs⟩ := Option.bind_eq_some_iff.mp runs
    simp [Lexer.step, takes, ih runs]

theorem NumberPart.run?_digits {part : NumberPart} {cs : List Char}
    (loops : part = .whole ∨ part = .fraction ∨ part = .exponent) (digits : ∀ c ∈ cs, c.isDigit) :
    part.run? cs = some part := by
  induction cs with
  | nil => rfl
  | cons c rest ih =>
    have takes : part.next? c = some part := by
      have := digits c List.mem_cons_self
      rcases loops with rfl | rfl | rfl <;> simp [NumberPart.next?, this]
    rw [run?, List.foldlM_cons, takes]
    exact ih fun d mem => digits d (.tail _ mem)

/-- Digits that a part of a literal needs, and then goes on with. -/
theorem NumberPart.run?_isDigits {part next : NumberPart} {cs : List Char} (digits : IsDigits cs)
    (first : ∀ c : Char, c.isDigit → part.next? c = some next)
    (loops : next = .whole ∨ next = .fraction ∨ next = .exponent) :
    part.run? cs = some next := by
  obtain ⟨nonempty, all⟩ := digits
  cases cs with
  | nil => exact absurd rfl nonempty
  | cons c rest =>
    rw [run?, List.foldlM_cons, first c (all c List.mem_cons_self)]
    exact run?_digits loops fun d mem => all d (.tail _ mem)

theorem NumberPart.run?_append (part : NumberPart) (cs ds : List Char) :
    part.run? (cs ++ ds) = (part.run? cs).bind (·.run? ds) := List.foldlM_append

theorem run?_fraction {part : NumberPart} {cs : List Char} (fraction : IsFraction cs)
    (whole : part = .zero ∨ part = .whole) :
    ∃ next, part.run? cs = some next ∧ (next = .zero ∨ next = .whole ∨ next = .fraction) := by
  obtain rfl | ⟨ds, digits, rfl⟩ := fraction
  · exact ⟨part, rfl, whole.elim .inl fun h => .inr (.inl h)⟩
  · have point : part.next? '.' = some .point := by rcases whole with rfl | rfl <;> rfl
    refine ⟨.fraction, ?_, .inr (.inr rfl)⟩
    rw [NumberPart.run?, List.foldlM_cons, point]
    exact NumberPart.run?_isDigits digits (fun c digit => by simp [NumberPart.next?, digit])
      (.inr (.inl rfl))

theorem run?_exponent {part : NumberPart} {cs : List Char} (exponent : IsExponent cs)
    (complete : part = .zero ∨ part = .whole ∨ part = .fraction) :
    ∃ next, part.run? cs = some next ∧ next.isComplete := by
  obtain rfl | ⟨mark, sign, ds, marks, signs, digits, rfl⟩ := exponent
  · exact ⟨part, rfl, by rcases complete with rfl | rfl | rfl <;> rfl⟩
  · have marked : part.next? mark = some .mark := by
      rcases complete with rfl | rfl | rfl <;> rcases marks with rfl | rfl <;> rfl
    refine ⟨.exponent, ?_, rfl⟩
    rw [NumberPart.run?, List.foldlM_cons, marked]
    have unsigned : NumberPart.run? .mark ds = some .exponent := NumberPart.run?_isDigits digits
      (fun c digit => by simp [NumberPart.next?, digit]) (.inr (.inr rfl))
    have signed : NumberPart.run? .markSign ds = some .exponent := NumberPart.run?_isDigits digits
      (fun c digit => by simp [NumberPart.next?, digit]) (.inr (.inr rfl))
    rcases signs with rfl | rfl | rfl
    · exact unsigned
    · exact signed
    · exact signed

/-- The decimal digits of a number do not start with zero, unless they are no more than that. -/
theorem toDigits_head (n : Nat) :
    Nat.toDigits 10 n = ['0'] ∨ ∃ c cs, Nat.toDigits 10 n = c :: cs ∧ c ≠ '0' := by
  induction n using Nat.strongRecOn with
  | ind n ih =>
    by_cases small : n < 10
    · have all : ∀ n : Fin 10, n.val ≠ 0 → Nat.digitChar n.val ≠ '0' := by decide
      rw [Nat.toDigits_of_lt_base small]
      by_cases zero : n = 0
      · exact .inl (by rw [zero]; rfl)
      · exact .inr ⟨_, [], rfl, all ⟨n, small⟩ zero⟩
    · rw [Nat.toDigits_of_base_le (by decide) (by omega)]
      refine .inr ?_
      obtain zero | ⟨c, cs, digits, notZero⟩ := ih (n / 10) (by omega)
      · have := congrArg (Nat.ofDigitChars 10 · 0) zero
        simp only [Nat.ofDigitChars_toDigits (by decide : 1 < 10) (by decide)] at this
        exact absurd (show n / 10 = 0 from this) (by omega)
      · exact ⟨c, cs ++ [(n % 10).digitChar], by rw [digits]; rfl, notZero⟩

theorem isDigit_of_mem_toDigits {n : Nat} {c : Char} (mem : c ∈ Nat.toDigits 10 n) : c.isDigit :=
  Nat.isDigit_of_mem_toDigits (by decide) (by decide) mem

theorem run?_toDigits (n : Nat) : ∃ part, NumberPart.run? .sign (Nat.toDigits 10 n) = some part ∧
    (part = .zero ∨ part = .whole) := by
  obtain zero | ⟨c, cs, digits, notZero⟩ := toDigits_head n
  · exact ⟨.zero, by rw [zero]; rfl, .inl rfl⟩
  · have all : ∀ d ∈ c :: cs, d.isDigit := fun d mem => isDigit_of_mem_toDigits (digits ▸ mem)
    have first : NumberPart.next? .sign c = some .whole := by
      simp [NumberPart.next?, notZero, all c List.mem_cons_self]
    refine ⟨.whole, ?_, .inr rfl⟩
    rw [digits, NumberPart.run?, List.foldlM_cons, first]
    exact NumberPart.run?_digits (.inl rfl) fun d mem => all d (.tail _ mem)

theorem start_digit {c : Char} (digit : c.isDigit) (ts : List Token) :
    Lexer.start ts c = (NumberPart.next? .sign c).map fun part => ⟨.number part [c], ts⟩ := by
  unfold Lexer.start
  split <;> simp_all [NumberPart.next?]

theorem read_wholeNumber (negative : Bool) (n : Nat) (rest : List Char) (ts : List Token) :
    ∃ part, (part = .zero ∨ part = .whole) ∧
      (wholeNumber negative n ++ rest).foldlM Lexer.step ⟨.between, ts⟩ =
        rest.foldlM Lexer.step ⟨.number part (wholeNumber negative n).reverse, ts⟩ := by
  obtain ⟨part, runs, whole⟩ := run?_toDigits n
  refine ⟨part, whole, ?_⟩
  rw [List.foldlM_append]
  cases negative with
  | true =>
    have := read_literal runs ['-'] ts
    simp [wholeNumber, Lexer.step, Lexer.start, this]
  | false =>
    obtain ⟨c, cs, digits⟩ := List.exists_cons_of_ne_nil (Nat.toDigits_ne_nil (b := 10) (n := n))
    have first : c.isDigit := isDigit_of_mem_toDigits (digits ▸ List.mem_cons_self)
    rw [digits] at runs
    obtain ⟨next, takes, runs⟩ := Option.bind_eq_some_iff.mp runs
    have := read_literal runs [c] ts
    simp [wholeNumber, digits, Lexer.step, start_digit first, takes, this]

theorem ofLiteral_wholeNumber (negative : Bool) (n : Nat) (tail : List Char) :
    Number.ofLiteral (wholeNumber negative n ++ tail) =
      if tail.all Char.isDigit then .integer negative (digitsValue (Nat.toDigits 10 n ++ tail))
      else .real (String.ofList (wholeNumber negative n ++ tail)) := by
  have digits : (Nat.toDigits 10 n).all Char.isDigit = true :=
    List.all_eq_true.mpr fun c mem => isDigit_of_mem_toDigits mem
  cases negative with
  | true => simp [wholeNumber, Number.ofLiteral, digits]
  | false =>
    unfold Number.ofLiteral
    split
    · next ds minus =>
      -- a number without a sign starts with a digit
      obtain ⟨c, cs, eq⟩ := List.exists_cons_of_ne_nil (Nat.toDigits_ne_nil (b := 10) (n := n))
      rw [wholeNumber, if_neg Bool.false_ne_true, List.nil_append, eq] at minus
      have head : c = '-' := (List.cons.inj minus).1
      have : c.isDigit := isDigit_of_mem_toDigits (eq ▸ List.mem_cons_self)
      rw [head] at this
      exact absurd this (by decide)
    · simp [wholeNumber, digits]

theorem ofLiteral_integer (negative : Bool) (n : Nat) :
    Number.ofLiteral (wholeNumber negative n) = .integer negative n := by
  have value : digitsValue (Nat.toDigits 10 n) = n :=
    Nat.ofDigitChars_toDigits (by decide) (by decide)
  simpa [value] using ofLiteral_wholeNumber negative n []

theorem exists_nonDigit {fraction exponent : List Char} (isFraction : IsFraction fraction)
    (isExponent : IsExponent exponent) (more : fraction ++ exponent ≠ []) :
    ∃ c ∈ fraction ++ exponent, ¬ c.isDigit := by
  obtain rfl | ⟨ds, -, rfl⟩ := isFraction
  · obtain rfl | ⟨mark, sign, ds, marks, -, -, rfl⟩ := isExponent
    · exact absurd rfl more
    · exact ⟨mark, List.mem_cons_self, by rcases marks with rfl | rfl <;> decide⟩
  · exact ⟨'.', List.mem_cons_self, by decide⟩

theorem ofLiteral_real (negative : Bool) (n : Nat) {tail : List Char}
    (other : ∃ c ∈ tail, ¬ c.isDigit) :
    Number.ofLiteral (wholeNumber negative n ++ tail) =
      .real (String.ofList (wholeNumber negative n ++ tail)) := by
  obtain ⟨c, mem, notDigit⟩ := other
  rw [ofLiteral_wholeNumber, if_neg]
  exact fun all => notDigit (List.all_eq_true.mp all c mem)

/-! ### Tokens -/

/-- A lexer that has read the given tokens to the end. The last may be a number that one more
digit would change. -/
def Lexer.Settled (l : Lexer) (ts : List Token) : Prop :=
  l = ⟨.between, ts⟩ ∨
    ∃ part literal before, part.isComplete ∧ l = ⟨.number part literal, before⟩ ∧
      ts = .number (.ofLiteral literal.reverse) :: before

theorem Lexer.Settled.finish? {l : Lexer} {ts : List Token} (settled : l.Settled ts) :
    l.finish? = some ts.reverse := by
  obtain rfl | ⟨part, literal, before, complete, rfl, rfl⟩ := settled
  · rfl
  · simp [Lexer.finish?, complete]

def EndsNumber (c : Char) : Prop := ∀ part : NumberPart, part.isComplete → part.next? c = none

theorem Lexer.Settled.step {l : Lexer} {ts : List Token} {c : Char} (settled : l.Settled ts)
    (ends : EndsNumber c) : l.step c = Lexer.start ts c := by
  obtain rfl | ⟨part, literal, before, complete, rfl, rfl⟩ := settled
  · rfl
  · simp [Lexer.step, ends part complete, complete]

theorem endsNumber_blank {c : Char} (blank : c = ' ' ∨ c = '\t' ∨ c = '\n' ∨ c = '\r') :
    EndsNumber c := by
  intro part complete
  rcases blank with rfl | rfl | rfl | rfl <;> cases part <;> rfl

theorem endsNumber_symbol {t : Token} {c : Char} (symbol : t.symbol? = some c) : EndsNumber c := by
  intro part complete
  cases t <;> cases symbol <;> cases part <;> rfl

theorem start_symbol {t : Token} {c : Char} (symbol : t.symbol? = some c) (ts : List Token) :
    Lexer.start ts c = some ⟨.between, t :: ts⟩ := by
  cases t <;> cases symbol <;> rfl

/-- A number is kept back only as long as it is the last token. -/
theorem Lexer.Settled.eq_between {l : Lexer} {ts : List Token} (settled : l.Settled ts)
    (symbol : ∀ last ∈ ts.head?, last.symbol?.isSome) : l = ⟨.between, ts⟩ := by
  obtain rfl | ⟨part, literal, before, -, -, rfl⟩ := settled
  · rfl
  · cases symbol _ rfl

theorem Lexer.Settled.blanks {l : Lexer} {ts : List Token} {cs : List Char} (settled : l.Settled ts)
    (blanks : Blanks cs) : ∃ l', cs.foldlM Lexer.step l = some l' ∧ l'.Settled ts := by
  induction cs generalizing l with
  | nil => exact ⟨l, rfl, settled⟩
  | cons c rest ih =>
    have blank := blanks c List.mem_cons_self
    have first : l.step c = some ⟨.between, ts⟩ := by
      rw [settled.step (endsNumber_blank blank)]
      rcases blank with rfl | rfl | rfl | rfl <;> rfl
    rw [List.foldlM_cons, first]
    exact ih (.inl rfl) fun d mem => blanks d (.tail _ mem)

theorem Number.Spelling.read {n : Number} {cs : List Char} (spelled : n.Spelling cs)
    (ts : List Token) :
    ∃ l, cs.foldlM Lexer.step ⟨.between, ts⟩ = some l ∧ l.Settled (.number n :: ts) := by
  cases spelled with
  | integer negative n =>
    obtain ⟨part, whole, reads⟩ := read_wholeNumber negative n [] ts
    rw [List.append_nil] at reads
    refine ⟨_, reads, .inr ⟨part, _, ts, ?_, rfl, ?_⟩⟩
    · rcases whole with rfl | rfl <;> rfl
    · rw [List.reverse_reverse, ofLiteral_integer]
  | @real negative n fraction exponent isFraction isExponent more =>
    obtain ⟨part, whole, reads⟩ := read_wholeNumber negative n (fraction ++ exponent) ts
    obtain ⟨next, runs, complete⟩ := run?_fraction isFraction whole
    obtain ⟨last, runs', complete⟩ := run?_exponent isExponent complete
    have runs : part.run? (fraction ++ exponent) = some last := by
      rw [NumberPart.run?_append, runs]
      exact runs'
    rw [read_literal runs] at reads
    refine ⟨_, reads, .inr ⟨last, _, ts, complete, rfl, ?_⟩⟩
    rw [List.reverse_append, List.reverse_reverse, List.reverse_reverse,
      ofLiteral_real negative n (exists_nonDigit isFraction isExponent more)]

theorem Token.Spelling.read {t : Token} {cs : List Char} (spelled : t.Spelling cs)
    (ts : List Token) :
    ∃ l, cs.foldlM Lexer.step ⟨.between, ts⟩ = some l ∧ l.Settled (t :: ts) := by
  cases spelled with
  | symbol symbol => exact ⟨_, by simp [Lexer.step, start_symbol symbol], .inl rfl⟩
  | null | true | false => exact ⟨_, rfl, .inl rfl⟩
  | number spelled => exact spelled.read ts
  | string row text =>
    refine ⟨_, ?_, .inl rfl⟩
    have body := read_pieces row [] ts
    rw [List.foldlM_cons, show Lexer.step ⟨.between, ts⟩ '"' = some ⟨.string [], ts⟩ from rfl]
    simp [List.foldlM_append, body, Lexer.step, join_of_isTextOf (isShort_of_row row) text]

/-! ### Rows of tokens -/

/-- Of two neighbours one is structural. -/
def Token.Apart (t t' : Token) : Prop := t.symbol?.isSome ∨ t'.symbol?.isSome

theorem Token.Spelling.eq_symbol {t : Token} {cs : List Char} {c : Char} (spelled : t.Spelling cs)
    (symbol : t.symbol? = some c) : cs = [c] := by
  cases spelled with
  | symbol symbol' => rw [Option.some.inj (symbol'.symm.trans symbol)]
  | null | true | false | number | string => cases symbol

theorem Token.Spaced.read {t : Token} {cs : List Char} (spaced : t.Spaced cs) {l : Lexer}
    {ts : List Token} (settled : l.Settled ts) (apart : ∀ last ∈ ts.head?, last.Apart t) :
    ∃ l', cs.foldlM Lexer.step l = some l' ∧ l'.Settled (t :: ts) := by
  obtain ⟨blanks, spelling, blank, spelled, rfl⟩ := spaced
  obtain ⟨l', skips, settled⟩ := settled.blanks blank
  rw [List.foldlM_append, skips]
  cases symbol : t.symbol? with
  | some c =>
    -- a structural token ends a number before it
    have step := (settled.step (endsNumber_symbol symbol)).trans (start_symbol symbol ts)
    exact ⟨_, by simp [spelled.eq_symbol symbol, step], .inl rfl⟩
  | none =>
    have : ∀ last ∈ ts.head?, last.symbol?.isSome := fun last mem =>
      (apart last mem).resolve_right (by simp [symbol])
    rw [settled.eq_between this]
    exact spelled.read ts

theorem read_row {ts : List Token} {cs : List Char} (row : Row Token.Spaced ts cs) {l : Lexer}
    {before : List Token} (settled : l.Settled before)
    (apart : List.IsChain Token.Apart (before.head?.toList ++ ts)) :
    ∃ l', cs.foldlM Lexer.step l = some l' ∧ l'.Settled (ts.reverse ++ before) := by
  induction row generalizing l before with
  | nil => exact ⟨l, rfl, settled⟩
  | @cons t ts cs rest spaced _ ih =>
    have ⟨head, tail⟩ : (∀ last ∈ before.head?, last.Apart t) ∧ List.IsChain Token.Apart (t :: ts) := by
      cases before with
      | nil => simpa using apart
      | cons last before => simpa using apart
    obtain ⟨l', first, settled'⟩ := spaced.read settled head
    obtain ⟨l'', others, settled''⟩ := ih settled' tail
    refine ⟨l'', ?_, by simpa using settled''⟩
    rw [List.foldlM_append, first]
    exact others

/-- A whole text is cut into the tokens it spells. -/
theorem tokens?_of_row {ts : List Token} {cs blanks : List Char} (row : Row Token.Spaced ts cs)
    (apart : List.IsChain Token.Apart ts) (blank : Blanks blanks) :
    tokens? (cs ++ blanks) = some ts := by
  have start : Lexer.Settled {} [] := .inl rfl
  obtain ⟨l, reads, settled⟩ := read_row row start apart
  obtain ⟨l', skips, settled⟩ := settled.blanks blank
  rw [tokens?, List.foldlM_append, reads]
  simp [skips, settled.finish?]

end BeaconMesh.Json
