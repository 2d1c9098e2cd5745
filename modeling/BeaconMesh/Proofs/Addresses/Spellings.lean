import BeaconMesh.Addr.Text
import BeaconMesh.Proofs.Addresses.DigitPairs

/-!
# The spellings of an address

An address is spelt by twelve hexadecimal digits of either case, with separators anywhere.
`parse_exactly_spellings` says that these are the texts that are read, what they are read as, and
why any other text is refused.
-/

namespace BeaconMesh

open Json (IsHexDigit)

namespace Addr

open Hex (Writes IsDigitByte IsFirstBad asciiBytes)

/-- A text without its separators. -/
def bare (s : String) : String := String.ofList (s.toList.filter fun c => ! isSeparator c)

def bareBytes (s : String) : List UInt8 := (bare s).toUTF8.data.toList

variable {s t : String} {a b : Addr} {c : Char} {cs : List Char} {bs : List UInt8} {n : Nat}

/-! ### Texts -/

theorem bareBytes_eq (s : String) :
    bareBytes s = (bare s).toList.flatMap String.utf8EncodeChar := by
  unfold bareBytes bare
  rw [String.toUTF8_eq_toByteArray, String.toByteArray_ofList, List.utf8Encode,
    List.toList_data_toByteArray, String.toList_ofList]

theorem parse_eq (s : String) : parse s = ofDigits (bareBytes s) := by
  rw [bareBytes_eq, bare, String.toList_ofList]
  rfl

theorem utf8_of_ascii (ascii : c.toNat < 128) : String.utf8EncodeChar c = [c.toNat.toUInt8] :=
  if_pos (Nat.le_of_lt_succ ascii)

/-- A character that is not ASCII has no digit among its bytes. -/
theorem ascii_of_utf8 (digits : ∀ d ∈ String.utf8EncodeChar c, IsDigitByte d) : c.toNat < 128 := by
  have low : ∀ d ∈ String.utf8EncodeChar c, d.toNat < 128 := by
    intro d mem
    obtain ⟨c', n, digit, same⟩ := digits d mem
    rw [same]
    exact (Hex.value?_of_isHexDigit digit).2
  rcases Nat.lt_or_ge c.toNat 128 with ascii | high
  · exact ascii
  · have code : ¬ c.val.toNat ≤ 127 := Nat.not_le_of_lt high
    unfold String.utf8EncodeChar at low
    dsimp only at low
    rw [if_neg code] at low
    -- the first byte of two, three or four has its highest bit set
    repeat' split at low
    all_goals
      have first := low _ List.mem_cons_self
      rw [UInt8.toNat_ofNat'] at first
      omega

theorem isHexDigit_of_utf8 (digits : ∀ d ∈ String.utf8EncodeChar c, IsDigitByte d) :
    ∃ n, IsHexDigit c n := by
  have ascii := ascii_of_utf8 digits
  rw [utf8_of_ascii ascii] at digits
  obtain ⟨v, valued⟩ := Hex.isDigitByte_iff.mp (digits _ List.mem_cons_self)
  obtain ⟨digit, -⟩ := Hex.isHexDigit_of_value? valued
  have code : (c.toNat.toUInt8).toNat = c.toNat := by
    rw [Nat.toUInt8, UInt8.toNat_ofNat']
    omega
  rw [code, Char.ofNat_toNat] at digit
  exact ⟨_, digit⟩

theorem utf8_digits (digits : ∀ c ∈ cs, ∃ n, IsHexDigit c n) :
    cs.flatMap String.utf8EncodeChar = asciiBytes cs := by
  induction cs with
  | nil => rfl
  | cons c cs ih =>
    obtain ⟨⟨n, digit⟩, rest⟩ := List.forall_mem_cons.mp digits
    rw [List.flatMap_cons, ih rest, utf8_of_ascii (Hex.value?_of_isHexDigit digit).2]
    rfl

theorem digits_of_utf8 (digits : ∀ d ∈ cs.flatMap String.utf8EncodeChar, IsDigitByte d) :
    ∀ c ∈ cs, ∃ n, IsHexDigit c n :=
  fun c mem => isHexDigit_of_utf8 fun d part => digits d (List.mem_flatMap.mpr ⟨c, mem, part⟩)

theorem decode_utf8_iff :
    Hex.decode (cs.flatMap String.utf8EncodeChar) = .ok bs ↔ Writes cs bs := by
  constructor
  · intro read
    obtain ⟨cs', written, same⟩ := Hex.decode_eq_ok read
    have digits := digits_of_utf8 (same ▸ written.digitBytes)
    have bytes := utf8_digits digits
    have even : cs.length % 2 = 0 := by
      have lengths := congrArg List.length (same.trans bytes)
      have := written.length
      simp only [asciiBytes, List.length_map] at lengths
      omega
    obtain ⟨bs', written'⟩ := Hex.exists_writes cs even digits
    rw [bytes, Hex.decode_isReader.pairs cs bs' written'] at read
    cases read
    exact written'
  · intro written
    rw [utf8_digits written.digits]
    exact Hex.decode_isReader.pairs cs bs written

/-! ### Addresses -/

theorem exists_toBytes {bytes : List UInt8} (six : bytes.length = length) :
    ∃ a : Addr, bytes = a.toBytes := by
  obtain ⟨a, read⟩ := read?_isSome (Nat.le_of_eq six.symm)
  refine ⟨a, ?_⟩
  have whole := eq_of_read? read
  rwa [List.drop_eq_nil_of_le (Nat.le_of_eq six), List.append_nil] at whole

theorem ofExactly_of_other {bytes : List UInt8} (other : bytes.length ≠ length) :
    ofExactly bytes = .error (.invalidLength bytes.length) := by
  unfold ofExactly
  split
  · rename_i a read
    have whole := eq_of_read? read
    rw [List.append_nil] at whole
    exact absurd (congrArg List.length whole) other
  · rfl

theorem parse_of_error {cause : Hex.Error} (failed : Hex.decode (bareBytes s) = .error cause) :
    parse s = .error (.invalidHex cause) := by
  rw [parse_eq, ofDigits, failed]

theorem parse_of_writes (written : Writes (bare s).toList bs) : parse s = ofExactly bs := by
  rw [parse_eq, ofDigits, bareBytes_eq, decode_utf8_iff.mpr written]

theorem parse_cases (s : String) :
    (∃ cause, Hex.decode (bareBytes s) = .error cause ∧ parse s = .error (.invalidHex cause)) ∨
    (∃ a : Addr, Writes (bare s).toList a.toBytes ∧ parse s = .ok a) ∨
    ∃ bs, Writes (bare s).toList bs ∧ bs.length ≠ length ∧
      parse s = .error (.invalidLength bs.length) := by
  cases read : Hex.decode (bareBytes s) with
  | error cause => exact .inl ⟨cause, rfl, parse_of_error read⟩
  | ok bs =>
    rw [bareBytes_eq] at read
    have written := decode_utf8_iff.mp read
    by_cases six : bs.length = length
    · obtain ⟨a, rfl⟩ := exists_toBytes six
      exact .inr (.inl ⟨a, written, parse_of_writes written⟩)
    · exact .inr (.inr ⟨bs, written, six, (parse_of_writes written).trans (ofExactly_of_other six)⟩)

theorem parse_eq_ok_iff : parse s = .ok a ↔ Writes (bare s).toList a.toBytes := by
  refine ⟨fun parsed => ?_, parse_of_writes⟩
  rcases parse_cases s with ⟨cause, -, refused⟩ | ⟨b, written, read⟩ | ⟨bs, -, -, refused⟩
  · cases parsed.symm.trans refused
  · cases parsed.symm.trans read
    exact written
  · cases parsed.symm.trans refused

theorem parse_invalidHex_iff {cause : Hex.Error} :
    parse s = .error (.invalidHex cause) ↔ Hex.decode (bareBytes s) = .error cause := by
  refine ⟨fun refused => ?_, parse_of_error⟩
  rcases parse_cases s with ⟨cause', failed, refused'⟩ | ⟨b, -, read⟩ | ⟨bs, -, -, refused'⟩
  · cases refused.symm.trans refused'
    exact failed
  · cases refused.symm.trans read
  · cases refused.symm.trans refused'

theorem parse_invalidLength_iff : parse s = .error (.invalidLength n) ↔
    (∀ d ∈ bareBytes s, IsDigitByte d) ∧ (bareBytes s).length = 2 * n ∧ n ≠ length := by
  rw [bareBytes_eq]
  constructor
  · intro refused
    rcases parse_cases s with ⟨cause, -, refused'⟩ | ⟨b, -, read⟩ | ⟨bs, written, other, refused'⟩
    · cases refused.symm.trans refused'
    · cases refused.symm.trans read
    · cases refused.symm.trans refused'
      rw [utf8_digits written.digits]
      refine ⟨written.digitBytes, ?_, other⟩
      rw [asciiBytes, List.length_map, written.length]
  · rintro ⟨digits, pairs, other⟩
    have digits := digits_of_utf8 digits
    rw [utf8_digits digits, asciiBytes, List.length_map] at pairs
    obtain ⟨bs, written⟩ := Hex.exists_writes (bare s).toList (by omega) digits
    obtain rfl : bs.length = n := by
      have := written.length
      omega
    rw [parse_of_writes written, ofExactly_of_other other]

theorem exists_parse_iff : (∃ a, parse s = .ok a) ↔
    (bare s).length = 12 ∧ ∀ c ∈ (bare s).toList, ∃ n, IsHexDigit c n := by
  rw [← String.length_toList]
  constructor
  · rintro ⟨a, parsed⟩
    have written := parse_eq_ok_iff.mp parsed
    exact ⟨written.length, written.digits⟩
  · rintro ⟨twelve, digits⟩
    obtain ⟨bs, written⟩ := Hex.exists_writes (bare s).toList (by omega) digits
    have six : bs.length = length := by
      have := written.length
      unfold length
      omega
    obtain ⟨a, rfl⟩ := exists_toBytes six
    exact ⟨a, parse_eq_ok_iff.mpr written⟩

theorem parse_congr (same : bare s = bare t) : parse s = parse t := by
  rw [parse_eq, parse_eq, bareBytes, bareBytes, same]

theorem bare_separators {sep : String} (separators : ∀ c ∈ sep.toList, c = ':' ∨ c = '-') :
    bare (s ++ sep ++ t) = bare (s ++ t) := by
  have none : sep.toList.filter (fun c => ! isSeparator c) = [] := by
    rw [List.filter_eq_nil_iff]
    intro c listed
    simp [isSeparator, separators c listed]
  simp only [bare, String.toList_append, List.filter_append, none, List.append_nil]

theorem text_inj (same : a.text = b.text) : a = b := by
  have read := parse_text a
  rw [same, parse_text] at read
  exact (Except.ok.inj read).symm

theorem text_eq_iff (parsed : parse s = .ok a) (parsed' : parse t = .ok b) :
    a.text = b.text ↔ (bare s).toList.map Char.toLower = (bare t).toList.map Char.toLower := by
  rw [(parse_eq_ok_iff.mp parsed).toLower, (parse_eq_ok_iff.mp parsed').toLower]
  constructor
  · intro same
    rw [text_inj same]
  · intro same
    have bytes := congrArg ofBytes? (Hex.encode_inj same)
    rw [ofBytes?_toBytes, ofBytes?_toBytes] at bytes
    rw [Option.some.inj bytes]

/-- An address is read exactly from twelve hexadecimal digits, of either case and with separators
anywhere. -/
theorem parse_exactly_spellings :
    (∀ read, Hex.IsReader read ↔ read = Hex.decode) ∧
    (∀ s a, parse s = .ok a ↔ Writes (bare s).toList a.toBytes) ∧
    (∀ s, (∃ a, parse s = .ok a) ↔
      (bare s).length = 12 ∧ ∀ c ∈ (bare s).toList, ∃ n, IsHexDigit c n) ∧
    (∀ s sep t : String, (∀ c ∈ sep.toList, c = ':' ∨ c = '-') →
      parse (s ++ sep ++ t) = parse (s ++ t)) ∧
    (∀ a, parse a.text = .ok a) ∧
    (∀ s t a b, parse s = .ok a → parse t = .ok b →
      (a.text = b.text ↔
        (bare s).toList.map Char.toLower = (bare t).toList.map Char.toLower)) ∧
    (∀ s, parse s = .error (.invalidHex .oddLength) ↔ (bareBytes s).length % 2 = 1) ∧
    (∀ s b i, parse s = .error (.invalidHex (.badDigit b i)) ↔
      (bareBytes s).length % 2 = 0 ∧ IsFirstBad (bareBytes s) b i) ∧
    ∀ s n, parse s = .error (.invalidLength n) ↔
      (∀ d ∈ bareBytes s, IsDigitByte d) ∧ (bareBytes s).length = 2 * n ∧ n ≠ 6 :=
  ⟨fun _ => Hex.isReader_iff, fun _ _ => parse_eq_ok_iff, fun _ => exists_parse_iff,
    fun _ _ _ separators => parse_congr (bare_separators separators), parse_text,
    fun _ _ _ _ => text_eq_iff, fun _ => parse_invalidHex_iff.trans Hex.decode_odd_iff,
    fun _ _ _ => parse_invalidHex_iff.trans Hex.decode_bad_iff, fun _ _ => parse_invalidLength_iff⟩

/-- Capitals and few separators make another spelling of the same address, which is shown alike. -/
theorem parse_exactly_spellings_sample :
    parse "02-005E10:0001" = .ok ⟨2, 0, 0x5e, 0x10, 0, 1⟩ ∧
      parse "02:00:5e:10:00:01" = .ok ⟨2, 0, 0x5e, 0x10, 0, 1⟩ ∧
      (bare "02-005E10:0001").toList.map Char.toLower =
        (bare "02:00:5e:10:00:01").toList.map Char.toLower ∧
      parse ("02-00" ++ ":-:" ++ "5E10:0001") = parse ("02-00" ++ "5E10:0001") := by
  obtain ⟨-, -, -, insert, -, texts, -⟩ := parse_exactly_spellings
  have first : parse "02-005E10:0001" = .ok ⟨2, 0, 0x5e, 0x10, 0, 1⟩ := rfl
  have second : parse "02:00:5e:10:00:01" = .ok ⟨2, 0, 0x5e, 0x10, 0, 1⟩ := rfl
  exact ⟨first, second, (texts _ _ _ _ first second).mp rfl,
    insert "02-00" ":-:" "5E10:0001" (by simp)⟩

end Addr

end BeaconMesh
