import BeaconMesh.Hex
import BeaconMesh.Proofs.Json.Grammar

/-!
# Pairs of digits

`Hex.Writes` says which digits, of either case, write which bytes, and `Hex.IsReader` what is asked
of a reader of them, faults included. `isReader_iff` says that there is just one such reader, and
the `decode_…` lemmas say when it gives which answer.
-/

namespace BeaconMesh

open Json (IsHexDigit)

namespace Hex

/-- Whether digits write bytes: two for each byte, the high one first. -/
inductive Writes : List Char → List UInt8 → Prop where
  | nil : Writes [] []
  | cons {high low : Char} {h l : Nat} {cs : List Char} {b : UInt8} {bs : List UInt8} :
      IsHexDigit high h → IsHexDigit low l → b.toNat = 16 * h + l → Writes cs bs →
      Writes (high :: low :: cs) (b :: bs)

/-- Whether a byte is the ASCII code of a digit. -/
def IsDigitByte (b : UInt8) : Prop := ∃ c n, IsHexDigit c n ∧ b.toNat = c.toNat

structure IsFirstBad (ds : List UInt8) (b : UInt8) (i : Nat) : Prop where
  place : ds[i]? = some b
  bad : ¬ IsDigitByte b
  before : ∀ d ∈ ds.take i, IsDigitByte d

/-- What is asked of a reader of digit pairs. -/
structure IsReader (read : List UInt8 → Except Error (List UInt8)) : Prop where
  odd : ∀ ds, ds.length % 2 = 1 → read ds = .error .oddLength
  bad : ∀ ds b i, ds.length % 2 = 0 → IsFirstBad ds b i → read ds = .error (.badDigit b i)
  pairs : ∀ cs bs, Writes cs bs → read (asciiBytes cs) = .ok bs

variable {c : Char} {cs : List Char} {b d v : UInt8} {bs ds : List UInt8} {i n position : Nat}

/-! ### Digits -/

theorem value?_of_isHexDigit (digit : IsHexDigit c n) :
    value? c.toNat.toUInt8 = some n.toUInt8 ∧ c.toNat < 128 := by
  have all : ∀ n : Fin 16, value? (Nat.digitChar n.val).toUpper.toNat.toUInt8 = some n.val.toUInt8 ∧
      (Nat.digitChar n.val).toUpper.toNat < 128 ∧ (Nat.digitChar n.val).toNat < 128 := by decide
  obtain ⟨small, rfl | rfl⟩ := digit
  · exact ⟨value?_digitChar ⟨n, small⟩, (all ⟨n, small⟩).2.2⟩
  · exact ⟨(all ⟨n, small⟩).1, (all ⟨n, small⟩).2.1⟩

theorem isHexDigit_of_value? (valued : value? b = some v) :
    IsHexDigit (Char.ofNat b.toNat) v.toNat ∧ (Char.ofNat b.toNat).toNat = b.toNat := by
  have all : ∀ m < 256, ∀ v ∈ value? (UInt8.ofNat m), (Char.ofNat m).toNat = m ∧ v.toNat < 16 ∧
      (Char.ofNat m = Nat.digitChar v.toNat ∨ Char.ofNat m = (Nat.digitChar v.toNat).toUpper) := by
    decide +kernel
  have valued : value? (UInt8.ofNat b.toNat) = some v := by rwa [UInt8.ofNat_toNat]
  obtain ⟨same, digit⟩ := all b.toNat b.toNat_lt v valued
  exact ⟨digit, same⟩

theorem isDigitByte_iff : IsDigitByte b ↔ ∃ v, value? b = some v := by
  constructor
  · rintro ⟨c, n, digit, same⟩
    have code : c.toNat.toUInt8 = b := by rw [← same]; exact UInt8.ofNat_toNat
    exact ⟨_, code ▸ (value?_of_isHexDigit digit).1⟩
  · rintro ⟨v, valued⟩
    obtain ⟨digit, same⟩ := isHexDigit_of_value? valued
    exact ⟨_, _, digit, same.symm⟩

theorem isDigitByte_of_isHexDigit (digit : IsHexDigit c n) : IsDigitByte c.toNat.toUInt8 :=
  isDigitByte_iff.mpr ⟨_, (value?_of_isHexDigit digit).1⟩

theorem toLower_of_isHexDigit (digit : IsHexDigit c n) : c.toLower = Nat.digitChar n := by
  have all : ∀ n : Fin 16, (Nat.digitChar n.val).toLower = Nat.digitChar n.val ∧
      (Nat.digitChar n.val).toUpper.toLower = Nat.digitChar n.val := by decide
  obtain ⟨small, rfl | rfl⟩ := digit
  · exact (all ⟨n, small⟩).1
  · exact (all ⟨n, small⟩).2

/-! ### Writing -/

theorem Writes.length (written : Writes cs bs) : cs.length = 2 * bs.length := by
  induction written with
  | nil => rfl
  | cons _ _ _ _ ih =>
    simp only [List.length_cons, ih]
    omega

theorem Writes.digits (written : Writes cs bs) : ∀ c ∈ cs, ∃ n, IsHexDigit c n := by
  induction written with
  | nil => simp
  | cons high low _ _ ih =>
    rw [List.forall_mem_cons, List.forall_mem_cons]
    exact ⟨⟨_, high⟩, ⟨_, low⟩, ih⟩

theorem Writes.digitBytes (written : Writes cs bs) : ∀ d ∈ asciiBytes cs, IsDigitByte d := by
  intro d mem
  obtain ⟨c, listed, rfl⟩ := List.mem_map.mp mem
  obtain ⟨n, digit⟩ := written.digits c listed
  exact isDigitByte_of_isHexDigit digit

theorem Writes.toLower (written : Writes cs bs) : cs.map Char.toLower = encode bs := by
  induction written with
  | nil => rfl
  | @cons high low h l cs b bs isHigh isLow joined _ ih =>
    have := isHigh.1
    have := isLow.1
    have step : encode (b :: bs) = encodeByte b ++ encode bs := rfl
    rw [List.map_cons, List.map_cons, ih, toLower_of_isHexDigit isHigh, toLower_of_isHexDigit isLow,
      step, encodeByte, joined, show (16 * h + l) / 16 = h by omega,
      show (16 * h + l) % 16 = l by omega]
    rfl

theorem encode_inj {bs' : List UInt8} (same : encode bs = encode bs') : bs = bs' := by
  have read := decode_encode bs
  rw [same, decode_encode] at read
  exact (Except.ok.inj read).symm

theorem exists_writes : ∀ cs : List Char, cs.length % 2 = 0 → (∀ c ∈ cs, ∃ n, IsHexDigit c n) →
    ∃ bs, Writes cs bs
  | [], _, _ => ⟨[], .nil⟩
  | [_], odd, _ => absurd odd (by simp)
  | high :: low :: cs, even, digits => by
    obtain ⟨⟨h, isHigh⟩, ⟨l, isLow⟩, rest⟩ := by
      simpa only [List.forall_mem_cons] using digits
    have fewer : cs.length % 2 = 0 := by
      rw [List.length_cons, List.length_cons] at even
      omega
    obtain ⟨bs, written⟩ := exists_writes cs fewer rest
    have := isHigh.1
    have := isLow.1
    have byte : (UInt8.ofNat (16 * h + l)).toNat = 16 * h + l := by
      rw [UInt8.toNat_ofNat']
      omega
    exact ⟨_, .cons isHigh isLow byte written⟩

theorem isFirstBad_zero : IsFirstBad (d :: ds) b 0 ↔ d = b ∧ ¬ IsDigitByte b := by
  constructor
  · rintro ⟨place, bad, -⟩
    exact ⟨Option.some.inj place, bad⟩
  · rintro ⟨rfl, bad⟩
    exact ⟨rfl, bad, by simp⟩

theorem isFirstBad_succ :
    IsFirstBad (d :: ds) b (i + 1) ↔ IsDigitByte d ∧ IsFirstBad ds b i := by
  constructor
  · rintro ⟨place, bad, before⟩
    rw [List.take_succ_cons, List.forall_mem_cons] at before
    exact ⟨before.1, place, bad, before.2⟩
  · rintro ⟨digit, place, bad, before⟩
    refine ⟨place, bad, ?_⟩
    rw [List.take_succ_cons, List.forall_mem_cons]
    exact ⟨digit, before⟩

theorem exists_isFirstBad (ds : List UInt8) :
    (∃ b i, IsFirstBad ds b i) ∨ ∃ cs, (∀ c ∈ cs, ∃ n, IsHexDigit c n) ∧ asciiBytes cs = ds := by
  induction ds with
  | nil => exact .inr ⟨[], by simp, rfl⟩
  | cons d ds ih =>
    by_cases digit : IsDigitByte d
    · rcases ih with ⟨b, i, first⟩ | ⟨cs, digits, same⟩
      · exact .inl ⟨b, i + 1, isFirstBad_succ.mpr ⟨digit, first⟩⟩
      · obtain ⟨c, n, isDigit, code⟩ := digit
        refine .inr ⟨c :: cs, List.forall_mem_cons.mpr ⟨⟨n, isDigit⟩, digits⟩, ?_⟩
        rw [← same, asciiBytes, List.map_cons, ← code]
        exact congrArg (· :: _) UInt8.ofNat_toNat
    · exact .inl ⟨d, 0, isFirstBad_zero.mpr ⟨rfl, digit⟩⟩

theorem reading_cases (ds : List UInt8) : ds.length % 2 = 1 ∨
    (ds.length % 2 = 0 ∧ ∃ b i, IsFirstBad ds b i) ∨
    ∃ cs bs, Writes cs bs ∧ asciiBytes cs = ds := by
  rcases Nat.mod_two_eq_zero_or_one ds.length with even | odd
  · rcases exists_isFirstBad ds with first | ⟨cs, digits, rfl⟩
    · exact .inr (.inl ⟨even, first⟩)
    · rw [asciiBytes, List.length_map] at even
      obtain ⟨bs, written⟩ := exists_writes cs even digits
      exact .inr (.inr ⟨cs, bs, written, rfl⟩)
  · exact .inl odd

/-! ### Reading -/

theorem digitAt_of_bad (bad : ¬ IsDigitByte b) (position : Nat) :
    digitAt position b = .error (.badDigit b position) := by
  unfold digitAt
  cases valued : value? b with
  | none => rfl
  | some v => exact absurd (isDigitByte_iff.mpr ⟨v, valued⟩) bad

theorem digitAt_of_digit (digit : IsDigitByte b) (position : Nat) :
    ∃ v, digitAt position b = .ok v := by
  obtain ⟨v, valued⟩ := isDigitByte_iff.mp digit
  unfold digitAt
  rw [valued]
  exact ⟨v, rfl⟩

theorem decodePairs_bad (even : ds.length % 2 = 0) (first : IsFirstBad ds b i) :
    decodePairs position ds = .error (.badDigit b (position + i)) := by
  induction position, ds using decodePairs.induct generalizing i with
  | case1 position high low rest ih =>
    rw [decodePairs]
    rcases i with _ | _ | i
    · obtain ⟨rfl, bad⟩ := isFirstBad_zero.mp first
      rw [digitAt_of_bad bad]
      rfl
    · obtain ⟨digit, first⟩ := isFirstBad_succ.mp first
      obtain ⟨rfl, bad⟩ := isFirstBad_zero.mp first
      obtain ⟨h, isHigh⟩ := digitAt_of_digit digit position
      rw [isHigh, digitAt_of_bad bad]
      rfl
    · obtain ⟨digit, first⟩ := isFirstBad_succ.mp first
      obtain ⟨digit', first⟩ := isFirstBad_succ.mp first
      obtain ⟨h, isHigh⟩ := digitAt_of_digit digit position
      obtain ⟨l, isLow⟩ := digitAt_of_digit digit' (position + 1)
      have fewer : rest.length % 2 = 0 := by
        rw [List.length_cons, List.length_cons] at even
        omega
      have rest := ih fewer first
      rw [isHigh, isLow, show position + (i + 1 + 1) = position + 2 + i by omega]
      simp only [bind, Except.bind, rest]
  | case2 ds position short =>
    -- a text without a pair is empty or odd
    rcases ds with _ | ⟨high, _ | ⟨low, rest⟩⟩
    · cases first.place
    · cases even
    · exact absurd rfl (short high low rest)

theorem decodePairs_writes (written : Writes cs bs) (position : Nat) :
    decodePairs position (asciiBytes cs) = .ok bs := by
  induction written generalizing position with
  | nil => rfl
  | @cons high low h l cs b bs isHigh isLow joined _ ih =>
    have := isHigh.1
    have := isLow.1
    have byte : h.toUInt8 * 16 + l.toUInt8 = b := by
      apply UInt8.toNat_inj.mp
      simp only [UInt8.toNat_add, UInt8.toNat_mul, Nat.toUInt8, UInt8.toNat_ofNat']
      simp
      omega
    have step : asciiBytes (high :: low :: cs) =
        high.toNat.toUInt8 :: low.toNat.toUInt8 :: asciiBytes cs := rfl
    rw [step, decodePairs, digitAt, digitAt, (value?_of_isHexDigit isHigh).1,
      (value?_of_isHexDigit isLow).1]
    simp only [bind, Except.bind, pure, Except.pure, ih, byte]

theorem decode_isReader : IsReader decode where
  odd ds odd := if_pos odd
  bad ds b i even first := by
    rw [decode, if_neg (by omega), decodePairs_bad even first, Nat.zero_add]
  pairs cs bs written := by
    have length := written.length
    rw [decode, if_neg, decodePairs_writes written]
    rw [asciiBytes, List.length_map]
    omega

/-- What is asked of a reader leaves it no choice. -/
theorem isReader_iff {read : List UInt8 → Except Error (List UInt8)} :
    IsReader read ↔ read = decode := by
  constructor
  · intro reads
    funext ds
    rcases reading_cases ds with odd | ⟨even, b, i, first⟩ | ⟨cs, bs, written, rfl⟩
    · rw [reads.odd ds odd, decode_isReader.odd ds odd]
    · rw [reads.bad ds b i even first, decode_isReader.bad ds b i even first]
    · rw [reads.pairs cs bs written, decode_isReader.pairs cs bs written]
  · rintro rfl
    exact decode_isReader

theorem decode_cases (ds : List UInt8) :
    (ds.length % 2 = 1 ∧ decode ds = .error .oddLength) ∨
    (∃ b i, ds.length % 2 = 0 ∧ IsFirstBad ds b i ∧ decode ds = .error (.badDigit b i)) ∨
    ∃ cs bs, Writes cs bs ∧ asciiBytes cs = ds ∧ decode ds = .ok bs := by
  rcases reading_cases ds with odd | ⟨even, b, i, first⟩ | ⟨cs, bs, written, rfl⟩
  · exact .inl ⟨odd, decode_isReader.odd ds odd⟩
  · exact .inr (.inl ⟨b, i, even, first, decode_isReader.bad ds b i even first⟩)
  · exact .inr (.inr ⟨cs, bs, written, rfl, decode_isReader.pairs cs bs written⟩)

theorem decode_eq_ok (read : decode ds = .ok bs) : ∃ cs, Writes cs bs ∧ asciiBytes cs = ds := by
  rcases decode_cases ds with ⟨-, failed⟩ | ⟨b, i, -, -, failed⟩ | ⟨cs, bs', written, same, read'⟩
  · cases read.symm.trans failed
  · cases read.symm.trans failed
  · cases read.symm.trans read'
    exact ⟨cs, written, same⟩

theorem decode_odd_iff : decode ds = .error .oddLength ↔ ds.length % 2 = 1 := by
  refine ⟨fun failed => ?_, decode_isReader.odd ds⟩
  rcases decode_cases ds with ⟨odd, -⟩ | ⟨b, i, -, -, failed'⟩ | ⟨cs, bs, -, -, read⟩
  · exact odd
  · cases failed.symm.trans failed'
  · cases failed.symm.trans read

theorem decode_bad_iff :
    decode ds = .error (.badDigit b i) ↔ ds.length % 2 = 0 ∧ IsFirstBad ds b i := by
  refine ⟨fun failed => ?_, fun both => decode_isReader.bad ds b i both.1 both.2⟩
  rcases decode_cases ds with ⟨-, failed'⟩ | ⟨b', i', even, first, failed'⟩ | ⟨cs, bs, -, -, read⟩
  · cases failed.symm.trans failed'
  · cases failed.symm.trans failed'
    exact ⟨even, first⟩
  · cases failed.symm.trans read

end Hex

end BeaconMesh
