import BeaconMesh.Fault
import BeaconMesh.Wire.Codec

/-!
# Each packet has one form

A packet is read from the bytes that it is written as, and from no others. Each kind has its own
layout, so each has its own equivalence; `wire_format_canonical` puts them together.
-/

namespace BeaconMesh.Wire

/-! ### The header that all kinds share -/

theorem Kind.ofCode_eq_ok {code : UInt8} {kind : Kind} :
    Kind.ofCode code = .ok kind ↔ code = kind.code := by
  constructor
  · intro h
    unfold Kind.ofCode at h
    split at h
    · cases h
      assumption
    · split at h
      · cases h
        assumption
      · split at h
        · cases h
          assumption
        · cases h
  · rintro rfl
    cases kind <;> rfl

theorem checkHeader_eq_ok {kind : Kind} {least : Nat} {bytes rest : Bytes} :
    checkHeader kind least bytes = .ok rest ↔
      bytes = kind.code :: version :: rest ∧ least ≤ bytes.length := by
  constructor
  · intro h
    unfold checkHeader at h
    split at h
    · cases h
    · rename_i long
      split at h
      · rename_i code v tail
        obtain ⟨other, found, h⟩ := Fault.bind_ok h
        split at h
        · cases h
        · rename_i same
          split at h
          · cases h
          · rename_i current
            cases h
            refine ⟨?_, by omega⟩
            rw [Kind.ofCode_eq_ok.mp found, Decidable.not_not.mp same, Decidable.not_not.mp current]
      · cases h
  · rintro ⟨rfl, long⟩
    have found : Kind.ofCode kind.code = .ok kind := Kind.ofCode_eq_ok.mpr rfl
    unfold checkHeader
    rw [if_neg (by omega)]
    simp [found, bind, Except.bind]

/-! ### Fields -/

theorem seqnoBytes_seqnoOf (hi lo : UInt8) : seqnoBytes (seqnoOf hi lo) = [hi, lo] := by
  have := hi.toNat_lt
  have := lo.toNat_lt
  have number : (seqnoOf hi lo).toNat = hi.toNat * 256 + lo.toNat := by
    simp only [seqnoOf, UInt16.toNat_ofNat']
    omega
  have first : UInt8.ofNat ((seqnoOf hi lo).toNat / 256) = hi := by
    apply UInt8.toNat_inj.mp
    simp only [number, UInt8.toNat_ofNat']
    omega
  have second : UInt8.ofNat ((seqnoOf hi lo).toNat % 256) = lo := by
    apply UInt8.toNat_inj.mp
    simp only [number, UInt8.toNat_ofNat']
    omega
  simp only [seqnoBytes, first, second]

theorem hostBytes_hostsOf {n : Nat} {bytes : Bytes} (whole : bytes.length = n * Addr.length) :
    (hostsOf bytes).length = n ∧ hostBytes (hostsOf bytes) = bytes := by
  induction n generalizing bytes with
  | zero =>
    have none : bytes = [] := List.length_eq_zero_iff.mp (by omega)
    subst none
    exact ⟨rfl, rfl⟩
  | succ n ih =>
    match bytes with
    | b₀ :: b₁ :: b₂ :: b₃ :: b₄ :: b₅ :: rest =>
      have fewer : rest.length = n * Addr.length := by
        simp only [List.length_cons, Addr.length] at whole ⊢
        omega
      obtain ⟨count, same⟩ := ih fewer
      constructor
      · simp only [hostsOf, List.length_cons, count]
      · show b₀ :: b₁ :: b₂ :: b₃ :: b₄ :: b₅ :: hostBytes (hostsOf rest) = _
        rw [same]
    | [] | [_] | [_, _] | [_, _, _] | [_, _, _, _] | [_, _, _, _, _] =>
      simp only [List.length_cons, List.length_nil, Addr.length] at whole
      omega

/-! ### Data -/

theorem decodeUnicast_eq_ok {bytes : Bytes} {u : Unicast} :
    decodeUnicast bytes = .ok u ↔ bytes = unicastBytes u := by
  constructor
  · intro h
    obtain ⟨body, header, h⟩ := Fault.bind_ok h
    obtain ⟨start, -⟩ := checkHeader_eq_ok.mp header
    split at h
    · rename_i ttl rest
      split at h
      · rename_i dest frame read
        cases h
        rw [start, Addr.eq_of_read? read]
        rfl
      · cases h
    · cases h
  · rintro rfl
    have header : checkHeader .unicast unicastHeader (unicastBytes u) =
        .ok (u.ttl :: (u.dest.toBytes ++ u.frame)) := by
      refine checkHeader_eq_ok.mpr ⟨rfl, ?_⟩
      simp [unicastBytes, unicastHeader, Addr.length]
    unfold decodeUnicast
    rw [header]
    rfl

theorem decodeFlood_eq_ok {bytes : Bytes} {f : Flood} :
    decodeFlood bytes = .ok f ↔ bytes = floodBytes f := by
  constructor
  · intro h
    obtain ⟨body, header, h⟩ := Fault.bind_ok h
    obtain ⟨start, -⟩ := checkHeader_eq_ok.mp header
    split at h
    · rename_i orig hi lo frame read
      cases h
      rw [start, Addr.eq_of_read? read]
      simp [floodBytes, seqnoBytes_seqnoOf]
    · cases h
  · rintro rfl
    have header : checkHeader .flood floodHeader (floodBytes f) =
        .ok (f.orig.toBytes ++ (seqnoBytes f.seqno ++ f.frame)) := by
      refine checkHeader_eq_ok.mpr ⟨?_, ?_⟩
      · simp [floodBytes]
      · simp [floodBytes, floodHeader, seqnoBytes, Addr.length]
        omega
    unfold decodeFlood
    rw [header]
    simp [bind, Except.bind, seqnoBytes]

/-! ### Beacons -/

theorem beaconBytes_eq (b : Beacon) :
    beaconBytes b = Kind.beacon.code :: version :: b.flags :: b.ttl :: b.gatewayClass ::
      b.quality :: UInt8.ofNat (b.seqno.toNat / 256) :: UInt8.ofNat (b.seqno.toNat % 256) ::
        (b.orig.toBytes ++ (b.prev.toBytes ++
          UInt8.ofNat b.hosts.length :: hostBytes b.hosts)) := by
  simp [beaconBytes, seqnoBytes]

theorem encodeBeacon_eq_ok {b : Beacon} {bytes : Bytes} :
    encodeBeacon b = .ok bytes ↔ b.hosts.length ≤ maxHosts ∧ bytes = beaconBytes b := by
  unfold encodeBeacon
  split
  · rename_i many
    exact iff_of_false nofun fun few => Nat.not_le.mpr many few.1
  · rename_i few
    rw [Except.ok.injEq, and_iff_right (Nat.not_lt.mp few), eq_comm]

theorem decodeBeacon_eq_ok {bytes : Bytes} {b : Beacon} :
    decodeBeacon bytes = .ok b ↔ encodeBeacon b = .ok bytes := by
  rw [encodeBeacon_eq_ok]
  constructor
  · intro h
    obtain ⟨body, header, h⟩ := Fault.bind_ok h
    obtain ⟨start, -⟩ := checkHeader_eq_ok.mp header
    split at h
    · rename_i flags ttl gatewayClass quality hi lo rest
      split at h
      · rename_i orig rest read
        split at h
        · rename_i prev count rest read'
          dsimp only at h
          split at h
          · cases h
          · rename_i whole
            cases h
            have fields := Addr.eq_of_read? read
            rw [Addr.eq_of_read? read'] at fields
            have room : rest.length = count.toNat * Addr.length := by
              have total := congrArg List.length start
              rw [fields, Decidable.not_not.mp whole] at total
              simp [beaconHeader, Addr.length] at total ⊢
              omega
            obtain ⟨hosts, same⟩ := hostBytes_hostsOf room
            have few := count.toNat_lt
            constructor
            · rw [hosts, maxHosts]
              omega
            · rw [start, fields, beaconBytes]
              simp [seqnoBytes_seqnoOf, hosts, same]
        · cases h
      · cases h
    · cases h
  · rintro ⟨few, rfl⟩
    have long := length_beaconBytes b
    have header : checkHeader .beacon beaconHeader (beaconBytes b) =
        .ok ((beaconBytes b).drop 2) := by
      refine checkHeader_eq_ok.mpr ⟨rfl, ?_⟩
      rw [long, beaconLength]
      omega
    have count : (UInt8.ofNat b.hosts.length).toNat = b.hosts.length := by
      rw [UInt8.toNat_ofNat', Nat.mod_eq_of_lt]
      unfold maxHosts at few
      omega
    unfold decodeBeacon
    rw [header, long, beaconBytes_eq]
    simp [bind, Except.bind, beaconLength, count]

/-! ### Packets -/

/-- Whether a packet can be written: the hosts of a beacon are counted in a byte. -/
def Fits : Packet → Prop
  | .beacon b => b.hosts.length ≤ maxHosts
  | .unicast _ => True
  | .flood _ => True

theorem encode_isOk_iff {p : Packet} : (∃ bytes, encode p = .ok bytes) ↔ Fits p := by
  cases p with
  | beacon b =>
    constructor
    · rintro ⟨bytes, written⟩
      exact (encodeBeacon_eq_ok.mp written).1
    · intro few
      exact ⟨beaconBytes b, encodeBeacon_eq_ok.mpr ⟨few, rfl⟩⟩
  | unicast u => exact iff_of_true ⟨_, rfl⟩ trivial
  | flood f => exact iff_of_true ⟨_, rfl⟩ trivial

theorem decode_of_encode {p : Packet} {bytes : Bytes} (written : encode p = .ok bytes) :
    decode bytes = .ok p := by
  cases p with
  | beacon b =>
    have read := decodeBeacon_eq_ok.mpr written
    obtain ⟨-, rfl⟩ := encodeBeacon_eq_ok.mp written
    show (decodeBeacon (beaconBytes b) >>= fun b => pure (Packet.beacon b)) = _
    rw [read]
    rfl
  | unicast u =>
    cases written
    show (decodeUnicast (unicastBytes u) >>= fun u => pure (Packet.unicast u)) = _
    rw [decodeUnicast_eq_ok.mpr rfl]
    rfl
  | flood f =>
    cases written
    show (decodeFlood (floodBytes f) >>= fun f => pure (Packet.flood f)) = _
    rw [decodeFlood_eq_ok.mpr rfl]
    rfl

theorem encode_of_decode {p : Packet} {bytes : Bytes} (read : decode bytes = .ok p) :
    encode p = .ok bytes := by
  unfold decode at read
  split at read
  · cases read
  · obtain ⟨kind, -, read⟩ := Fault.bind_ok read
    split at read
    · obtain ⟨b, parsed, packed⟩ := Fault.bind_ok read
      cases packed
      exact decodeBeacon_eq_ok.mp parsed
    · obtain ⟨u, parsed, packed⟩ := Fault.bind_ok read
      cases packed
      rw [decodeUnicast_eq_ok.mp parsed]
      rfl
    · obtain ⟨f, parsed, packed⟩ := Fault.bind_ok read
      cases packed
      rw [decodeFlood_eq_ok.mp parsed]
      rfl

/-- Bytes are read as a packet if and only if the packet is written as these bytes. -/
theorem wire_format_canonical :
    (∀ bytes p, decode bytes = .ok p ↔ encode p = .ok bytes) ∧
      (∀ p, (∃ bytes, encode p = .ok bytes ∧ decode bytes = .ok p) ↔ Fits p) ∧
      (∀ bytes p, decode bytes = .ok p → Fits p) ∧
      (∀ bytes bytes' p, decode bytes = .ok p → decode bytes' = .ok p → bytes = bytes') ∧
      ∀ bytes, (∃ cause, decode bytes = .error cause) ↔ ∀ p, encode p ≠ .ok bytes := by
  refine ⟨fun bytes p => ⟨encode_of_decode, decode_of_encode⟩, ?_, ?_, ?_, ?_⟩
  · intro p
    rw [← encode_isOk_iff]
    exact exists_congr fun bytes => and_iff_left_of_imp decode_of_encode
  · intro bytes p read
    exact encode_isOk_iff.mp ⟨bytes, encode_of_decode read⟩
  · intro bytes bytes' p read read'
    exact Except.ok.inj ((encode_of_decode read).symm.trans (encode_of_decode read'))
  · intro bytes
    constructor
    · rintro ⟨cause, refused⟩ p written
      rw [decode_of_encode written] at refused
      cases refused
    · intro unwritten
      cases read : decode bytes with
      | error cause => exact ⟨cause, rfl⟩
      | ok p => exact absurd (encode_of_decode read) (unwritten p)

/-- A beacon that announces one host. -/
def sampleBeacon : Beacon :=
  { flags := Beacon.directFlag, ttl := 49, quality := 200, seqno := 0xbeef,
    orig := ⟨2, 0, 0, 0, 0, 1⟩, prev := ⟨2, 0, 0, 0, 0, 2⟩, hosts := [⟨4, 0, 0, 0, 0, 7⟩] }

theorem wire_format_canonical_beacon :
    sampleBeacon.hosts.length = 1 ∧ (beaconBytes sampleBeacon).length = 27 ∧
      decode (beaconBytes sampleBeacon) = .ok (.beacon sampleBeacon) ∧
      encode (.beacon sampleBeacon) = .ok (beaconBytes sampleBeacon) ∧
      Fits (.beacon sampleBeacon) ∧
      (∀ bytes, decode bytes = .ok (.beacon sampleBeacon) → bytes = beaconBytes sampleBeacon) ∧
      ∀ p, encode p ≠ .ok (beaconBytes sampleBeacon ++ [0]) := by
  have read : decode (beaconBytes sampleBeacon) = .ok (.beacon sampleBeacon) := by rfl
  have overlong : decode (beaconBytes sampleBeacon ++ [0]) = .error (.hostsMismatch 1 27 28) := by
    rfl
  obtain ⟨both, -, fits, one, refused⟩ := wire_format_canonical
  refine ⟨rfl, rfl, read, (both _ _).mp read, fits _ _ read, ?_, ?_⟩
  · intro bytes again
    exact one _ _ _ again read
  · exact (refused _).mp ⟨_, overlong⟩

end BeaconMesh.Wire
