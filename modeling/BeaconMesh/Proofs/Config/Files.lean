import BeaconMesh.Config.File
import BeaconMesh.Proofs.Json.Printing
import Mathlib.Data.List.Nodup

/-!
# Configuration files, written and loaded

`Holds c F members` describes the members of a file by hand: the fields of `c` under the keys `F`,
in any order and among members with unknown keys. `files_round_trip` says that a text of such an
object, however it is laid out, gives `c.on F`, and that what `save` writes is loaded again, or
refused for the rule that it breaks.
-/

namespace BeaconMesh

open Json (Value)

namespace Config

/-- The key of the one field that has several texts. -/
def gatewayKey : String := "preferred_gateway"

/-- A value that holds the field of `c` under a key: the one that is saved, or for an address any
text of it. -/
def Writes (c : Config) (key : String) (v : Value) : Prop :=
  (keys.zip c.fieldValues).lookup key = some v ∨
    key = gatewayKey ∧
      ∃ a text, c.preferredGateway = some a ∧ Addr.parse text = .ok a ∧ v = .text text

/-- The members of an object that holds the fields of `c` under the keys `F`, each once, and
unknown members. -/
def Holds (c : Config) (F : List String) (members : List (String × Value)) : Prop :=
  F.Nodup ∧ ∃ (values : String → Value) (unknown : List (String × Value)),
    (∀ key ∈ F, c.Writes key (values key)) ∧ (∀ m ∈ unknown, m.1 ∉ keys) ∧
      members.Perm (F.map (fun key => (key, values key)) ++ unknown)

/-- The fields of `c` under the keys `F`, and the defaults of the others. -/
def on (c : Config) (F : List String) : Config :=
  let default : Config := {}
  { interval := if "originator_interval_ms" ∈ F then c.interval else default.interval
    jitter := if "jitter_ms" ∈ F then c.jitter else default.jitter
    ttl := if "initial_ttl" ∈ F then c.ttl else default.ttl
    timeout := if "purge_timeout_ms" ∈ F then c.timeout else default.timeout
    sweepInterval := if "sweep_interval_ms" ∈ F then c.sweepInterval else default.sweepInterval
    hopPenalty := if "hop_penalty" ∈ F then c.hopPenalty else default.hopPenalty
    maxQuality := if "tq_max" ∈ F then c.maxQuality else default.maxQuality
    minEchoes := if "local_send_minimum" ∈ F then c.minEchoes else default.minEchoes
    minReceived := if "local_recv_minimum" ∈ F then c.minReceived else default.minReceived
    twoWayLimit := if "bidirectional_limit" ∈ F then c.twoWayLimit else default.twoWayLimit
    hostAge := if "announce_age_ms" ∈ F then c.hostAge else default.hostAge
    gatewayClass := if "gateway_class" ∈ F then c.gatewayClass else default.gatewayClass
    routingClass := if "routing_class" ∈ F then c.routingClass else default.routingClass
    preferredGateway := if "preferred_gateway" ∈ F then c.preferredGateway else default.preferredGateway
    maxPacketSize := if "max_packet_size" ∈ F then c.maxPacketSize else default.maxPacketSize
    seed := if "rng_seed" ∈ F then c.seed else default.seed }

theorem on_keys (c : Config) : c.on keys = c := rfl

/-! ### Members -/

theorem soleMember?_of_perm {F : List String} {values : String → Value}
    {unknown members : List (String × Value)} {key : String} (nodup : F.Nodup) (known : key ∈ keys)
    (others : ∀ m ∈ unknown, m.1 ∉ keys)
    (perm : members.Perm (F.map (fun key => (key, values key)) ++ unknown)) :
    Json.soleMember? (members.map fun m => (some m.1, m.2)) key =
      some (if key ∈ F then some (values key) else none) := by
  have none : unknown.filter (fun m => m.1 = key) = [] := by
    refine List.filter_eq_nil_iff.mpr fun m mem => ?_
    simpa using fun eq : m.1 = key => others m mem (eq ▸ known)
  have held : (F.map (fun key => (key, values key))).filter (fun m => m.1 = key) =
      if key ∈ F then [(key, values key)] else [] := by
    rw [List.filter_map]
    show (F.filter fun k => k = key).map _ = _
    rw [List.filter_eq, nodup.count]
    split <;> rfl
  have sole := perm.filter (fun m => m.1 = key)
  rw [List.filter_append, none, List.append_nil, held] at sole
  have filter : (members.map fun m => (some m.1, m.2)).filter (fun m => m.1 = some key) =
      (members.filter fun m => m.1 = key).map fun m => (some m.1, m.2) := by
    rw [List.filter_map]
    simp [Function.comp_def]
  rw [Json.soleMember?, filter]
  split at sole
  · next mem => rw [List.perm_singleton.mp sole, if_pos mem]; rfl
  · next notMem => rw [List.perm_nil.mp sole, if_neg notMem]; rfl

theorem recordFields?_of_holds {c : Config} {F : List String} {members : List (String × Value)}
    (holds : c.Holds F members) :
    ∃ values : String → Value, (∀ key ∈ F, c.Writes key (values key)) ∧
      Json.recordFields? keys (.record members) =
        some (keys.map fun key => if key ∈ F then some (values key) else none) := by
  obtain ⟨nodup, values, unknown, written, others, perm⟩ := holds
  refine ⟨values, written, ?_⟩
  have texts : ¬ (members.map fun m => (some m.1, m.2)).any fun m => m.1 = none := by simp
  rw [Value.record, Json.recordFields?, if_neg texts]
  have each : ∀ ks ⊆ keys, ks.mapM (Json.soleMember? (members.map fun m => (some m.1, m.2))) =
      some (ks.map fun key => if key ∈ F then some (values key) else none) := by
    intro ks known
    induction ks with
    | nil => rfl
    | cons key rest ih =>
      obtain ⟨first, tail⟩ := List.cons_subset.mp known
      simp [soleMember?_of_perm nodup first others perm, ih tail]
  exact each keys (List.Subset.refl _)

/-! ### Fields -/

theorem uint8?_nat (n : UInt8) : Json.uint8? (.nat n.toNat) = some n := by
  simp [Json.uint8?, Json.natBelow?, Value.nat, Value.nat?, n.toNat_lt]

theorem uint32?_nat (n : UInt32) : Json.uint32? (.nat n.toNat) = some n := by
  simp [Json.uint32?, Json.natBelow?, Value.nat, Value.nat?, n.toNat_lt]

theorem uint64?_nat (n : UInt64) : Json.uint64? (.nat n.toNat) = some n := by
  simp [Json.uint64?, Json.natBelow?, Value.nat, Value.nat?, n.toNat_lt]

theorem seed?_ofOption (seed : Option UInt64) :
    Json.nullable Json.uint64? (.ofOption (fun s => .nat s.toNat) seed) = some seed := by
  cases seed with
  | none => rfl
  | some s =>
    show (Json.uint64? (.nat s.toNat)).map some = some (some s)
    rw [uint64?_nat, Option.map_some]

theorem Writes.read_gateway {c : Config} {v : Value} (written : c.Writes gatewayKey v) :
    Json.nullable Json.addr? v = some c.preferredGateway := by
  have text : ∀ a s, Addr.parse s = .ok a →
      Json.nullable Json.addr? (.text s) = some (some a) := by
    intro a s parsed
    show ((Addr.parse s).toOption).map some = _
    rw [parsed]
    rfl
  obtain same | ⟨-, a, s, gateway, parsed, rfl⟩ := written
  · obtain rfl : Value.ofOption (fun a => .text a.text) c.preferredGateway = v :=
      Option.some.inj same
    cases c.preferredGateway with
    | none => rfl
    | some a => exact text a a.text a.parse_text
  · rw [gateway, text a s parsed]

theorem fieldOr_of_writes {α : Type} {c : Config} {F : List String} {values : String → Value}
    (written : ∀ key ∈ F, c.Writes key (values key)) {key : String} {read : Value → Option α}
    {x : α} (reads : ∀ v, c.Writes key v → read v = some x) (default : α) :
    Json.fieldOr default read (if key ∈ F then some (values key) else none) =
      some (if key ∈ F then x else default) := by
  split
  · next mem => exact reads _ (written key mem)
  · rfl

/-- Apart from addresses, a field is held by the value that is saved. -/
theorem fieldOr_saved {α : Type} {c : Config} {F : List String} {values : String → Value}
    (written : ∀ key ∈ F, c.Writes key (values key)) (key : String) {read : Value → Option α}
    {x : α} {v : Value} (saved : (keys.zip c.fieldValues).lookup key = some v)
    (other : key ≠ gatewayKey) (reads : read v = some x) (default : α) :
    Json.fieldOr default read (if key ∈ F then some (values key) else none) =
      some (if key ∈ F then x else default) := by
  refine fieldOr_of_writes written (fun w holds => ?_) default
  obtain same | ⟨gateway, -⟩ := holds
  · rwa [Option.some.inj (same.symm.trans saved)]
  · exact absurd gateway other

theorem ofFields?_of_writes {c : Config} {F : List String} {values : String → Value}
    (written : ∀ key ∈ F, c.Writes key (values key)) :
    ofFields? {} (keys.map fun key => if key ∈ F then some (values key) else none) =
      some (c.on F) := by
  have gateway : Json.fieldOr none (Json.nullable Json.addr?)
      (if "preferred_gateway" ∈ F then some (values "preferred_gateway") else none) =
        some (if "preferred_gateway" ∈ F then c.preferredGateway else none) :=
    fieldOr_of_writes written (fun _ => Writes.read_gateway) none
  simp only [keys, List.map_cons, List.map_nil, ofFields?, Option.bind_eq_bind,
    fieldOr_saved written "originator_interval_ms" rfl (by decide) (uint64?_nat c.interval),
    fieldOr_saved written "jitter_ms" rfl (by decide) (uint64?_nat c.jitter),
    fieldOr_saved written "initial_ttl" rfl (by decide) (uint8?_nat c.ttl),
    fieldOr_saved written "purge_timeout_ms" rfl (by decide) (uint64?_nat c.timeout),
    fieldOr_saved written "sweep_interval_ms" rfl (by decide) (uint64?_nat c.sweepInterval),
    fieldOr_saved written "hop_penalty" rfl (by decide) (uint8?_nat c.hopPenalty),
    fieldOr_saved written "tq_max" rfl (by decide) (uint8?_nat c.maxQuality),
    fieldOr_saved written "local_send_minimum" rfl (by decide) (uint32?_nat c.minEchoes),
    fieldOr_saved written "local_recv_minimum" rfl (by decide) (uint32?_nat c.minReceived),
    fieldOr_saved written "bidirectional_limit" rfl (by decide) (uint8?_nat c.twoWayLimit),
    fieldOr_saved written "announce_age_ms" rfl (by decide) (uint64?_nat c.hostAge),
    fieldOr_saved written "gateway_class" rfl (by decide) (uint8?_nat c.gatewayClass),
    fieldOr_saved written "routing_class" rfl (by decide) (uint8?_nat c.routingClass),
    fieldOr_saved written "max_packet_size" rfl (by decide) (uint64?_nat c.maxPacketSize),
    fieldOr_saved written "rng_seed" rfl (by decide) (seed?_ofOption c.seed),
    gateway,
    Option.bind_some]
  rfl

theorem ofJson?_of_holds {c : Config} {F : List String} {members : List (String × Value)}
    (holds : c.Holds F members) : ofJson? {} (.record members) = some (c.on F) := by
  obtain ⟨values, written, fields⟩ := recordFields?_of_holds holds
  rw [ofJson?, fields]
  exact ofFields?_of_writes written

/-! ### Saving and loading -/

theorem printable_toJson (c : Config) : c.toJson.Printable := by
  have fields : ∀ v ∈ c.fieldValues, v.Printable := by
    have gateway := Json.printable_ofOption (fun a : Addr => Json.printable_text a.text)
    have seed := Json.printable_ofOption (fun s : UInt64 => Json.printable_nat s.toNat)
    simp [fieldValues, Json.printable_nat, gateway, seed]
  exact Json.printable_record fun m mem => fields m.2 (List.of_mem_zip mem).2

theorem holds_toJson (c : Config) : c.Holds keys (keys.zip c.fieldValues) := by
  refine ⟨by decide, fun key => ((keys.zip c.fieldValues).lookup key).getD .null, [], ?_, by simp,
    .refl _⟩
  intro key mem
  have known : ((keys.zip c.fieldValues).lookup key).isSome := by
    have names : (keys.zip c.fieldValues).map Prod.fst = keys := List.map_fst_zip (Nat.le_refl _)
    rw [← names] at mem
    obtain ⟨m, found, rfl⟩ := List.mem_map.mp mem
    exact List.lookup_isSome_iff.mpr ⟨m, found, BEq.rfl⟩
  obtain ⟨v, saved⟩ := Option.isSome_iff_exists.mp known
  exact .inl (by simp only [saved, Option.getD_some])

theorem load_utf8 (text : String) : load (some text.toUTF8.data.toList) = parse text := by
  have utf8 : String.fromUTF8? ⟨text.toUTF8.data⟩ = some text := dif_pos text.isValidUTF8
  rw [load, Option.bind_some, Array.toArray_toList, utf8]

theorem parse_save (c : Config) : parse c.save = c.checked := by
  have reads : Json.parse? c.save = some c.toJson := Json.parse?_pretty c.printable_toJson
  have config : ofJson? {} c.toJson = some c :=
    (ofJson?_of_holds c.holds_toJson).trans (congrArg some c.on_keys)
  rw [parse, reads, Option.bind_some, config]

/-- Fields are read over the defaults, in any order and layout; so what is saved is loaded again, or
refused for the first rule that it breaks. -/
theorem files_round_trip (c : Config) :
    (∀ (F : List String) (members : List (String × Value)) (text : String), c.Holds F members →
      (Value.record members).IsText text →
        (Json.parse? text).bind (ofJson? {}) = some (c.on F)) ∧
    (c.problem? = none → load (some c.save.toUTF8.data.toList) = .ok c) ∧
    ∀ cause, c.problem? = some cause →
      load (some c.save.toUTF8.data.toList) = .error (.invalid cause) := by
  refine ⟨fun F members text holds isText => ?_, fun valid => ?_, fun cause broken => ?_⟩
  · rw [Json.parse?_of_isText isText, Option.bind_some, ofJson?_of_holds holds]
  · rw [load_utf8, parse_save, checked, valid]
  · rw [load_utf8, parse_save, checked, broken]

/-- A short file with the greatest seed, an unknown member, and an address written with capitals. -/
theorem files_round_trip_sample :
    let c : Config :=
      { seed := some 18446744073709551615
        preferredGateway := some ⟨2, 0xAA, 0xBB, 0xCC, 0xDD, 0xEE⟩ }
    let text := "\t\x7b\"x\": [null, -15e-1],\n\"rng_seed\":18446744073709551615 ," ++
      "\"preferred_gateway\" : \"02-AABB-CCDDEE\"\x7d\n"
    ∃ members, c.Holds ["preferred_gateway", "rng_seed"] members ∧
      (Value.record members).IsText text ∧ (Json.parse? text).bind (ofJson? {}) = some c ∧
      load (some c.save.toUTF8.data.toList) = .ok c := by
  intro c text
  let members : List (String × Value) :=
    [("x", .array [.null, .number (.real "-15e-1")]), ("rng_seed", .nat 18446744073709551615),
     ("preferred_gateway", .text "02-AABB-CCDDEE")]
  have holds : c.Holds ["preferred_gateway", "rng_seed"] members := by
    refine ⟨by decide, fun key => if key = "rng_seed" then .nat 18446744073709551615
      else .text "02-AABB-CCDDEE", [("x", .array [.null, .number (.real "-15e-1")])], ?_, by decide,
      List.reverse_perm [_, _, _]⟩
    simp only [List.forall_mem_cons]
    exact ⟨.inr ⟨rfl, _, _, rfl, by rfl, rfl⟩, .inl rfl, by simp⟩
  have isText : (Value.record members).IsText text := by
    have sign {t : Json.Token} {s : Char} (blanks : List Char) (blank : Json.Blanks blanks)
        (symbol : t.symbol? = some s) : t.Spaced (blanks ++ [s]) :=
      Json.Token.Spelling.after (.symbol symbol) blank
    have quoted (blanks : List Char) (s : String) (blank : Json.Blanks blanks) :
        Json.Token.Spaced (.string (some s)) (blanks ++ (Json.quote (some s)).toList) :=
      (Json.spelling_quote s).after blank
    have real : Json.Number.Spelling (.real "-15e-1") ['-', '1', '5', 'e', '-', '1'] :=
      .real true 15 (.inl rfl)
        (.inr ⟨'e', ['-'], ['1'], .inl rfl, .inr (.inr rfl), ⟨by simp, by simp⟩, rfl⟩) (by simp)
    have row : Json.Row Json.Token.Spaced (Value.record members).tokens _ :=
      .cons (sign ['\t'] (by decide) rfl) <| .cons (quoted [] "x" (by decide)) <|
      .cons (sign [] (by decide) rfl) <| .cons (sign [' '] (by decide) rfl) <|
      .cons Json.Token.Spelling.null.spaced <| .cons (sign [] (by decide) rfl) <|
      .cons ((Json.Token.Spelling.number real).after (by decide : Json.Blanks [' '])) <|
      .cons (sign [] (by decide) rfl) <| .cons (sign [] (by decide) rfl) <|
      .cons (quoted ['\n'] "rng_seed" (by decide)) <| .cons (sign [] (by decide) rfl) <|
      .cons (Json.Token.Spelling.number (.integer false 18446744073709551615)).spaced <|
      .cons (sign [' '] (by decide) rfl) <| .cons (quoted [] "preferred_gateway" (by decide)) <|
      .cons (sign [' '] (by decide) rfl) <| .cons (quoted [' '] "02-AABB-CCDDEE" (by decide)) <|
      .cons (sign [] (by decide) rfl) .nil
    exact ⟨_, ['\n'], row, by decide, by decide +kernel⟩
  obtain ⟨reads, loads, -⟩ := files_round_trip c
  exact ⟨members, holds, isText, reads _ members text holds isText, loads (by decide)⟩

end Config

end BeaconMesh
