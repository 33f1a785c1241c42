/-
# Wikidown.Proofs.JsonResults -- what is written reads back

A value that is written is well-formed and says what it is (`Value.spells_written`): every
character of a string is written so that it reads as itself, and the lines and indents
between members are white space.  A conversion is written as an object of its metadata and
its content (`conversionDatum`); since a text says one thing only, that is all that can be
read from it, and different conversions are written differently (`writeConversion_reads_back`).
-/
import Wikidown.Json.Value
import Wikidown.Proofs.JsonUnique

namespace Wikidown.Json

set_option autoImplicit false

/-! ## Strings -/

/-- The hexadecimal digits of a control. -/
theorem hexText_control {n : Nat} (small : n < 0x20) :
    HexText n ['0', '0', Nat.digitChar (n / 16), Nat.digitChar (n % 16)] := by
  have table : ∀ d < 16, (Nat.digitChar d, d) ∈ Markup.digits := by decide
  have zero := table 0 (by decide)
  have text := hexText_of_digits 0 0 (n / 16) (n % 16)
    ⟨zero, zero, table (n / 16) (by omega), table (n % 16) (by omega)⟩ (by omega)
  have value : ((0 * 16 + 0) * 16 + n / 16) * 16 + n % 16 = n := by omega
  rwa [value] at text

/-- A character is written for itself or as one of its escapes. -/
theorem charText_writtenChar (c : Char) : CharText c (writtenChar c) := by
  unfold writtenChar
  split
  all_goals try exact .short (by decide)
  next quote slash _ _ _ _ _ =>
    by_cases control : c.toNat < 0x20
    · rw [if_pos control]
      exact .unit (hexText_control control)
    · rw [if_neg control]
      exact .raw ⟨quote, slash, Nat.not_lt.1 control⟩

theorem charsText_flatMap (s : Text) : CharsText s (s.flatMap writtenChar) := by
  induction s with
  | nil => exact .nil
  | cons c s ih => exact .cons (charText_writtenChar c) ih

/-- A string is written as itself. -/
theorem stringText_writtenString (s : Text) : StringText s (writtenString s) :=
  ⟨s.flatMap writtenChar, charsText_flatMap s, rfl⟩

/-! ## Numbers -/

theorem splitMinus_digits {ds : Text} (digits : Digits ds) : splitMinus ds = (false, ds) := by
  obtain ⟨ne, all⟩ := digits
  cases ds with
  | nil => exact absurd rfl ne
  | cons d ds =>
      have noMinus : d ≠ '-' := fun eq => by
        have digit := all d List.mem_cons_self
        subst eq
        cases digit
      simp [splitMinus, noMinus]

theorem scaled_zero (n : Nat) : scaled n 0 = n := by
  show (((n : Int) * (1 : Int) : Int) : Rat) = n
  rw [Int.mul_one, Rat.intCast_natCast]

/-- A natural number in its decimal digits is a number of its value. -/
theorem spells_natural (n : Nat) :
    Spells StringText (.number n) (Nat.toDigits 10 n) := by
  have whole := wholeText_toDigits n
  have number : NumberText (Nat.toDigits 10 n) :=
    ⟨[], Nat.toDigits 10 n, [], [], .inl rfl, whole, .inl rfl, .inl rfl, by simp⟩
  have value : numberValue (Nat.toDigits 10 n) = n := by
    have none : ∀ c, ([] : Text).head? = some c → c.isDigit = false := by simp
    have split : splitDigits (Nat.toDigits 10 n) = (Nat.toDigits 10 n, []) := by
      simpa using splitDigits_append whole.1.2 none
    simp [numberValue, splitMinus_digits whole.1, split, digitsValue_toDigits, scaled_zero]
  exact value ▸ .number number

/-! ## Values -/

theorem gap_newLine (depth : Nat) : Gap (newLine depth) := by
  intro c mem
  rcases List.mem_cons.1 mem with rfl | mem
  · rfl
  · obtain rfl := List.eq_of_mem_replicate mem
    rfl

/-- The members behind the first stand between lines of white space. -/
theorem separated_membersWritten (depth : Nat) (m : Text × Value) (ms : List (Text × Value)) :
    Separated ((m :: ms).map (memberWritten depth))
      (newLine (depth + 1) ++ memberWritten depth m ++ membersWritten depth ms ++ newLine depth) := by
  induction ms generalizing m with
  | nil =>
      rw [membersWritten, List.append_nil]
      exact .one (gap_newLine _) (gap_newLine _)
  | cons m' ms ih =>
      have more := Separated.more (t := memberWritten depth m) (gap_newLine (depth + 1)) gap_nil
        (ih m')
      simpa [membersWritten] using more

/-- A record is well-formed if the values of its members are. -/
theorem spells_record {depth : Nat} {ms : List (Text × Value)} {meaning : Value → Datum Text}
    (each : ∀ m ∈ ms, Spells StringText (meaning m.2) (m.2.written (depth + 1))) :
    Spells StringText (.record (ms.map fun m => (m.1, meaning m.2)))
      ((Value.record ms).written depth) := by
  let entry (m : Text × Value) : Entry Text :=
    ⟨m.1, writtenString m.1, [], [' '], meaning m.2, m.2.written (depth + 1)⟩
  have texts : (ms.map entry).map Entry.text = ms.map (memberWritten depth) := by
    rw [List.map_map]
    refine List.map_congr_left fun m _ => ?_
    obtain ⟨name, value⟩ := m
    simp [entry, Entry.text, memberText, memberWritten]
  have enclosed : Enclosed '{' '}' (ms.map (memberWritten depth))
      ((Value.record ms).written depth) := by
    cases ms with
    | nil => exact .empty gap_nil
    | cons m ms => exact .filled (separated_membersWritten depth m ms)
  rw [← texts] at enclosed
  have members : (ms.map entry).map (fun e => (e.key, e.value))
      = ms.map fun m => (m.1, meaning m.2) := List.map_map
  rw [← members]
  refine .record (ms.map entry) ?_ ?_ ?_ enclosed
  · exact List.forall_mem_map.2 fun m _ => stringText_writtenString m.1
  · exact List.forall_mem_map.2 fun m _ => ⟨gap_nil, by simp [entry, Gap, isGap]⟩
  · exact List.forall_mem_map.2 each

mutual

/-- What a value says. -/
def Value.datum : Value → Datum Text
  | .natural n => .number n
  | .string t => .string t
  | .record ms => .record (membersDatum ms)

/-- What a member says. -/
def memberDatum : Text × Value → Text × Datum Text
  | (name, value) => (name, value.datum)

/-- What members say. -/
def membersDatum : List (Text × Value) → List (Text × Datum Text)
  | [] => []
  | m :: ms => memberDatum m :: membersDatum ms

end

theorem membersDatum_eq (ms : List (Text × Value)) :
    membersDatum ms = ms.map fun m => (m.1, m.2.datum) := by
  induction ms with
  | nil => rfl
  | cons m ms ih => rw [membersDatum, memberDatum, ih, List.map_cons]

/-- What holds of numbers and strings, and of a record if it holds of its members' values. -/
theorem Value.induction {P : Value → Prop} (natural : ∀ n, P (.natural n))
    (string : ∀ t, P (.string t)) (record : ∀ ms, (∀ m ∈ ms, P m.2) → P (.record ms)) :
    ∀ v, P v
  | .natural n => natural n
  | .string t => string t
  | .record ms => record ms fun m _ => Value.induction natural string record m.2
termination_by v => sizeOf v
decreasing_by
  have member := List.sizeOf_lt_of_mem ‹_›
  obtain ⟨name, value⟩ := m
  simp only [Prod.mk.sizeOf_spec, Value.record.sizeOf_spec] at member ⊢
  omega

/-- A value that is written is well-formed and says what it is. -/
theorem Value.spells_written (v : Value) (depth : Nat) :
    Spells StringText v.datum (v.written depth) := by
  induction v using Value.induction generalizing depth with
  | natural n =>
      rw [Value.datum, Value.written]
      exact spells_natural n
  | string t =>
      rw [Value.datum, Value.written]
      exact .string (stringText_writtenString t)
  | record ms ih =>
      rw [Value.datum, membersDatum_eq]
      exact spells_record fun m mem => ih m mem (depth + 1)

/-! ## Conversions -/

open Page (Metadata Conversion)

/-- A member with a string, if there is one. -/
def optionalDatum (name : Text) (value? : Option Text) : List (Text × Datum Text) :=
  match value? with
  | some value => [(name, .string value)]
  | none => []

/-- What is to be read from the metadata of a page. -/
def metadataDatum (m : Metadata) : Datum Text :=
  let page : List (Text × Datum Text) :=
    [("id", .string m.id), ("title", .string m.title), ("space_key", .string m.spaceKey),
      ("space_name", .string m.spaceName), ("version", .number m.version.toNat)]
  let address : List (Text × Datum Text) := [("web_url", .string m.webUrl)]
  .record (page ++ optionalDatum "last_updated" m.lastUpdated?
    ++ optionalDatum "updated_by" m.updatedBy? ++ address)

/-- What is to be read from a conversion. -/
def conversionDatum (c : Conversion) : Datum Text :=
  .record [("metadata", metadataDatum c.metadata), ("content", .string c.content)]

theorem membersDatum_append (ms ns : List (Text × Value)) :
    membersDatum (ms ++ ns) = membersDatum ms ++ membersDatum ns := by
  simp only [membersDatum_eq, List.map_append]

theorem membersDatum_optionalMember (name : Text) (value? : Option Text) :
    membersDatum (optionalMember name value?) = optionalDatum name value? := by
  cases value? <;> rfl

theorem datum_metadataValue (m : Metadata) : (metadataValue m).datum = metadataDatum m := by
  simp only [metadataValue, Value.datum, membersDatum_append, membersDatum_optionalMember]
  rfl

theorem datum_conversionValue (c : Conversion) : (conversionValue c).datum = conversionDatum c := by
  simp only [conversionValue, Value.datum, membersDatum, memberDatum, datum_metadataValue]
  rfl

/-- Metadata that read the same are the same: an absent member is told from a present one by
the keys of the record. -/
theorem metadataDatum_injective {m m' : Metadata} (same : metadataDatum m = metadataDatum m') :
    m = m' := by
  obtain ⟨id, title, spaceKey, spaceName, version, lastUpdated?, updatedBy?, webUrl⟩ := m
  obtain ⟨id', title', spaceKey', spaceName', version', lastUpdated?', updatedBy?', webUrl'⟩ := m'
  cases lastUpdated? <;> cases updatedBy? <;> cases lastUpdated?' <;> cases updatedBy?' <;>
    simp [metadataDatum, optionalDatum, UInt32.toNat_inj] at same
  all_goals simp [same]

theorem conversionDatum_injective : Function.Injective conversionDatum := by
  intro c c' same
  simp only [conversionDatum, Datum.record.injEq, List.cons.injEq, Prod.mk.injEq, true_and, and_true,
    Datum.string.injEq] at same
  obtain ⟨metadata, content⟩ := same
  cases c
  cases c'
  simp only [Conversion.mk.injEq]
  exact ⟨metadataDatum_injective metadata, content⟩

/-- A conversion is written as what it is. -/
theorem spells_writeConversion (c : Conversion) :
    Spells StringText (conversionDatum c) (writeConversion c) := by
  have spelled := (conversionValue c).spells_written 0
  rwa [datum_conversionValue] at spelled

theorem jsonText_writeConversion (c : Conversion) :
    JsonText (conversionDatum c) (writeConversion c) :=
  ⟨[], writeConversion c, [], gap_nil, spells_writeConversion c, gap_nil, by simp⟩

/-- A written conversion is well-formed, and what is read from it is the conversion's metadata
and content and nothing else; so it is written like no other conversion. -/
theorem writeConversion_reads_back :
    (∀ c, WellFormed (writeConversion c)) ∧
      (∀ c d, JsonText d (writeConversion c) ↔ d = conversionDatum c) ∧
      Function.Injective writeConversion := by
  refine ⟨fun c => .of_spells (spells_writeConversion c),
    fun c d => ⟨fun read => read.unique (jsonText_writeConversion c),
      fun eq => eq ▸ jsonText_writeConversion c⟩, fun c c' same => ?_⟩
  have read := jsonText_writeConversion c'
  rw [← same] at read
  exact conversionDatum_injective ((jsonText_writeConversion c).unique read)

end Wikidown.Json
