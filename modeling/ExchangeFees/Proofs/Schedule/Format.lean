import ExchangeFees.Proofs.Schedule.File
import ExchangeFees.Proofs.Schedule.Mapping

/-! The format of schedules in plain data. A value without records is read as a schedule exactly if
it is an object with amounts under names of the terms and, under the names of the sections, objects
of the same kind; every other value is a fault of configuration, but for the message of one that
names an integer too long to be written. What is read, written out again, is the standard schedule
with the values that were given in the places where they were given. -/
namespace ExchangeFees

namespace Json

/-- An integer in the range of an amount. -/
def IsAmount (j : Json) : Prop := ∃ n : U128, j = .int n.val

/-- Members with no names but those of a record's fields, and with a value as wanted under each of
these that is there. -/
structure Fill (kind : RecordKind) (wanted : String → Json → Prop)
    (members : List (String × Json)) : Prop where
  known : ∀ m ∈ members, m.1 ∈ kind.fieldNames
  values : ∀ name ∈ kind.fieldNames, ∀ j, members.lookup name = some j → wanted name j

/-- An object with amounts under names of a section's fields. -/
def IsSection (kind : RecordKind) (j : Json) : Prop :=
  ∃ members, j = .object members ∧ Fill kind (fun _ => IsAmount) members

/-- What a schedule wants under a name: a section under the two names of sections, and an amount
under any other. -/
def IsEntry (name : String) : Json → Prop :=
  if name = "referral_discount" then IsSection .referral
  else if name = "filler_reward_structure" then IsSection .filler
  else IsAmount

def IsSchedule (j : Json) : Prop := ∃ members, j = .object members ∧ Fill .schedule IsEntry members

end Json

mutual

/-- A value with what another gives in its place: name by name between mappings, and altogether
otherwise. -/
def Value.overlay : Value → Value → Value
  | .mapping base, .mapping given => .mapping (Value.overlayEntries base given)
  | _, x => x

def Value.overlayEntries : Entries → Entries → Entries
  | [], _ => []
  | (name, own) :: rest, given =>
    (name, (given.lookup name).elim own own.overlay) :: Value.overlayEntries rest given

end

section Amounts

variable {members : List (String × Json)} {name : String}

theorem Value.names_ofMembers (members : List (String × Json)) :
    (Value.ofMembers members).map (·.1) = members.map (·.1) := by
  induction members with
  | nil => rfl
  | cons m rest ih => exact congrArg (m.1 :: ·) ih

theorem Value.known_ofMembers {names : List String} :
    (∀ e ∈ Value.ofMembers members, e.1 ∈ names) ↔ ∀ m ∈ members, m.1 ∈ names := by
  rw [← List.forall_mem_map (P := (· ∈ names)), Value.names_ofMembers, List.forall_mem_map]

/-- Of plain data only amounts stand for terms. -/
theorem Json.isAmount_iff {j : Json} : (∃ t : Term, t.toValue = Value.ofJson j) ↔ j.IsAmount := by
  constructor
  · rintro ⟨t, same⟩
    cases t with
    | plain n =>
      refine ⟨n, ?_⟩
      cases j <;> simp_all [Term.toValue, Value.ofJson]
    | record r => exact absurd (same ▸ .record r) (Construction.not_unchecked_ofJson j)
    | type c => exact absurd (same ▸ .type c) (Construction.not_unchecked_ofJson j)
  · rintro ⟨n, rfl⟩
    exact ⟨.plain n, rfl⟩

theorem Json.exists_term_iff (standard : U128) :
    (∃ t : Term, t.toValue = ((Value.ofMembers members).lookup name).getD (.int standard.val)) ↔
      ∀ j, members.lookup name = some j → j.IsAmount := by
  rw [Value.lookup_ofMembers]
  cases members.lookup name with
  | none => simpa using ⟨Term.plain standard, rfl⟩
  | some j => simpa using Json.isAmount_iff

theorem Ratio.exists_under {record : RecordKind} {numerator denominator : String}
    {standard : Ratio U128} :
    (∃ q, under record numerator denominator standard (Value.ofMembers members) = .ok q) ↔
      (∀ j, members.lookup numerator = some j → j.IsAmount) ∧
        ∀ j, members.lookup denominator = some j → j.IsAmount := by
  rw [← Json.exists_term_iff standard.numerator, ← Json.exists_term_iff standard.denominator]
  simp only [under_eq_ok]
  constructor
  · rintro ⟨q, top, bottom⟩
    exact ⟨⟨_, top⟩, _, bottom⟩
  · rintro ⟨⟨n, top⟩, d, bottom⟩
    exact ⟨⟨n, d⟩, top, bottom⟩

end Amounts

section Accepted

variable {members : List (String × Json)} {j : Json}

theorem ReferralTerms.exists_ofEntries :
    (∃ t, ofEntries (Value.ofMembers members) = .ok t) ↔
      Json.Fill .referral (fun _ => Json.IsAmount) members := by
  simp only [ofEntries, bind_eq_ok, pure_eq_ok, checkNames_eq_ok, exists_const,
    Value.known_ofMembers]
  constructor
  · rintro ⟨t, known, referrer, reward, referee, discount, _⟩
    have reward := Ratio.exists_under.mp ⟨_, reward⟩
    have discount := Ratio.exists_under.mp ⟨_, discount⟩
    refine ⟨known, ?_⟩
    simp only [RecordKind.fieldNames, List.forall_mem_cons]
    exact ⟨reward.1, reward.2, discount.1, discount.2, List.forall_mem_nil _⟩
  · rintro ⟨known, values⟩
    simp only [RecordKind.fieldNames, List.forall_mem_cons] at values
    obtain ⟨top, bottom, top', bottom', _⟩ := values
    obtain ⟨referrer, reward⟩ := Ratio.exists_under.mpr ⟨top, bottom⟩
    obtain ⟨referee, discount⟩ := Ratio.exists_under.mpr ⟨top', bottom'⟩
    exact ⟨_, known, referrer, reward, referee, discount, rfl⟩

theorem FillerTerms.exists_ofEntries :
    (∃ t, ofEntries (Value.ofMembers members) = .ok t) ↔
      Json.Fill .filler (fun _ => Json.IsAmount) members := by
  simp only [ofEntries, bind_eq_ok, pure_eq_ok, checkNames_eq_ok, exists_const,
    Value.known_ofMembers]
  constructor
  · rintro ⟨t, known, ratio, reward, least, bound, _⟩
    have reward := Ratio.exists_under.mp ⟨_, reward⟩
    have bound := (Json.exists_term_iff _).mp ⟨_, Term.under_eq_ok.mp bound⟩
    refine ⟨known, ?_⟩
    simp only [RecordKind.fieldNames, List.forall_mem_cons]
    exact ⟨reward.1, reward.2, bound, List.forall_mem_nil _⟩
  · rintro ⟨known, values⟩
    simp only [RecordKind.fieldNames, List.forall_mem_cons] at values
    obtain ⟨top, bottom, least, _⟩ := values
    obtain ⟨ratio, reward⟩ := Ratio.exists_under.mpr ⟨top, bottom⟩
    obtain ⟨t, bound⟩ := (Json.exists_term_iff FillerTerms.standard.lowerBound).mpr least
    exact ⟨_, known, ratio, reward, t, Term.under_eq_ok.mpr bound, rfl⟩

theorem Value.ofJson_eq_mapping {entries : Entries} : Value.ofJson j = .mapping entries ↔
    ∃ members, j = .object members ∧ entries = Value.ofMembers members := by
  cases j <;> simp [Value.ofJson, eq_comm]

namespace Part

variable {part : Part}

theorem exists_ofEntries (flat : part ≠ .schedule) :
    (∃ r, Record.ofEntries (Value.ofMembers members) part.kind = .ok r) ↔
      Json.Fill part.kind (fun _ => Json.IsAmount) members := by
  cases part with
  | schedule => exact absurd rfl flat
  | referral =>
    simp only [kind, Record.ofEntries, bind_eq_ok, pure_eq_ok, ← ReferralTerms.exists_ofEntries]
    constructor
    · rintro ⟨_, t, built, _⟩
      exact ⟨t, built⟩
    · rintro ⟨t, built⟩
      exact ⟨_, t, built, rfl⟩
  | filler =>
    simp only [kind, Record.ofEntries, bind_eq_ok, pure_eq_ok, ← FillerTerms.exists_ofEntries]
    constructor
    · rintro ⟨_, t, built, _⟩
      exact ⟨t, built⟩
    · rintro ⟨t, built⟩
      exact ⟨_, t, built, rfl⟩

/-- A section is read from plain data exactly if they are in its format. -/
theorem exists_ofMapping (flat : part ≠ .schedule) :
    (∃ r, part.ofMapping (Value.ofJson j) = .ok r) ↔ j.IsSection part.kind := by
  simp only [ofMapping_section flat, Value.ofJson_eq_mapping]
  constructor
  · rintro ⟨r, _, ⟨members, rfl, rfl⟩, built⟩
    exact ⟨members, rfl, (exists_ofEntries flat).mp ⟨r, built⟩⟩
  · rintro ⟨members, rfl, fills⟩
    obtain ⟨r, built⟩ := (exists_ofEntries flat).mpr fills
    exact ⟨r, _, ⟨members, rfl, rfl⟩, built⟩

theorem exists_ofMapping_under (flat : part ≠ .schedule) {key : String} :
    (∃ r, part.ofMapping (((Value.ofMembers members).lookup key).getD (.mapping [])) = .ok r) ↔
      ∀ j, members.lookup key = some j → j.IsSection part.kind := by
  rw [Value.lookup_ofMembers]
  cases members.lookup key with
  | none => simpa using ⟨_, part.ofMapping_nil⟩
  | some j => simpa using exists_ofMapping flat

end Part

/-- A schedule is read from plain data exactly if they are in its format. -/
theorem FeeSchedule.exists_ofMapping :
    (∃ s, ofMapping (Value.ofJson j) = .ok s) ↔ j.IsSchedule := by
  simp only [ofMapping_eq_ok, Value.ofJson_eq_mapping]
  constructor
  · rintro ⟨s, _, ⟨members, rfl, rfl⟩, reads⟩
    have fee := Ratio.exists_under.mp ⟨_, reads.fee⟩
    have rebate := Ratio.exists_under.mp ⟨_, reads.makerRebate⟩
    have referral := (Part.exists_ofMapping_under Part.referral_ne_schedule).mp ⟨_, reads.referral⟩
    have filler := (Part.exists_ofMapping_under Part.filler_ne_schedule).mp ⟨_, reads.filler⟩
    refine ⟨members, rfl, Value.known_ofMembers.mp reads.known, ?_⟩
    simp only [RecordKind.fieldNames, List.forall_mem_cons]
    exact ⟨fee.1, fee.2, rebate.1, rebate.2, referral, filler, List.forall_mem_nil _⟩
  · rintro ⟨members, rfl, known, values⟩
    simp only [RecordKind.fieldNames, List.forall_mem_cons] at values
    obtain ⟨top, bottom, top', bottom', referral, filler, _⟩ := values
    obtain ⟨fee, gross⟩ := Ratio.exists_under.mpr ⟨top, bottom⟩
    obtain ⟨rebate, shared⟩ := Ratio.exists_under.mpr ⟨top', bottom'⟩
    obtain ⟨r, referral⟩ := (Part.exists_ofMapping_under Part.referral_ne_schedule).mpr referral
    obtain ⟨r', filler⟩ := (Part.exists_ofMapping_under Part.filler_ne_schedule).mpr filler
    obtain ⟨t, _, same⟩ := bind_eq_ok.mp referral
    obtain ⟨u, _, same'⟩ := bind_eq_ok.mp filler
    obtain rfl := pure_eq_ok.mp same
    obtain rfl := pure_eq_ok.mp same'
    exact ⟨⟨fee, rebate, t, u⟩, _, ⟨members, rfl, rfl⟩,
      Value.known_ofMembers.mpr known, gross, shared, referral, filler⟩

end Accepted

section Overlay

variable {members : List (String × Json)} {name : String} {j : Json}

/-- Over values that are replaced altogether, an overlay takes what is given under each name. -/
theorem Value.overlayEntries_eq_map {base : Entries} (given : Entries)
    (flat : ∀ e ∈ base, ∀ x, e.2.overlay x = x) :
    overlayEntries base given = base.map fun e => (e.1, (given.lookup e.1).getD e.2) := by
  induction base with
  | nil => rfl
  | cons e rest ih =>
    obtain ⟨name, own⟩ := e
    obtain ⟨flatOwn, flatRest⟩ := List.forall_mem_cons.mp flat
    have taken : (given.lookup name).elim own own.overlay = (given.lookup name).getD own := by
      cases given.lookup name with
      | none => rfl
      | some x => exact flatOwn x
    rw [overlayEntries, taken, ih flatRest, List.map_cons]

@[simp]
theorem Value.overlay_int (n : Int) (x : Value) : (Value.int n).overlay x = x := by
  simp [overlay]

theorem Value.unfold_ofJson (j : Json) : (ofJson j).unfold = .ok (ofJson j) := by
  cases j <;> rfl

/-- A term read from plain data is written out as what was given for it, or as the standard. -/
theorem Term.unfold_of_ofMembers {t : Term} {standard : U128}
    (read : t.toValue = ((Value.ofMembers members).lookup name).getD (.int standard.val)) :
    t.toValue.unfold = .ok (((Value.ofMembers members).lookup name).elim (.int standard.val)
      (Value.int standard.val).overlay) := by
  rw [read, Value.lookup_ofMembers]
  cases members.lookup name with
  | none => rfl
  | some j => simp [Value.unfold_ofJson]

namespace Part

variable {part : Part} {r : Record}

theorem overlay_standard_field (flat : part ≠ .schedule) :
    ∀ e ∈ part.standard.fields, ∀ x, e.2.overlay x = x := by
  have ints : ∀ own ∈ part.standard.fieldValues, ∃ n, own = .int n := by
    cases part with
    | schedule => exact absurd rfl flat
    | referral | filler =>
      simp [standard, Record.fieldValues, ReferralTerms.map, FillerTerms.map, Ratio.map,
        Term.toValue]
  intro e field x
  obtain ⟨n, same⟩ := ints e.2 (List.of_mem_zip field).2
  rw [same, Value.overlay_int]

/-- What is read as a section overlays its standard. -/
theorem mapping_fields (flat : part ≠ .schedule) {x : Value} (built : part.ofMapping x = .ok r) :
    .mapping r.fields = (Value.mapping part.standard.fields).overlay x := by
  obtain ⟨entries, rfl, fromEntries⟩ := (ofMapping_section flat).mp built
  obtain ⟨_, _, fields⟩ := Record.ofEntries_eq_ok.mp fromEntries
  rw [fields, Value.overlay, Value.overlayEntries_eq_map entries (overlay_standard_field flat),
    Record.overlay]

theorem mapping_fields_under (flat : part ≠ .schedule) {given : Option Value}
    (built : part.ofMapping (given.getD (.mapping [])) = .ok r) :
    .mapping r.fields = given.elim (.mapping part.standard.fields)
      (Value.mapping part.standard.fields).overlay := by
  cases given with
  | none =>
    obtain rfl : part.standard = r := Except.ok.inj (part.ofMapping_nil.symm.trans built)
    rfl
  | some x => exact mapping_fields flat built

end Part

namespace FeeSchedule

variable {s : Schedule}

theorem toMapping_of_ofMapping (built : ofMapping (Value.ofJson j) = .ok s) :
    ∃ standard entries, Schedule.standard.toMapping = .ok standard ∧ s.toMapping = .ok entries ∧
      .mapping entries = (Value.mapping standard).overlay (Value.ofJson j) := by
  obtain ⟨entries, same, reads⟩ := ofMapping_eq_ok.mp built
  obtain ⟨members, rfl, rfl⟩ := Value.ofJson_eq_mapping.mp same
  obtain ⟨top, bottom⟩ := Ratio.under_eq_ok.mp reads.fee
  obtain ⟨top', bottom'⟩ := Ratio.under_eq_ok.mp reads.makerRebate
  have referral := Part.mapping_fields_under Part.referral_ne_schedule reads.referral
  have filler := Part.mapping_fields_under Part.filler_ne_schedule reads.filler
  refine ⟨_, _, toMapping_eq_ok.mpr ⟨_, _, _, _, rfl, rfl, rfl, rfl, rfl⟩,
    toMapping_eq_ok.mpr ⟨_, _, _, _, Term.unfold_of_ofMembers top, Term.unfold_of_ofMembers bottom,
      Term.unfold_of_ofMembers top', Term.unfold_of_ofMembers bottom', rfl⟩, ?_⟩
  rw [same, Value.overlay, referral, filler]
  simp only [Value.overlayEntries]
  rfl

end FeeSchedule

end Overlay

/-- Of all plain data a schedule is read from those in its format, and written out it is the
standard one with the given values in their places; all others are faults of configuration, unless
an integer given for a term is too long to be written. -/
theorem FeeSchedule.plain_data_overlay_standard (j : Json) :
    ((∃ s, ofMapping (Value.ofJson j) = .ok s) ↔ j.IsSchedule) ∧
    (∀ s, ofMapping (Value.ofJson j) = .ok s →
      ∃ standard entries, Schedule.standard.toMapping = .ok standard ∧ s.toMapping = .ok entries ∧
        .mapping entries = (Value.mapping standard).overlay (Value.ofJson j)) ∧
    (¬ j.IsSchedule →
      (∃ fault, ofMapping (Value.ofJson j) = .error (.config fault)) ∨
        ofMapping (Value.ofJson j) = .error .longInteger ∧
          Part.schedule.GivesLong (Value.ofJson j)) := by
  refine ⟨exists_ofMapping, fun s => toMapping_of_ofMapping, fun refused => ?_⟩
  have fails : FailsOnly (fun e => (∃ fault, e = .config fault) ∨
      e = .longInteger ∧ Part.schedule.GivesLong (Value.ofJson j)) (ofMapping (Value.ofJson j)) :=
    ofMapping_failsOnly (fun fault => .inl ⟨fault, rfl⟩) fun long => .inr ⟨rfl, long⟩
  cases read : ofMapping (Value.ofJson j) with
  | error e =>
    obtain ⟨fault, rfl⟩ | ⟨rfl, long⟩ := fails e read
    · exact .inl ⟨fault, rfl⟩
    · exact .inr ⟨rfl, long⟩
  | ok s => exact absurd (exists_ofMapping.mp ⟨s, read⟩) refused

/-- A numerator of the fee and one in the referral section change the standard schedule in these
two places, and a truth value for a term is a fault of configuration. -/
theorem FeeSchedule.nested_term_overlays_standard :
    (∃ s, ofMapping (Value.ofJson (.object [("fee_numerator", .int 4),
        ("referral_discount", .object [("referee_discount_numerator", .int 7)])])) = .ok s ∧
      s.toMapping = .ok [("fee_numerator", .int 4),
        ("fee_denominator", .int 10000), ("maker_rebate_numerator", .int 6),
        ("maker_rebate_denominator", .int 10),
        ("referral_discount", .mapping [("referrer_reward_numerator", .int 5),
          ("referrer_reward_denominator", .int 100), ("referee_discount_numerator", .int 7),
          ("referee_discount_denominator", .int 100)]),
        ("filler_reward_structure", .mapping [("reward_numerator", .int 1),
          ("reward_denominator", .int 10), ("time_based_reward_lower_bound", .int 10000)])]) ∧
    ∃ fault, ofMapping (Value.ofJson (.object [("fee_numerator", .bool true)])) =
      .error (.config fault) := by
  have four : Json.IsAmount (.int 4) := ⟨⟨4, by decide, by decide⟩, rfl⟩
  have seven : Json.IsAmount (.int 7) := ⟨⟨7, by decide, by decide⟩, rfl⟩
  have inSection : Json.IsSection .referral
      (.object [("referee_discount_numerator", .int 7)]) :=
    ⟨_, rfl, by simp [RecordKind.fieldNames],
      by simp [RecordKind.fieldNames, List.lookup_cons, seven]⟩
  have accepted : Json.IsSchedule (.object [("fee_numerator", .int 4),
      ("referral_discount", .object [("referee_discount_numerator", .int 7)])]) :=
    ⟨_, rfl, by simp [RecordKind.fieldNames],
      by simp [RecordKind.fieldNames, List.lookup_cons, Json.IsEntry, four, inSection]⟩
  constructor
  · obtain ⟨s, read⟩ := (plain_data_overlay_standard _).1.mpr accepted
    obtain ⟨standard, entries, shown, written, overlaid⟩ :=
      (plain_data_overlay_standard _).2.1 s read
    cases shown
    cases overlaid
    exact ⟨s, read, written⟩
  · have refused : ¬ Json.IsSchedule (.object [("fee_numerator", .bool true)]) := by
      rintro ⟨_, ⟨⟩, _, values⟩
      obtain ⟨_, ⟨⟩⟩ := values "fee_numerator" (by decide) (.bool true) rfl
    obtain fault | ⟨failed, _⟩ := (plain_data_overlay_standard _).2.2 refused
    · exact fault
    · cases failed

theorem FeeSchedule.ofMapping_of_long {n : Int} (long : ¬ Text.IsShort n) :
    ofMapping (.mapping [("fee_numerator", .int n)]) = .error .longInteger := by
  have outside : ¬ (Width.u128.lo ≤ n ∧ n ≤ Width.u128.hi) := fun ⟨low, high⟩ =>
    long (Width.Holds.mk low high).isShort
  have refused : Term.ofValue .schedule "fee_numerator" (.int n) = .error .longInteger := by
    rw [Term.ofValue, dif_neg outside, Error.naming_of_long long]
  change ((Term.ofValue .schedule "fee_numerator" (.int n) >>= _) >>= _) = _
  rw [refused]
  rfl

/-- A numerator of the fee with a digit more than are written is in no format, and yet no fault of
configuration. -/
theorem FeeSchedule.long_numerator_unnamed :
    ¬ Json.IsSchedule (.object [("fee_numerator", .int (10 ^ Text.digitLimit))]) ∧
    ofMapping (Value.ofJson (.object [("fee_numerator", .int (10 ^ Text.digitLimit))])) =
      .error .longInteger := by
  have failed := ofMapping_of_long Text.not_isShort_pow
  refine ⟨fun isSchedule => ?_, failed⟩
  obtain ⟨s, read⟩ := exists_ofMapping.mpr isSchedule
  cases failed.symm.trans read

end ExchangeFees
