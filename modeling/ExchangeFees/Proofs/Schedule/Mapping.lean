import ExchangeFees.Proofs.Schedule.Construction

/-! Schedules as nested mappings, there and back. What a mapping is read as is said by its entries
alone: the terms given or else the standard ones, and each section as it would be read by itself, a
missing one as from an empty mapping. Written out and read again a schedule is the same exactly if
the four terms outside its sections are plain integers: a record in their place is written by its
fields and then taken for no term, while records inside a section are kept as they are. -/
namespace ExchangeFees

section Sections

variable {key : String} {entries sections : Entries} {part : Part} {r : Record}

theorem names_of_readSection {build : Value → Except Error Record}
    (read : readSection key build entries = .ok sections) :
    sections.map (·.1) = entries.map (·.1) := by
  unfold readSection at read
  cases given : entries.lookup key with
  | none =>
    simp only [given, Except.ok.injEq] at read
    rw [read]
  | some x =>
    simp only [given, bind_eq_ok, pure_eq_ok] at read
    obtain ⟨r, _, rfl⟩ := read
    rw [List.map_map]
    refine List.map_congr_left fun e _ => ?_
    by_cases replaced : e.1 = key
    · simp [replaced]
    · simp [replaced]

/-- An empty mapping is read as the standard. -/
theorem Part.ofMapping_nil (part : Part) : part.ofMapping (.mapping []) = .ok part.standard := by
  cases part <;> rfl

/-- A section that is not there is read as an empty mapping. -/
theorem Part.of_readSection (read : readSection key part.ofMapping entries = .ok sections) :
    ∃ r, part.ofMapping ((entries.lookup key).getD (.mapping [])) = .ok r ∧
      (sections.lookup key).getD (.record part.standard) = .record r := by
  obtain ⟨absent, left⟩ | ⟨x, r, given, built, placed⟩ := section_of_readSection read
  · rw [absent, left]
    exact ⟨_, part.ofMapping_nil, rfl⟩
  · rw [given, placed]
    exact ⟨r, built, rfl⟩

theorem Part.exists_readSection
    (built : part.ofMapping ((entries.lookup key).getD (.mapping [])) = .ok r) :
    ∃ sections, readSection key part.ofMapping entries = .ok sections := by
  unfold readSection
  cases given : entries.lookup key with
  | none => exact ⟨entries, rfl⟩
  | some x =>
    rw [given, Option.getD_some] at built
    simp only [built, ok_bind]
    exact ⟨_, rfl⟩

end Sections

theorem Ratio.under_congr {record : RecordKind} {numerator denominator : String}
    {standard : Ratio U128} {entries entries' : Entries}
    (top : entries.lookup numerator = entries'.lookup numerator)
    (bottom : entries.lookup denominator = entries'.lookup denominator) :
    under record numerator denominator standard entries =
      under record numerator denominator standard entries' := by
  simp only [under, Term.under, top, bottom]

namespace FeeSchedule

/-- What a mapping's entries say of the schedule that is read from it. -/
structure ReadsFrom (s : Schedule) (entries : Entries) : Prop where
  known : ∀ e ∈ entries, e.1 ∈ RecordKind.schedule.fieldNames
  fee : Ratio.under .schedule "fee_numerator" "fee_denominator" standard.fee entries = .ok s.fee
  makerRebate : Ratio.under .schedule "maker_rebate_numerator" "maker_rebate_denominator"
    standard.makerRebate entries = .ok s.makerRebate
  referral : Part.referral.ofMapping ((entries.lookup "referral_discount").getD (.mapping [])) =
    .ok (.referral s.referral)
  filler : Part.filler.ofMapping
    ((entries.lookup "filler_reward_structure").getD (.mapping [])) = .ok (.filler s.filler)

variable {x : Value} {entries withReferral sections : Entries} {s : Schedule}

/-- Both sections are read before anything else, which leaves the names and the terms alone. -/
structure SectionsRead (entries withReferral sections : Entries) : Prop where
  referral : readSection "referral_discount" Part.referral.ofMapping entries = .ok withReferral
  filler : readSection "filler_reward_structure" Part.filler.ofMapping withReferral = .ok sections

namespace SectionsRead

variable (read : SectionsRead entries withReferral sections)

include read

theorem known_iff {names : List String} :
    (∀ e ∈ sections, e.1 ∈ names) ↔ ∀ e ∈ entries, e.1 ∈ names := by
  have same := (names_of_readSection read.filler).trans (names_of_readSection read.referral)
  rw [← List.forall_mem_map (P := (· ∈ names)), same, List.forall_mem_map]

theorem lookup_term {name : String} (noReferral : name ≠ "referral_discount")
    (noFiller : name ≠ "filler_reward_structure") :
    sections.lookup name = entries.lookup name :=
  (lookup_of_readSection read.filler noFiller).trans
    (lookup_of_readSection read.referral noReferral)

theorem fee_under : Ratio.under .schedule "fee_numerator" "fee_denominator" standard.fee sections =
    Ratio.under .schedule "fee_numerator" "fee_denominator" standard.fee entries :=
  Ratio.under_congr (read.lookup_term (by decide) (by decide))
    (read.lookup_term (by decide) (by decide))

theorem makerRebate_under :
    Ratio.under .schedule "maker_rebate_numerator" "maker_rebate_denominator"
        standard.makerRebate sections =
      Ratio.under .schedule "maker_rebate_numerator" "maker_rebate_denominator"
        standard.makerRebate entries :=
  Ratio.under_congr (read.lookup_term (by decide) (by decide))
    (read.lookup_term (by decide) (by decide))

theorem referral_under {t : ReferralTerms Term} :
    ReferralTerms.under sections = .ok t ↔
      Part.referral.ofMapping ((entries.lookup "referral_discount").getD (.mapping [])) =
        .ok (.referral t) := by
  obtain ⟨r, built, placed⟩ := Part.of_readSection read.referral
  rw [ReferralTerms.under_eq_ok, lookup_of_readSection read.filler (by decide), built]
  change _ = (withReferral.lookup _).getD (.record Part.referral.standard) ↔ _
  rw [placed]
  simp [eq_comm]

theorem filler_under {t : FillerTerms Term} :
    FillerTerms.under sections = .ok t ↔
      Part.filler.ofMapping ((entries.lookup "filler_reward_structure").getD (.mapping [])) =
        .ok (.filler t) := by
  obtain ⟨r, built, placed⟩ := Part.of_readSection read.filler
  rw [FillerTerms.under_eq_ok, ← lookup_of_readSection read.referral (by decide), built]
  change _ = (sections.lookup _).getD (.record Part.filler.standard) ↔ _
  rw [placed]
  simp [eq_comm]

theorem ofEntries_eq_ok_iff : ofEntries sections = .ok s ↔ s.ReadsFrom entries := by
  simp only [ofEntries, bind_eq_ok, pure_eq_ok, checkNames_eq_ok, exists_const, read.known_iff,
    read.referral_under, read.filler_under, read.fee_under, read.makerRebate_under]
  constructor
  · rintro ⟨known, t, referral, u, filler, fee, ratio, rebate, ratio', rfl⟩
    exact ⟨known, ratio, ratio', referral, filler⟩
  · intro reads
    exact ⟨reads.known, _, reads.referral, _, reads.filler, _, reads.fee, _, reads.makerRebate, rfl⟩

end SectionsRead

theorem ReadsFrom.exists_sectionsRead (reads : s.ReadsFrom entries) :
    ∃ withReferral sections, SectionsRead entries withReferral sections := by
  obtain ⟨withReferral, referral⟩ := Part.exists_readSection reads.referral
  have built := reads.filler
  rw [← lookup_of_readSection referral (by decide)] at built
  obtain ⟨sections, filler⟩ := Part.exists_readSection built
  exact ⟨withReferral, sections, referral, filler⟩

/-- A schedule is read from mappings only, and as their entries say. -/
theorem ofMapping_eq_ok :
    ofMapping x = .ok s ↔ ∃ entries, x = .mapping entries ∧ s.ReadsFrom entries := by
  simp only [ofMapping, bind_eq_ok, entriesOf_eq_ok, checkKeys_eq_ok, exists_const]
  refine exists_congr fun entries => and_congr_right fun _ => ?_
  constructor
  · rintro ⟨withReferral, referral, sections, filler, _, built⟩
    have read : SectionsRead entries withReferral sections := ⟨referral, filler⟩
    exact read.ofEntries_eq_ok_iff.mp built
  · intro reads
    obtain ⟨withReferral, sections, read⟩ := reads.exists_sectionsRead
    exact ⟨withReferral, read.referral, sections, read.filler, read.known_iff.mpr reads.known,
      read.ofEntries_eq_ok_iff.mpr reads⟩

end FeeSchedule

section RoundTrip

variable {part : Part} {r : Record}

/-- Every part is built anew from its own fields. -/
theorem Part.ofEntries_fields (kind : r.kind = .record part.kind) :
    Record.ofEntries r.fields part.kind = .ok r := by
  refine Record.ofEntries_eq_ok.mpr ⟨part.known_fields kind, kind, ?_⟩
  cases part <;> cases r <;> cases kind <;> rfl

/-- A section is read from its own fields, whatever they hold. -/
theorem Part.ofMapping_fields (flat : part ≠ .schedule) (kind : r.kind = .record part.kind) :
    part.ofMapping (.mapping r.fields) = .ok r :=
  (ofMapping_section flat).mpr ⟨r.fields, rfl, part.ofEntries_fields kind⟩

/-- A term written out stands for a term again only if it is plain, and then for itself. -/
theorem Term.toValue_eq_of_unfold {t u : Term} {x : Value} (written : u.toValue.unfold = .ok x) :
    t.toValue = x ↔ t = u ∧ u.IsPlain := by
  cases u with
  | plain n =>
    obtain rfl := Except.ok.inj written
    exact Term.toValue_inj.trans (and_iff_left ⟨n, rfl⟩).symm
  | record r =>
    obtain rfl := Except.ok.inj written
    cases t <;> simp [toValue, IsPlain]
  | type c =>
    obtain ⟨fields, _, same⟩ := bind_eq_ok.mp written
    obtain rfl := pure_eq_ok.mp same
    cases t <;> simp [toValue, IsPlain]

/-- A term is written out unless it is a class that lacks a field. -/
theorem Term.unfold_failsOnly (t : Term) :
    FailsOnly (fun e => ∃ c name, t = .type c ∧ e = .missingAttribute c name) t.toValue.unfold := by
  cases t with
  | plain n => exact .ok _
  | record r => exact .ok _
  | type c =>
    refine (FailsOnly.mapM fun name _ => ?_).bind fun _ => .ok _
    refine FailsOnly.bind ?_ fun _ => .ok _
    unfold RecordClass.attribute
    split
    · exact .ok _
    · exact .error ⟨c, name, rfl, rfl⟩

/-- A term written out is no integer too long to be written. -/
theorem Term.not_isLong_of_unfold {t : Term} {x : Value} (written : t.toValue.unfold = .ok x) :
    ¬ x.IsLong := by
  rintro ⟨n, rfl, long⟩
  cases t with
  | plain m =>
    obtain rfl := Value.int.inj (Except.ok.inj written)
    exact long m.isShort
  | record r => cases written
  | type c =>
    obtain ⟨fields, _, same⟩ := bind_eq_ok.mp written
    cases same

theorem Term.not_isLong (t : Term) : ¬ t.toValue.IsLong := by
  rintro ⟨n, same, long⟩
  cases t with
  | plain m =>
    cases same
    exact long m.isShort
  | record r => cases same
  | type c => cases same

theorem Ratio.under_of_unfold {record : RecordKind} {numerator denominator : String}
    {standard : Ratio U128} {entries : Entries} {p q : Ratio Term} {x y : Value}
    (top : p.numerator.toValue.unfold = .ok x) (bottom : p.denominator.toValue.unfold = .ok y)
    (topPlace : entries.lookup numerator = some x)
    (bottomPlace : entries.lookup denominator = some y) :
    under record numerator denominator standard entries = .ok q ↔
      q = p ∧ ∀ x ∈ p.terms, x.IsPlain := by
  obtain ⟨n, d⟩ := p
  obtain ⟨n', d'⟩ := q
  rw [under_eq_ok, topPlace, bottomPlace, Option.getD_some, Option.getD_some,
    Term.toValue_eq_of_unfold top, Term.toValue_eq_of_unfold bottom]
  simp only [terms, mk.injEq, List.forall_mem_cons, List.not_mem_nil, false_implies, implies_true,
    and_true]
  exact and_and_and_comm

namespace FeeSchedule

variable {s t : Schedule} {entries : Entries}

theorem fields_eq (s : Schedule) : (Record.schedule s).fields =
    [("fee_numerator", s.fee.numerator.toValue), ("fee_denominator", s.fee.denominator.toValue),
      ("maker_rebate_numerator", s.makerRebate.numerator.toValue),
      ("maker_rebate_denominator", s.makerRebate.denominator.toValue),
      ("referral_discount", .record (.referral s.referral)),
      ("filler_reward_structure", .record (.filler s.filler))] := rfl

/-- A schedule written out shows its four terms and its two sections by their fields. -/
theorem toMapping_eq_ok : s.toMapping = .ok entries ↔
    ∃ feeTop feeBottom rebateTop rebateBottom,
      s.fee.numerator.toValue.unfold = .ok feeTop ∧
      s.fee.denominator.toValue.unfold = .ok feeBottom ∧
      s.makerRebate.numerator.toValue.unfold = .ok rebateTop ∧
      s.makerRebate.denominator.toValue.unfold = .ok rebateBottom ∧
      entries = [("fee_numerator", feeTop), ("fee_denominator", feeBottom),
        ("maker_rebate_numerator", rebateTop), ("maker_rebate_denominator", rebateBottom),
        ("referral_discount", .mapping (Record.referral s.referral).fields),
        ("filler_reward_structure", .mapping (Record.filler s.filler).fields)] := by
  simp only [toMapping, fields_eq, List.mapM_cons, List.mapM_nil, bind_eq_ok, pure_eq_ok]
  constructor
  · rintro ⟨_, ⟨a, first, rfl⟩, _, ⟨_, ⟨b, second, rfl⟩, _, ⟨_, ⟨c, third, rfl⟩, _,
      ⟨_, ⟨d, fourth, rfl⟩, _, ⟨_, ⟨_, ⟨⟩, rfl⟩, _, ⟨_, ⟨_, ⟨⟩, rfl⟩, _, rfl, rfl⟩, rfl⟩, rfl⟩, rfl⟩,
      rfl⟩, rfl⟩
    exact ⟨a, b, c, d, first, second, third, fourth, rfl⟩
  · rintro ⟨a, b, c, d, first, second, third, fourth, rfl⟩
    exact ⟨_, ⟨a, first, rfl⟩, _, ⟨_, ⟨b, second, rfl⟩, _, ⟨_, ⟨c, third, rfl⟩, _,
      ⟨_, ⟨d, fourth, rfl⟩, _, ⟨_, ⟨_, rfl, rfl⟩, _, ⟨_, ⟨_, rfl, rfl⟩, _, rfl, rfl⟩, rfl⟩, rfl⟩,
      rfl⟩, rfl⟩, rfl⟩

/-- A schedule is written out unless a class that lacks a field stands for a term outside its
sections. -/
theorem toMapping_failsOnly (s : Schedule) : FailsOnly
    (fun e => ∃ c name, .type c ∈ s.fee.terms ++ s.makerRebate.terms ∧ e = .missingAttribute c name)
    s.toMapping := by
  have terms : ∀ t ∈ s.fee.terms ++ s.makerRebate.terms, FailsOnly
      (fun e => ∃ c name, .type c ∈ s.fee.terms ++ s.makerRebate.terms ∧
        e = .missingAttribute c name) t.toValue.unfold := by
    intro t member
    refine (Term.unfold_failsOnly t).mono ?_
    rintro _ ⟨c, name, rfl, rfl⟩
    exact ⟨c, name, member, rfl⟩
  simp only [Ratio.terms, List.cons_append, List.nil_append, List.forall_mem_cons] at terms
  obtain ⟨feeTop, feeBottom, rebateTop, rebateBottom, _⟩ := terms
  refine FailsOnly.mapM fun e field => FailsOnly.bind ?_ fun _ => .ok _
  rw [fields_eq] at field
  simp only [List.mem_cons, List.not_mem_nil, or_false] at field
  obtain rfl | rfl | rfl | rfl | rfl | rfl := field
  · exact feeTop
  · exact feeBottom
  · exact rebateTop
  · exact rebateBottom
  · exact .ok _
  · exact .ok _

/-- A schedule of plain terms, apart from its sections, is written out. -/
theorem exists_toMapping (plain : ∀ x ∈ s.fee.terms ++ s.makerRebate.terms, x.IsPlain) :
    ∃ entries, s.toMapping = .ok entries := by
  cases written : s.toMapping with
  | error e =>
    obtain ⟨c, _, member, _⟩ := toMapping_failsOnly s e written
    obtain ⟨_, same⟩ := plain _ member
    cases same
  | ok entries => exact ⟨entries, rfl⟩

/-- What is read from a schedule written out is that schedule, and only plain terms outside the
sections allow it. -/
theorem readsFrom_of_toMapping (written : s.toMapping = .ok entries) :
    t.ReadsFrom entries ↔ t = s ∧ ∀ x ∈ s.fee.terms ++ s.makerRebate.terms, x.IsPlain := by
  obtain ⟨_, _, _, _, feeTop, feeBottom, rebateTop, rebateBottom, shown⟩ :=
    toMapping_eq_ok.mp written
  have fee {q : Ratio Term} : Ratio.under .schedule "fee_numerator" "fee_denominator"
      standard.fee entries = .ok q ↔ q = s.fee ∧ ∀ x ∈ s.fee.terms, x.IsPlain :=
    Ratio.under_of_unfold feeTop feeBottom (shown ▸ rfl) (shown ▸ rfl)
  have makerRebate {q : Ratio Term} : Ratio.under .schedule "maker_rebate_numerator"
      "maker_rebate_denominator" standard.makerRebate entries = .ok q ↔
        q = s.makerRebate ∧ ∀ x ∈ s.makerRebate.terms, x.IsPlain :=
    Ratio.under_of_unfold rebateTop rebateBottom (shown ▸ rfl) (shown ▸ rfl)
  have referral : Part.referral.ofMapping
      ((entries.lookup "referral_discount").getD (.mapping [])) = .ok (.referral s.referral) := by
    rw [shown]
    exact Part.ofMapping_fields Part.referral_ne_schedule rfl
  have filler : Part.filler.ofMapping
      ((entries.lookup "filler_reward_structure").getD (.mapping [])) =
        .ok (.filler s.filler) := by
    rw [shown]
    exact Part.ofMapping_fields Part.filler_ne_schedule rfl
  rw [List.forall_mem_append]
  constructor
  · intro reads
    obtain ⟨sameFee, plainFee⟩ := fee.mp reads.fee
    obtain ⟨sameRebate, plainRebate⟩ := makerRebate.mp reads.makerRebate
    have sameReferral := Record.referral.inj (Except.ok.inj (reads.referral.symm.trans referral))
    have sameFiller := Record.filler.inj (Except.ok.inj (reads.filler.symm.trans filler))
    refine ⟨?_, plainFee, plainRebate⟩
    obtain ⟨fee', rebate', referral', filler'⟩ := t
    obtain rfl : fee' = s.fee := sameFee
    obtain rfl : rebate' = s.makerRebate := sameRebate
    obtain rfl : s.referral = referral' := sameReferral.symm
    obtain rfl : s.filler = filler' := sameFiller.symm
    rfl
  · rintro ⟨rfl, plainFee, plainRebate⟩
    refine ⟨?_, fee.mpr ⟨rfl, plainFee⟩, makerRebate.mpr ⟨rfl, plainRebate⟩, referral, filler⟩
    rw [shown]
    simp [RecordKind.fieldNames]

/-- A schedule as it is written out and read again. -/
def readBack (s : Schedule) : Except Error Schedule := do ofMapping (.mapping (← s.toMapping))

theorem readBack_eq_ok :
    s.readBack = .ok t ↔ t = s ∧ ∀ x ∈ s.fee.terms ++ s.makerRebate.terms, x.IsPlain := by
  simp only [readBack, bind_eq_ok, ofMapping_eq_ok, Value.mapping.injEq, exists_eq_left']
  constructor
  · rintro ⟨entries, written, reads⟩
    exact (readsFrom_of_toMapping written).mp reads
  · rintro ⟨same, plain⟩
    obtain ⟨entries, written⟩ := exists_toMapping plain
    exact ⟨entries, written, (readsFrom_of_toMapping written).mpr ⟨same, plain⟩⟩

/-- A schedule written out gives no integer too long to be written. -/
theorem not_givesLong_of_toMapping (written : s.toMapping = .ok entries) :
    ¬ Part.schedule.GivesLong (.mapping entries) := by
  rintro ⟨path, member, x, reached, isLong⟩
  obtain ⟨_, _, _, _, feeTop, feeBottom, rebateTop, rebateBottom, rfl⟩ := toMapping_eq_ok.mp written
  simp only [Part.termPaths, RecordKind.fieldNames, List.map_cons, List.map_nil, List.cons_append,
    List.nil_append, List.mem_cons, List.not_mem_nil, or_false] at member
  obtain rfl | rfl | rfl | rfl | nested := member
  · exact Term.not_isLong_of_unfold feeTop (Option.some.inj reached ▸ isLong)
  · exact Term.not_isLong_of_unfold feeBottom (Option.some.inj reached ▸ isLong)
  · exact Term.not_isLong_of_unfold rebateTop (Option.some.inj reached ▸ isLong)
  · exact Term.not_isLong_of_unfold rebateBottom (Option.some.inj reached ▸ isLong)
  · obtain rfl | rfl | rfl | rfl | rfl | rfl | rfl := nested
    all_goals
      cases reached
      exact Term.not_isLong _ isLong

theorem readBack_failsOnly (s : Schedule) : FailsOnly
    (fun e => (∃ fault, e = .config fault) ∨
      ∃ c name, .type c ∈ s.fee.terms ++ s.makerRebate.terms ∧ e = .missingAttribute c name)
    s.readBack := by
  refine ((toMapping_failsOnly s).mono fun _ => .inr).bind_of_ok fun entries written => ?_
  exact ofMapping_failsOnly (fun fault => .inl ⟨fault, rfl⟩)
    fun long => absurd long (not_givesLong_of_toMapping written)

/-- A schedule written out as a mapping and read again is the same exactly if the terms of its fee
and of its rebate are plain integers, whatever records stand in its sections; otherwise it fails by
configuration, unless one of those terms is a class that lacks a field and cannot be written out. -/
theorem written_schedule_reads_back_iff_plain_ratios (s : Schedule) :
    (s.readBack = .ok s ↔ ∀ x ∈ s.fee.terms ++ s.makerRebate.terms, x.IsPlain) ∧
    ((¬ ∀ x ∈ s.fee.terms ++ s.makerRebate.terms, x.IsPlain) →
      (∃ fault, s.readBack = .error (.config fault)) ∨
        ∃ c name, .type c ∈ s.fee.terms ++ s.makerRebate.terms ∧
          s.readBack = .error (.missingAttribute c name)) := by
  refine ⟨readBack_eq_ok.trans (and_iff_right rfl), fun notPlain => ?_⟩
  cases read : s.readBack with
  | error e =>
    obtain ⟨fault, rfl⟩ | ⟨c, name, member, rfl⟩ := readBack_failsOnly s e read
    · exact .inl ⟨fault, rfl⟩
    · exact .inr ⟨c, name, member, rfl⟩
  | ok t => exact absurd (readBack_eq_ok.mp read).2 notPlain

/-- A checked amount in the referral section reads back, and in the place of the fee's numerator it
does not. -/
theorem nested_amount_reads_back :
    let amount : Term := .record (.checked .u128 .one)
    let s : Schedule := FeeSchedule.standard.map .plain
    let nested : Schedule := { s with referral.referrerReward.numerator := amount }
    nested.readBack = .ok nested ∧
      ∃ fault, FeeSchedule.readBack { s with fee.numerator := amount } =
        .error (.config fault) := by
  intro amount s nested
  have isPlain (n : U128) : (Term.plain n).IsPlain := ⟨n, rfl⟩
  have plain : ∀ x ∈ nested.fee.terms ++ nested.makerRebate.terms, x.IsPlain := by
    simp [nested, s, FeeSchedule.map, Ratio.map, Ratio.terms, isPlain]
  have notPlain : ¬ amount.IsPlain := by
    rintro ⟨n, equal⟩
    exact Term.noConfusion equal
  refine ⟨(written_schedule_reads_back_iff_plain_ratios nested).1.mpr plain, ?_⟩
  obtain refused | ⟨c, _, member, _⟩ := (written_schedule_reads_back_iff_plain_ratios
    { s with fee.numerator := amount }).2 fun every => notPlain (every _ List.mem_cons_self)
  · exact refused
  · simp [amount, s, FeeSchedule.map, Ratio.map, Ratio.terms] at member

end FeeSchedule
end RoundTrip
end ExchangeFees
