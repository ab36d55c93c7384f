import ExchangeFees.Schedule.Mapping
import ExchangeFees.Proofs.Fill.Trade
import ExchangeFees.Proofs.Record.Build

/-! Every way to build a schedule or one of its sections, and what it checks of the values that
become terms. Integers in the range of an amount are kept, and so are records of any kind and their
classes; any other value is a fault of configuration, save an integer that is too long for the fault
to name it. What is built has therefore plain terms exactly if no record or class was given in the
place of a term. -/
namespace ExchangeFees

def Record.terms : Record → List Term
  | .schedule s => s.terms
  | .referral t => t.terms
  | .filler t => t.terms
  | _ => []

namespace Part

theorem ne_nil_of_mem_termPaths {part : Part} {path : List String}
    (member : path ∈ part.termPaths) : path ≠ [] := by
  have every : ∀ path ∈ part.termPaths, path ≠ [] := by cases part <;> decide
  exact every path member

variable {part : Part} {r : Record}

theorem known_fields (part : Part) (kind : r.kind = .record part.kind) :
    ∀ e ∈ r.fields, e.1 ∈ part.kind.fieldNames := by
  intro e field
  rw [Record.fields, kind] at field
  exact (List.of_mem_zip field).1

theorem map_get?_termPaths (kind : r.kind = .record part.kind) :
    part.termPaths.map (Value.record r).get? = r.terms.map fun t => some t.toValue := by
  cases part <;> cases r <;> cases kind <;> rfl

theorem exists_term (kind : r.kind = .record part.kind) {path : List String}
    (member : path ∈ part.termPaths) :
    ∃ t ∈ r.terms, (Value.record r).get? path = some t.toValue := by
  have reached := List.mem_map_of_mem (f := (Value.record r).get?) member
  rw [map_get?_termPaths kind] at reached
  obtain ⟨t, term, same⟩ := List.mem_map.mp reached
  exact ⟨t, term, same.symm⟩

theorem exists_path (kind : r.kind = .record part.kind) {t : Term} (member : t ∈ r.terms) :
    ∃ path ∈ part.termPaths, (Value.record r).get? path = some t.toValue := by
  have reached := List.mem_map_of_mem (f := fun t => some t.toValue) member
  rw [← map_get?_termPaths kind] at reached
  exact List.mem_map.mp reached

end Part

section Terms

variable {part : Part} {entries : Entries} {x : Value} {r : Record}

/-- A term is what was given at its path, or else the standard one. -/
theorem get?_of_ofEntries (built : Record.ofEntries entries part.kind = .ok r)
    {path : List String} (member : path ∈ part.termPaths) :
    (Value.record r).get? path =
      ((Value.mapping entries).get? path).or ((Value.record part.standard).get? path) := by
  obtain ⟨_, kind, fields⟩ := Record.ofEntries_eq_ok.mp built
  obtain ⟨t, _, reached⟩ := Part.exists_term kind member
  cases path with
  | nil => exact absurd rfl (Part.ne_nil_of_mem_termPaths member)
  | cons name rest =>
    rw [reached]
    simp only [Value.get?, Value.member?, fields, Record.lookup_overlay] at reached ⊢
    cases standard : part.standard.fields.lookup name with
    | none => simp [standard] at reached
    | some y =>
      cases given : entries.lookup name with
      | none => simpa [standard, given] using reached.symm
      | some z =>
        -- The record holds the given value itself, so that value leads down the rest of the path.
        simp only [standard, given, Option.map_some, Option.getD_some, Option.bind_some]
          at reached ⊢
        rw [reached, Option.some_or]

namespace Part

def ofMapping : Part → Value → Except Error Record
  | schedule, x => do return .schedule (← FeeSchedule.ofMapping x)
  | referral, x => do return .referral (← ReferralTerms.ofMapping x)
  | filler, x => do return .filler (← FillerTerms.ofMapping x)

theorem referral_ne_schedule : referral ≠ schedule := nofun

theorem filler_ne_schedule : filler ≠ schedule := nofun

end Part

theorem entriesOf_eq_ok {record : RecordKind} :
    entriesOf record x = .ok entries ↔ x = .mapping entries := by
  cases x <;> simp [entriesOf]

theorem checkKeys_eq_ok {record : RecordKind} {u : Unit} :
    checkKeys record entries = .ok u ↔ ∀ e ∈ entries, e.1 ∈ record.fieldNames := by
  unfold checkKeys
  cases found : (entries.map (·.1)).filter fun key => !record.fieldNames.contains key with
  | nil => simpa using found
  | cons key rest =>
    constructor
    · nofun
    · intro known
      have member : key ∈ (entries.map (·.1)).filter fun key => !record.fieldNames.contains key :=
        found ▸ List.mem_cons_self
      obtain ⟨given, unknown⟩ := List.mem_filter.mp member
      obtain ⟨e, entry, rfl⟩ := List.mem_map.mp given
      simp [known e entry] at unknown

theorem entriesOf_failsOnly {faults : Error → Prop} (config : ∀ fault, faults (.config fault))
    {record : RecordKind} : FailsOnly faults (entriesOf record x) := by
  cases x with
  | mapping entries => exact .ok _
  | _ => exact .error (config _)

theorem checkKeys_failsOnly {faults : Error → Prop} (config : ∀ fault, faults (.config fault))
    {record : RecordKind} : FailsOnly faults (checkKeys record entries) := by
  unfold checkKeys
  split
  · exact .ok _
  · exact .error (config _)

section Sections

variable {key name : String} {build : Value → Except Error Record} {sections : Entries}

theorem lookup_map_replace (key name : String) (x : Value) (entries : Entries) :
    (entries.map fun e => if e.1 = key then (key, x) else e).lookup name =
      if name = key then (entries.lookup key).map fun _ => x else entries.lookup name := by
  induction entries with
  | nil => simp
  | cons e rest ih =>
    obtain ⟨own, y⟩ := e
    by_cases replaced : own = key
    · subst replaced
      cases here : name == own with
      | true => simp [eq_of_beq here]
      | false =>
        have other : name ≠ own := beq_eq_false_iff_ne.mp here
        simpa [List.lookup_cons, here, other] using ih
    · have kept : (key == own) = false := beq_eq_false_iff_ne.mpr (Ne.symm replaced)
      cases here : name == own with
      | true =>
        have same : name = own := eq_of_beq here
        simp [replaced, same]
      | false => simpa [List.lookup_cons, here, replaced, kept] using ih

theorem lookup_of_readSection (read : readSection key build entries = .ok sections)
    (other : name ≠ key) : sections.lookup name = entries.lookup name := by
  unfold readSection at read
  cases given : entries.lookup key with
  | none =>
    simp only [given, Except.ok.injEq] at read
    rw [read]
  | some x =>
    simp only [given, bind_eq_ok, pure_eq_ok] at read
    obtain ⟨r, _, rfl⟩ := read
    rw [lookup_map_replace, if_neg other]

/-- Reading a section puts what is built in the place of the value. -/
theorem section_of_readSection (read : readSection key build entries = .ok sections) :
    entries.lookup key = none ∧ sections.lookup key = none ∨
      ∃ x r, entries.lookup key = some x ∧ build x = .ok r ∧
        sections.lookup key = some (.record r) := by
  unfold readSection at read
  cases given : entries.lookup key with
  | none =>
    simp only [given, Except.ok.injEq] at read
    exact .inl ⟨rfl, read ▸ given⟩
  | some x =>
    simp only [given, bind_eq_ok, pure_eq_ok] at read
    obtain ⟨r, built, rfl⟩ := read
    refine .inr ⟨x, r, rfl, built, ?_⟩
    rw [lookup_map_replace, if_pos rfl, given]
    rfl

theorem readSection_failsOnly {faults : Error → Prop}
    (built : ∀ x, entries.lookup key = some x → FailsOnly faults (build x)) :
    FailsOnly faults (readSection key build entries) := by
  unfold readSection
  split
  · exact .ok _
  · rename_i x given
    exact (built x given).bind fun _ => .ok _

end Sections

theorem ReferralTerms.ofMapping_eq_ok {t : ReferralTerms Term} :
    ofMapping x = .ok t ↔ ∃ entries, x = .mapping entries ∧ ofEntries entries = .ok t := by
  simp only [ofMapping, bind_eq_ok, entriesOf_eq_ok, checkKeys_eq_ok, exists_const]
  refine exists_congr fun entries => and_congr_right fun _ => and_iff_right_of_imp fun built => ?_
  exact (ofEntries_eq_ok.mp built).1

theorem FillerTerms.ofMapping_eq_ok {t : FillerTerms Term} :
    ofMapping x = .ok t ↔ ∃ entries, x = .mapping entries ∧ ofEntries entries = .ok t := by
  simp only [ofMapping, bind_eq_ok, entriesOf_eq_ok, checkKeys_eq_ok, exists_const]
  refine exists_congr fun entries => and_congr_right fun _ => and_iff_right_of_imp fun built => ?_
  exact (ofEntries_eq_ok.mp built).1

/-- A value gives an integer that is too long to be written in the place of a term. -/
def Part.GivesLong (part : Part) (x : Value) : Prop :=
  ∃ path ∈ part.termPaths, ∃ y, x.get? path = some y ∧ y.IsLong

theorem Part.givesLong_of_lookup {part : Part} {field : String} (path : [field] ∈ part.termPaths)
    (given : entries.lookup field = some x) (isLong : x.IsLong) :
    part.GivesLong (.mapping entries) :=
  ⟨[field], path, x, by simp [Value.get?, Value.member?, given], isLong⟩

/-- The fields of a schedule that are terms are no sections. -/
theorem ne_section_of_termPath {field : String} (path : [field] ∈ Part.schedule.termPaths) :
    field ≠ "referral_discount" ∧ field ≠ "filler_reward_structure" := by
  have others : ∀ path ∈ Part.schedule.termPaths,
      path ≠ ["referral_discount"] ∧ path ≠ ["filler_reward_structure"] := by decide
  obtain ⟨notReferral, notFiller⟩ := others _ path
  exact ⟨fun same => notReferral (same ▸ rfl), fun same => notFiller (same ▸ rfl)⟩

section Failing

variable {faults : Error → Prop} (config : ∀ fault, faults (.config fault))

include config

theorem ReferralTerms.ofMapping_failsOnly
    (long : Part.referral.GivesLong x → faults .longInteger) : FailsOnly faults (ofMapping x) := by
  refine (entriesOf_failsOnly config).bind_of_ok fun entries read => ?_
  obtain rfl := entriesOf_eq_ok.mp read
  refine (checkKeys_failsOnly config).bind_of_ok fun _ known => ?_
  exact ofEntries_failsOnly config
    (fun _ path _ given isLong => long (Part.givesLong_of_lookup path given isLong))
    (checkKeys_eq_ok.mp known)

theorem FillerTerms.ofMapping_failsOnly
    (long : Part.filler.GivesLong x → faults .longInteger) : FailsOnly faults (ofMapping x) := by
  refine (entriesOf_failsOnly config).bind_of_ok fun entries read => ?_
  obtain rfl := entriesOf_eq_ok.mp read
  refine (checkKeys_failsOnly config).bind_of_ok fun _ known => ?_
  exact ofEntries_failsOnly config
    (fun _ path _ given isLong => long (Part.givesLong_of_lookup path given isLong))
    (checkKeys_eq_ok.mp known)

theorem FeeSchedule.ofMapping_failsOnly
    (long : Part.schedule.GivesLong x → faults .longInteger) : FailsOnly faults (ofMapping x) := by
  refine (entriesOf_failsOnly config).bind_of_ok fun entries read => ?_
  obtain rfl := entriesOf_eq_ok.mp read
  have below {part : Part} {key : String} (nested : ∀ path ∈ part.termPaths,
      key :: path ∈ Part.schedule.termPaths) (x : Value) (given : entries.lookup key = some x)
      (isLong : part.GivesLong x) : faults .longInteger := by
    obtain ⟨path, member, y, reached, isLong⟩ := isLong
    exact long ⟨key :: path, nested path member, y,
      by simp [Value.get?, Value.member?, given, reached], isLong⟩
  refine (readSection_failsOnly fun x given => ?referral).bind_of_ok fun withReferral referral => ?_
  case referral =>
    exact (ReferralTerms.ofMapping_failsOnly config (below (by decide) x given)).bind fun _ => .ok _
  refine (readSection_failsOnly fun x given => ?filler).bind_of_ok fun sections filler => ?_
  case filler =>
    rw [lookup_of_readSection referral (by decide)] at given
    exact (FillerTerms.ofMapping_failsOnly config (below (by decide) x given)).bind fun _ => .ok _
  refine (checkKeys_failsOnly config).bind_of_ok fun _ known => ?_
  refine ofEntries_failsOnly config (fun field path x given isLong => ?_) (checkKeys_eq_ok.mp known)
  obtain ⟨notReferral, notFiller⟩ := ne_section_of_termPath path
  rw [lookup_of_readSection filler notFiller, lookup_of_readSection referral notReferral] at given
  exact long (Part.givesLong_of_lookup path given isLong)

end Failing

theorem ofMapping_section (flat : part ≠ .schedule) : part.ofMapping x = .ok r ↔
    ∃ entries, x = .mapping entries ∧ Record.ofEntries entries part.kind = .ok r := by
  cases part with
  | schedule => exact absurd rfl flat
  | referral =>
    simp only [Part.ofMapping, Part.kind, Record.ofEntries, bind_eq_ok, pure_eq_ok,
      ReferralTerms.ofMapping_eq_ok]
    constructor
    · rintro ⟨t, ⟨entries, rfl, built⟩, rfl⟩
      exact ⟨entries, rfl, t, built, rfl⟩
    · rintro ⟨entries, rfl, t, built, rfl⟩
      exact ⟨t, ⟨entries, rfl, built⟩, rfl⟩
  | filler =>
    simp only [Part.ofMapping, Part.kind, Record.ofEntries, bind_eq_ok, pure_eq_ok,
      FillerTerms.ofMapping_eq_ok]
    constructor
    · rintro ⟨t, ⟨entries, rfl, built⟩, rfl⟩
      exact ⟨entries, rfl, t, built, rfl⟩
    · rintro ⟨entries, rfl, t, built, rfl⟩
      exact ⟨t, ⟨entries, rfl, built⟩, rfl⟩

/-- What a schedule is built from holds, below the key of a section, what was given there or else
the standard terms. -/
theorem get?_section (part : Part) (flat : part ≠ .schedule) {key name : String}
    {sections : Entries} (field : [name] ∈ part.termPaths)
    (read : entries.lookup key = none ∧ sections.lookup key = none ∨
      ∃ x r, entries.lookup key = some x ∧ part.ofMapping x = .ok r ∧
        sections.lookup key = some (.record r)) :
    ((Value.mapping sections).get? [key, name]).or ((Value.record part.standard).get? [name]) =
      ((Value.mapping entries).get? [key, name]).or
        ((Value.record part.standard).get? [name]) := by
  obtain ⟨none, none'⟩ | ⟨x, r, given, built, placed⟩ := read
  · simp only [Value.get?, Value.member?, none, none']
  · obtain ⟨entries', rfl, filled⟩ := (ofMapping_section flat).mp built
    change (((sections.lookup key).bind fun y => y.get? [name])).or _ =
      ((entries.lookup key).bind fun y => y.get? [name]).or _
    rw [given, placed, Option.bind_some, Option.bind_some, get?_of_ofEntries filled field,
      Option.or_assoc, Option.or_self]

theorem get?_of_ofMapping (built : part.ofMapping x = .ok r) {path : List String}
    (member : path ∈ part.termPaths) :
    (Value.record r).get? path = (x.get? path).or ((Value.record part.standard).get? path) := by
  by_cases flat : part = .schedule
  · subst flat
    simp only [Part.ofMapping, FeeSchedule.ofMapping, bind_eq_ok, pure_eq_ok, entriesOf_eq_ok]
      at built
    obtain ⟨s, ⟨entries, rfl, withReferral, referral, sections, filler, _, _, built⟩, rfl⟩ := built
    have filled : Record.ofEntries sections Part.schedule.kind = .ok (.schedule s) :=
      bind_eq_ok.mpr ⟨s, built, rfl⟩
    rw [get?_of_ofEntries filled member]
    simp only [Part.termPaths, List.mem_append, List.mem_map] at member
    obtain (⟨name, top, rfl⟩ | ⟨name, field, rfl⟩) | ⟨name, field, rfl⟩ := member
    · obtain ⟨notReferral, notFiller⟩ := ne_section_of_termPath
        (List.mem_append_left _ (List.mem_append_left _ (List.mem_map_of_mem top)))
      simp only [Value.get?, Value.member?, lookup_of_readSection filler notFiller,
        lookup_of_readSection referral notReferral]
    · refine get?_section .referral Part.referral_ne_schedule (List.mem_map_of_mem field) ?_
      rw [lookup_of_readSection filler (by decide)]
      exact section_of_readSection referral
    · refine get?_section .filler Part.filler_ne_schedule (List.mem_map_of_mem field) ?_
      rw [← lookup_of_readSection referral (by decide)]
      exact section_of_readSection filler
  · obtain ⟨entries, rfl, filled⟩ := (ofMapping_section flat).mp built
    exact get?_of_ofEntries filled member

end Terms

/-- A way to build a schedule or a section: from values for some of its fields, from a mapping, or
from an old one with some fields changed. -/
inductive Construction where
  | fields (part : Part) (entries : Entries) (known : ∀ e ∈ entries, e.1 ∈ part.kind.fieldNames)
  | mapping (part : Part) (x : Value)
  | changed (part : Part) (old : Record) (kind : old.kind = .record part.kind) (changes : Entries)
      (known : ∀ e ∈ changes, e.1 ∈ part.kind.fieldNames)

namespace Construction

def part : Construction → Part
  | fields part .. | mapping part _ | changed part .. => part

/-- The values that a construction starts from. What is not changed in an old record is given by
it. -/
def given : Construction → Value
  | fields _ entries _ => .mapping entries
  | mapping _ x => x
  | changed _ old _ changes _ => .mapping (changes ++ old.fields)

def build : Construction → Except Error Record
  | fields part entries _ => Record.ofEntries entries part.kind
  | mapping part x => part.ofMapping x
  | changed _ old _ changes _ => old.replace changes

/-- A value is given in the place of a term. -/
def Gives (c : Construction) (x : Value) : Prop :=
  ∃ path ∈ c.part.termPaths, c.given.get? path = some x

section Replace

variable {part : Part}

theorem replace_eq {old : Record} (kind : old.kind = .record part.kind) (changes : Entries) :
    old.replace changes = Record.ofEntries (changes ++ old.fields) part.kind := by
  cases part <;> cases old <;> cases kind <;> rfl

theorem known_append {old : Record} (kind : old.kind = .record part.kind) {changes : Entries}
    (known : ∀ e ∈ changes, e.1 ∈ part.kind.fieldNames) :
    ∀ e ∈ changes ++ old.fields, e.1 ∈ part.kind.fieldNames := by
  intro e member
  obtain change | field := List.mem_append.mp member
  · exact known e change
  · exact part.known_fields kind e field

end Replace

variable {c : Construction} {r : Record}

theorem build_failsOnly (c : Construction) {faults : Error → Prop}
    (config : ∀ fault, faults (.config fault))
    (long : c.part.GivesLong c.given → faults .longInteger) : FailsOnly faults c.build := by
  cases c with
  | fields part entries known =>
    exact Record.ofEntries_failsOnly config
      (fun _ path _ given isLong => long (Part.givesLong_of_lookup path given isLong)) known
  | mapping part x =>
    cases part with
    | schedule => exact (FeeSchedule.ofMapping_failsOnly config long).bind fun _ => .ok _
    | referral => exact (ReferralTerms.ofMapping_failsOnly config long).bind fun _ => .ok _
    | filler => exact (FillerTerms.ofMapping_failsOnly config long).bind fun _ => .ok _
  | changed part old kind changes known =>
    rw [build, replace_eq kind]
    exact Record.ofEntries_failsOnly config
      (fun _ path _ given isLong => long (Part.givesLong_of_lookup path given isLong))
      (known_append kind known)

/-- A construction fails by configuration, or because it was given an integer for a term that is
too long to be written. -/
theorem build_fails (c : Construction) :
    ∀ e, c.build = .error e →
      (∃ fault, e = .config fault) ∨ e = .longInteger ∧ ∃ x, c.Gives x ∧ x.IsLong := by
  refine build_failsOnly c (fun fault => .inl ⟨fault, rfl⟩) ?_
  rintro ⟨path, member, x, given, isLong⟩
  exact .inr ⟨rfl, x, ⟨path, member, given⟩, isLong⟩

theorem kind_of_build (built : c.build = .ok r) : r.kind = .record c.part.kind := by
  cases c with
  | fields part entries known => exact (Record.ofEntries_eq_ok.mp built).2.1
  | mapping part x =>
    cases part <;> obtain ⟨_, _, same⟩ := bind_eq_ok.mp built <;> cases same <;> rfl
  | changed part old kind changes known =>
    rw [build, replace_eq kind] at built
    exact (Record.ofEntries_eq_ok.mp built).2.1

theorem get?_of_build (built : c.build = .ok r) {path : List String}
    (member : path ∈ c.part.termPaths) :
    (Value.record r).get? path =
      (c.given.get? path).or ((Value.record c.part.standard).get? path) := by
  cases c with
  | fields part entries known => exact get?_of_ofEntries built member
  | mapping part x => exact get?_of_ofMapping built member
  | changed part old kind changes known =>
    rw [build, replace_eq kind] at built
    exact get?_of_ofEntries built member

theorem standard_isPlain (part : Part) : ∀ t ∈ part.standard.terms, t.IsPlain := by
  have plain : ∃ ns : List U128, part.standard.terms = ns.map .plain := by
    cases part with
    | schedule => exact ⟨FeeSchedule.standard.terms, rfl⟩
    | referral => exact ⟨ReferralTerms.standard.terms, rfl⟩
    | filler => exact ⟨FillerTerms.standard.terms, rfl⟩
  obtain ⟨ns, terms⟩ := plain
  intro t member
  rw [terms] at member
  obtain ⟨n, _, rfl⟩ := List.mem_map.mp member
  exact ⟨n, rfl⟩

/-- Records and their classes, which are kept as terms whatever they hold. -/
inductive Unchecked : Value → Prop
  | record (r : Record) : Unchecked (.record r)
  | type (c : RecordClass) : Unchecked (.type c)

/-- The terms that are not plain are the unchecked values given in the place of terms. -/
theorem gives_toValue_iff (built : c.build = .ok r) {t : Term} (notPlain : ¬ t.IsPlain) :
    c.Gives t.toValue ↔ t ∈ r.terms := by
  have kind := kind_of_build built
  constructor
  · rintro ⟨path, member, given⟩
    obtain ⟨t', term, reached⟩ := Part.exists_term kind member
    rw [get?_of_build built member, given, Option.some_or, Option.some.injEq] at reached
    obtain rfl := Term.toValue_inj.mp reached
    exact term
  · intro term
    obtain ⟨path, member, reached⟩ := Part.exists_path kind term
    refine ⟨path, member, ?_⟩
    rw [get?_of_build built member] at reached
    cases given : c.given.get? path with
    | some x => simpa [given] using reached
    | none =>
      -- The standard terms are plain.
      obtain ⟨t', standard, placed⟩ :=
        Part.exists_term (r := c.part.standard) (by cases c.part <;> rfl) member
      rw [given, Option.none_or, placed, Option.some.injEq] at reached
      obtain rfl := Term.toValue_inj.mp reached
      exact absurd (standard_isPlain _ _ standard) notPlain

theorem unchecked_iff {x : Value} : Unchecked x ↔ ∃ t : Term, ¬ t.IsPlain ∧ x = t.toValue := by
  constructor
  · rintro (⟨r⟩ | ⟨c⟩)
    · exact ⟨.record r, nofun, rfl⟩
    · exact ⟨.type c, nofun, rfl⟩
  · rintro ⟨t, notPlain, rfl⟩
    cases t with
    | plain n => exact absurd ⟨n, rfl⟩ notPlain
    | record r => exact .record r
    | type c => exact .type c

theorem isPlain_iff (built : c.build = .ok r) :
    (∀ t ∈ r.terms, t.IsPlain) ↔ ∀ x, c.Gives x → ¬ Unchecked x := by
  constructor
  · intro plain x gives unchecked
    obtain ⟨t, notPlain, rfl⟩ := unchecked_iff.mp unchecked
    exact notPlain (plain t ((gives_toValue_iff built notPlain).mp gives))
  · intro checked t term
    by_contra notPlain
    exact checked _ ((gives_toValue_iff built notPlain).mpr term)
      (unchecked_iff.mpr ⟨t, notPlain, rfl⟩)

/-- Whatever the construction, it fails by configuration, or because an integer given for a term is
too long to be written; and it does so for every value in the place of a term that is neither an
integer in the range of an amount nor a record or a class. The terms of what it builds are plain
exactly if it was given no record and no class for a term; and fees under a schedule fail otherwise
than by arithmetic only by an integer too long to be written or by a kind mismatch of such a
term. -/
theorem validates_all_but_records (c : Construction) :
    (∀ e, c.build = .error e →
      (∃ fault, e = .config fault) ∨ e = .longInteger ∧ ∃ x, c.Gives x ∧ x.IsLong) ∧
    (∀ x, c.Gives x → (∀ n : U128, x ≠ .int n.val) → ¬ Unchecked x →
      (∃ fault, c.build = .error (.config fault)) ∨
        c.build = .error .longInteger ∧ ∃ x, c.Gives x ∧ x.IsLong) ∧
    (∀ r, c.build = .ok r → ((∀ t ∈ r.terms, t.IsPlain) ↔ ∀ x, c.Gives x → ¬ Unchecked x)) ∧
    ∀ s, c.build = .ok (.schedule s) → ∀ (t : Trade) e, (t.fill.fees s).result = .error e →
      (∃ fault, e = .arithmetic fault) ∨ (e = .longInteger ∧ ∃ n ∈ t.given, ¬ Text.IsShort n) ∨
        ∃ x, c.Gives x ∧ Unchecked x ∧ x.kind ≠ .checked .u128 ∧ ∃ fault, e = .mismatch fault := by
  refine ⟨build_fails c, ?refuses, fun r built => isPlain_iff built, ?fees⟩
  case refuses =>
    intro x gives noAmount checked
    cases built : c.build with
    | error e =>
      obtain ⟨fault, rfl⟩ | ⟨rfl, long⟩ := build_fails c e built
      · exact .inl ⟨fault, rfl⟩
      · exact .inr ⟨rfl, long⟩
    | ok r =>
      obtain ⟨path, member, given⟩ := gives
      obtain ⟨t, _, reached⟩ := Part.exists_term (kind_of_build built) member
      rw [get?_of_build built member, given, Option.some_or, Option.some.injEq] at reached
      subst reached
      cases t with
      | plain n => exact absurd rfl (noAmount n)
      | record q => exact absurd (.record q) checked
      | type q => exact absurd (.type q) checked
  case fees =>
    intro s built t
    let faults (e : Error) : Prop :=
      (∃ fault, e = .arithmetic fault) ∨ (e = .longInteger ∧ ∃ n ∈ t.given, ¬ Text.IsShort n) ∨
        ∃ x, c.Gives x ∧ Unchecked x ∧ x.kind ≠ .checked .u128 ∧ ∃ fault, e = .mismatch fault
    have reads : ∀ x ∈ s.terms, x.ReadsOnly faults := by
      intro x term
      refine (Term.readsOnly_refused x).mono fun e refused => ?_
      obtain ⟨notPlain, noAmount, mismatch⟩ := refused.mismatch
      exact .inr (.inr ⟨x.toValue, (gives_toValue_iff built notPlain).mpr term,
        unchecked_iff.mpr ⟨x, notPlain, rfl⟩, noAmount, mismatch⟩)
    exact Trade.fees_failsOnly (fun fault => .inl ⟨fault, rfl⟩) reads t
      fun n member long => .inr (.inl ⟨rfl, n, member, long⟩)

/-- A truth value is no numerator of a fee. -/
theorem truth_value_refused :
    ∃ fault, Record.ofEntries [("fee_numerator", .bool true)] .schedule = .error (.config fault) := by
  let c : Construction := fields .schedule [("fee_numerator", .bool true)] (by decide)
  have gives : c.Gives (.bool true) := ⟨["fee_numerator"], by decide, rfl⟩
  obtain fault | ⟨failed, _⟩ :=
    (validates_all_but_records c).2.1 _ gives (fun n same => by cases same) nofun
  · exact fault
  · cases failed

/-- A section given for the numerator of the fee is kept, and the fees of a fill then fail by a
mismatch. -/
theorem record_term_reaches_fees :
    ∃ s : Schedule,
      Record.ofEntries [("fee_numerator", .record (.referral (ReferralTerms.standard.map .plain)))]
        .schedule = .ok (.schedule s) ∧
      (((Trade.matched ⟨100, 0, 0, false, false⟩).fill).fees s).result =
        .error (.mismatch (.construction .u128 (.record .referral))) :=
  ⟨{ FeeSchedule.standard.map .plain with
      fee := ⟨.record (.referral (ReferralTerms.standard.map .plain)),
        .plain FeeSchedule.standard.fee.denominator⟩ }, rfl, rfl⟩

end Construction
end ExchangeFees
