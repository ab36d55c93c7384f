import ExchangeFees.Record.Build
import ExchangeFees.Proofs.Terms

/-! What building a schedule or one of its sections gives. It takes entries whose names are all
fields, and the record holds under each name what the entries give or else what the standard
record holds. Values that make no term are faults of configuration. A fee breakdown is built from
its own fields. -/
namespace ExchangeFees

def Error.IsConfig (e : Error) : Prop := ∃ fault, e = .config fault

theorem checkNames_eq_ok {owner : Kind} {names : List String} {entries : Entries} {u : Unit} :
    checkNames owner names entries = .ok u ↔ ∀ e ∈ entries, e.1 ∈ names := by
  unfold checkNames
  cases found : entries.find? fun e => !names.contains e.1 with
  | none => simpa using found
  | some e =>
    constructor
    · nofun
    · intro known
      have unknown := List.find?_some found
      have member := known e (List.mem_of_find?_eq_some found)
      simp [member] at unknown

namespace Term

variable {record : RecordKind} {field : String} {standard : U128} {entries : Entries} {x : Value}
  {t : Term} {faults : Error → Prop}

theorem ofValue_eq_ok : ofValue record field x = .ok t ↔ x = t.toValue := by
  cases x with
  | int n =>
    simp only [ofValue]
    split
    · cases t with
      | plain m => simp [toValue, Checked.ext_iff]
      | record r => simp [toValue]
      | type c => simp [toValue]
    · rename_i outside
      constructor
      · intro kept
        cases kept
      · intro same
        cases t with
        | plain m =>
          cases same
          exact absurd ⟨m.lo_le, m.le_hi⟩ outside
        | record r => cases same
        | type c => cases same
  | record r => cases t <;> simp [ofValue, toValue, eq_comm]
  | type c => cases t <;> simp [ofValue, toValue, eq_comm]
  | _ => cases t <;> simp [ofValue, toValue]

theorem ofValue_failsOnly (config : ∀ fault, faults (.config fault))
    (long : x.IsLong → faults .longInteger) : FailsOnly faults (ofValue record field x) := by
  cases x with
  | int n =>
    simp only [ofValue]
    split
    · exact .ok _
    · refine .error ?_
      by_cases short : Text.IsShort n
      · rw [Error.naming_of_short short]
        exact config _
      · rw [Error.naming_of_long short]
        exact long ⟨n, rfl, short⟩
  | record r => exact .ok _
  | type c => exact .ok _
  | _ => exact .error (config _)

theorem under_eq_ok : under record field standard entries = .ok t ↔
    t.toValue = (entries.lookup field).getD (.int standard.val) := by
  unfold under
  cases entries.lookup field with
  | some x => exact ofValue_eq_ok.trans eq_comm
  | none => cases t <;> simp [toValue, Checked.ext_iff, eq_comm]

theorem under_failsOnly (config : ∀ fault, faults (.config fault))
    (long : ∀ x, entries.lookup field = some x → x.IsLong → faults .longInteger) :
    FailsOnly faults (under record field standard entries) := by
  unfold under
  split
  · rename_i x given
    exact ofValue_failsOnly config (long x given)
  · exact .ok _

end Term

namespace Ratio

variable {record : RecordKind} {numerator denominator : String} {standard : Ratio U128}
  {entries : Entries} {r : Ratio Term}

theorem under_eq_ok : under record numerator denominator standard entries = .ok r ↔
    r.numerator.toValue = (entries.lookup numerator).getD (.int standard.numerator.val) ∧
      r.denominator.toValue =
        (entries.lookup denominator).getD (.int standard.denominator.val) := by
  simp only [under, bind_eq_ok, pure_eq_ok, Term.under_eq_ok]
  constructor
  · rintro ⟨n, top, d, bottom, rfl⟩
    exact ⟨top, bottom⟩
  · rintro ⟨top, bottom⟩
    exact ⟨_, top, _, bottom, rfl⟩

theorem under_failsOnly {faults : Error → Prop} (config : ∀ fault, faults (.config fault))
    (top : ∀ x, entries.lookup numerator = some x → x.IsLong → faults .longInteger)
    (bottom : ∀ x, entries.lookup denominator = some x → x.IsLong → faults .longInteger) :
    FailsOnly faults (under record numerator denominator standard entries) :=
  (Term.under_failsOnly config top).bind fun _ =>
    (Term.under_failsOnly config bottom).bind fun _ => .ok _

end Ratio

/-- A fee schedule or one of its two sections. -/
inductive Part where
  | schedule
  | referral
  | filler

def Part.kind : Part → RecordKind
  | schedule => .schedule
  | referral => .referral
  | filler => .filler

def Value.member? : Value → String → Option Value
  | .mapping entries, name => entries.lookup name
  | .record r, name => r.fields.lookup name
  | _, _ => .none

/-- The value at a path of names. -/
def Value.get? : Value → List String → Option Value
  | x, [] => some x
  | x, name :: rest => (x.member? name).bind fun y => y.get? rest

/-- The paths to the terms, in their order. -/
def Part.termPaths : Part → List (List String)
  | schedule =>
    ["fee_numerator", "fee_denominator", "maker_rebate_numerator",
      "maker_rebate_denominator"].map ([·]) ++
    RecordKind.referral.fieldNames.map (["referral_discount", ·]) ++
    RecordKind.filler.fieldNames.map (["filler_reward_structure", ·])
  | referral => RecordKind.referral.fieldNames.map ([·])
  | filler => RecordKind.filler.fieldNames.map ([·])

/-- The record that stands in for what is not given. -/
def Part.standard : Part → Record
  | schedule => .schedule (FeeSchedule.standard.map .plain)
  | referral => .referral (ReferralTerms.standard.map .plain)
  | filler => .filler (FillerTerms.standard.map .plain)

/-- The fields of a record with the values that entries give in their places. -/
def Record.overlay (base : Record) (entries : Entries) : Entries :=
  base.fields.map fun f => (f.1, (entries.lookup f.1).getD f.2)

variable {entries : Entries}

theorem Record.lookup_overlay (base : Record) (entries : Entries) (name : String) :
    (base.overlay entries).lookup name =
      (base.fields.lookup name).map fun x => (entries.lookup name).getD x := by
  unfold overlay
  induction base.fields with
  | nil => rfl
  | cons f rest ih =>
    obtain ⟨own, x⟩ := f
    simp only [List.map_cons, List.lookup_cons]
    cases here : name == own with
    | true => simp [eq_of_beq here]
    | false => exact ih

theorem checkNames_failsOnly {owner : Kind} {names : List String} {faults : Error → Prop}
    (known : ∀ e ∈ entries, e.1 ∈ names) : FailsOnly faults (checkNames owner names entries) := by
  rw [checkNames_eq_ok.mpr known]
  exact .ok ()

theorem ReferralTerms.ofEntries_eq_ok {t : ReferralTerms Term} :
    ofEntries entries = .ok t ↔
      (∀ e ∈ entries, e.1 ∈ RecordKind.referral.fieldNames) ∧
        (Record.referral t).fields = (Record.referral (standard.map .plain)).overlay entries := by
  simp only [ofEntries, bind_eq_ok, pure_eq_ok, checkNames_eq_ok, Ratio.under_eq_ok, exists_const]
  refine and_congr_right fun _ => ?_
  simp only [Record.overlay, Record.fields, Record.kind, Kind.fieldNames, Record.fieldValues,
    RecordKind.fieldNames, List.zip_cons_cons, List.zip_nil_right, List.map_cons, List.map_nil,
    List.cons.injEq, Prod.mk.injEq, true_and, and_true]
  constructor
  · rintro ⟨referrer, ⟨top, bottom⟩, referee, ⟨top', bottom'⟩, rfl⟩
    exact ⟨top, bottom, top', bottom'⟩
  · rintro ⟨top, bottom, top', bottom'⟩
    exact ⟨t.referrerReward, ⟨top, bottom⟩, t.refereeDiscount, ⟨top', bottom'⟩, rfl⟩

theorem FillerTerms.ofEntries_eq_ok {t : FillerTerms Term} :
    ofEntries entries = .ok t ↔
      (∀ e ∈ entries, e.1 ∈ RecordKind.filler.fieldNames) ∧
        (Record.filler t).fields = (Record.filler (standard.map .plain)).overlay entries := by
  simp only [ofEntries, bind_eq_ok, pure_eq_ok, checkNames_eq_ok, Ratio.under_eq_ok,
    Term.under_eq_ok, exists_const]
  refine and_congr_right fun _ => ?_
  simp only [Record.overlay, Record.fields, Record.kind, Kind.fieldNames, Record.fieldValues,
    RecordKind.fieldNames, List.zip_cons_cons, List.zip_nil_right, List.map_cons, List.map_nil,
    List.cons.injEq, Prod.mk.injEq, true_and, and_true]
  constructor
  · rintro ⟨reward, ⟨top, bottom⟩, least, bound, rfl⟩
    exact ⟨top, bottom, bound⟩
  · rintro ⟨top, bottom, bound⟩
    exact ⟨t.reward, ⟨top, bottom⟩, t.lowerBound, bound, rfl⟩

theorem ReferralTerms.under_eq_ok {t : ReferralTerms Term} :
    under entries = .ok t ↔
      .record (.referral t) = (entries.lookup "referral_discount").getD
        (.record (.referral (standard.map .plain))) := by
  unfold under
  cases entries.lookup "referral_discount" with
  | none => simp [eq_comm]
  | some x =>
    cases x with
    | record r => cases r <;> simp [eq_comm]
    | _ => simp

theorem FillerTerms.under_eq_ok {t : FillerTerms Term} :
    under entries = .ok t ↔
      .record (.filler t) = (entries.lookup "filler_reward_structure").getD
        (.record (.filler (standard.map .plain))) := by
  unfold under
  cases entries.lookup "filler_reward_structure" with
  | none => simp [eq_comm]
  | some x =>
    cases x with
    | record r => cases r <;> simp [eq_comm]
    | _ => simp

theorem FeeSchedule.ofEntries_eq_ok {s : Schedule} :
    ofEntries entries = .ok s ↔
      (∀ e ∈ entries, e.1 ∈ RecordKind.schedule.fieldNames) ∧
        (Record.schedule s).fields = (Record.schedule (standard.map .plain)).overlay entries := by
  simp only [ofEntries, bind_eq_ok, pure_eq_ok, checkNames_eq_ok, Ratio.under_eq_ok,
    ReferralTerms.under_eq_ok, FillerTerms.under_eq_ok, exists_const]
  refine and_congr_right fun _ => ?_
  simp only [Record.overlay, Record.fields, Record.kind, Kind.fieldNames, Record.fieldValues,
    RecordKind.fieldNames, List.zip_cons_cons, List.zip_nil_right, List.map_cons, List.map_nil,
    List.cons.injEq, Prod.mk.injEq, true_and, and_true]
  constructor
  · rintro ⟨referral, shares, filler, reward, fee, ⟨top, bottom⟩, rebate, ⟨top', bottom'⟩, rfl⟩
    exact ⟨top, bottom, top', bottom', shares, reward⟩
  · rintro ⟨top, bottom, top', bottom', shares, reward⟩
    exact ⟨s.referral, shares, s.filler, reward, s.fee, ⟨top, bottom⟩, s.makerRebate,
      ⟨top', bottom'⟩, rfl⟩

/-- A part is built exactly from known names, and its fields are the standard ones with what the
entries give in their places. -/
theorem Record.ofEntries_eq_ok {part : Part} {r : Record} :
    ofEntries entries part.kind = .ok r ↔
      (∀ e ∈ entries, e.1 ∈ part.kind.fieldNames) ∧ r.kind = .record part.kind ∧
        r.fields = part.standard.overlay entries := by
  cases part with
  | schedule =>
    simp only [ofEntries, Part.kind, bind_eq_ok, pure_eq_ok, FeeSchedule.ofEntries_eq_ok]
    constructor
    · rintro ⟨s, ⟨known, fields⟩, rfl⟩
      exact ⟨known, rfl, fields⟩
    · rintro ⟨known, kind, fields⟩
      cases r <;> cases kind
      exact ⟨_, ⟨known, fields⟩, rfl⟩
  | referral =>
    simp only [ofEntries, Part.kind, bind_eq_ok, pure_eq_ok, ReferralTerms.ofEntries_eq_ok]
    constructor
    · rintro ⟨t, ⟨known, fields⟩, rfl⟩
      exact ⟨known, rfl, fields⟩
    · rintro ⟨known, kind, fields⟩
      cases r <;> cases kind
      exact ⟨_, ⟨known, fields⟩, rfl⟩
  | filler =>
    simp only [ofEntries, Part.kind, bind_eq_ok, pure_eq_ok, FillerTerms.ofEntries_eq_ok]
    constructor
    · rintro ⟨t, ⟨known, fields⟩, rfl⟩
      exact ⟨known, rfl, fields⟩
    · rintro ⟨known, kind, fields⟩
      cases r <;> cases kind
      exact ⟨_, ⟨known, fields⟩, rfl⟩

section Failing

variable {faults : Error → Prop} (config : ∀ fault, faults (.config fault))

include config

theorem ReferralTerms.ofEntries_failsOnly
    (long : ∀ field, [field] ∈ Part.referral.termPaths → ∀ x, entries.lookup field = some x →
      x.IsLong → faults .longInteger)
    (known : ∀ e ∈ entries, e.1 ∈ RecordKind.referral.fieldNames) :
    FailsOnly faults (ofEntries entries) := by
  refine (checkNames_failsOnly known).bind fun _ => ?_
  refine (Ratio.under_failsOnly config (long _ (by decide)) (long _ (by decide))).bind fun _ => ?_
  exact (Ratio.under_failsOnly config (long _ (by decide)) (long _ (by decide))).bind fun _ => .ok _

theorem FillerTerms.ofEntries_failsOnly
    (long : ∀ field, [field] ∈ Part.filler.termPaths → ∀ x, entries.lookup field = some x →
      x.IsLong → faults .longInteger)
    (known : ∀ e ∈ entries, e.1 ∈ RecordKind.filler.fieldNames) :
    FailsOnly faults (ofEntries entries) := by
  refine (checkNames_failsOnly known).bind fun _ => ?_
  refine (Ratio.under_failsOnly config (long _ (by decide)) (long _ (by decide))).bind fun _ => ?_
  exact (Term.under_failsOnly config (long _ (by decide))).bind fun _ => .ok _

theorem ReferralTerms.under_failsOnly : FailsOnly faults (under entries) := by
  unfold under
  split
  · exact .ok _
  · exact .error (config _)
  · exact .ok _

theorem FillerTerms.under_failsOnly : FailsOnly faults (under entries) := by
  unfold under
  split
  · exact .ok _
  · exact .error (config _)
  · exact .ok _

theorem FeeSchedule.ofEntries_failsOnly
    (long : ∀ field, [field] ∈ Part.schedule.termPaths → ∀ x, entries.lookup field = some x →
      x.IsLong → faults .longInteger)
    (known : ∀ e ∈ entries, e.1 ∈ RecordKind.schedule.fieldNames) :
    FailsOnly faults (ofEntries entries) := by
  refine (checkNames_failsOnly known).bind fun _ => ?_
  refine (ReferralTerms.under_failsOnly config).bind fun _ => ?_
  refine (FillerTerms.under_failsOnly config).bind fun _ => ?_
  refine (Ratio.under_failsOnly config (long _ (by decide)) (long _ (by decide))).bind fun _ => ?_
  exact (Ratio.under_failsOnly config (long _ (by decide)) (long _ (by decide))).bind fun _ => .ok _

theorem Record.ofEntries_failsOnly {part : Part}
    (long : ∀ field, [field] ∈ part.termPaths → ∀ x, entries.lookup field = some x →
      x.IsLong → faults .longInteger)
    (known : ∀ e ∈ entries, e.1 ∈ part.kind.fieldNames) :
    FailsOnly faults (ofEntries entries part.kind) := by
  cases part with
  | schedule => exact (FeeSchedule.ofEntries_failsOnly config long known).bind fun _ => .ok _
  | referral => exact (ReferralTerms.ofEntries_failsOnly config long known).bind fun _ => .ok _
  | filler => exact (FillerTerms.ofEntries_failsOnly config long known).bind fun _ => .ok _

end Failing

theorem Checked.under_eq_ok {record : RecordKind} {field : String} {w : Width} {n : Checked w} :
    under record field w entries = .ok n ↔ entries.lookup field = some (.int n.val) := by
  unfold under
  cases entries.lookup field with
  | some x =>
    cases x with
    | int m => simp [within_eq_ok, eq_comm (a := m)]
    | _ => simp
  | none => simp

/-- The amounts of a breakdown are within the bounds of its fields. -/
theorem Record.ofEntries_fill (b : FillBreakdown) :
    ofEntries (fill b).fields .fill = .ok (fill b) := by
  have built : FillBreakdown.ofEntries (fill b).fields = .ok b := by
    simp only [FillBreakdown.ofEntries, bind_eq_ok, pure_eq_ok, Checked.under_eq_ok]
    exact ⟨(), rfl, (), rfl, b.userFee, rfl, b.makerRebate, rfl, b.fillerReward, rfl,
      b.refereeDiscount, rfl, b.referrerReward, rfl, b.feeToMarket, rfl, b.feeToMarketForLp, rfl,
      rfl⟩
  rw [ofEntries, built]
  rfl

theorem Record.ofEntries_venueFill (b : VenueBreakdown) :
    ofEntries (venueFill b).fields .venueFill = .ok (venueFill b) := by
  have built : VenueBreakdown.ofEntries (venueFill b).fields = .ok b := by
    simp only [VenueBreakdown.ofEntries, bind_eq_ok, pure_eq_ok, Checked.under_eq_ok]
    exact ⟨(), rfl, (), rfl, b.userFee, rfl, b.feeToMarket, rfl, b.fillerReward, rfl,
      b.feePoolDelta, rfl, rfl⟩
  rw [ofEntries, built]
  rfl

end ExchangeFees
