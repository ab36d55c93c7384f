import ExchangeFees.Checked.Operand
import ExchangeFees.Record.Fields

/-!
Building records from named values. A schedule and its sections take their standard term for a name
that is missing, and keep as a term any integer in the range of an amount and any record or class of
records, whatever it holds; what a term cannot do shows when it is used. A fee breakdown needs all
its fields, and they are integers in range. No record takes a name that it has no field for; one
such name stands for the record itself and counts as given already.
-/
namespace ExchangeFees

/-- The name that stands for the record that is being built. No record has a field of this name. -/
def ownName : String := "self"

/-- Why a name that is no field is refused. -/
def refusedName (owner : Kind) (name : String) : Mismatch :=
  if name = ownName then .repeatedName owner name else .unexpectedField owner name

/-- Refuses a name that is no field; the first one is named. -/
def checkNames (owner : Kind) (names : List String) (entries : Entries) : Except Error Unit :=
  match entries.find? fun e => !names.contains e.1 with
  | some e => .error (.mismatch (refusedName owner e.1))
  | none => .ok ()

def checkMissing (owner : Kind) (names : List String) (entries : Entries) : Except Error Unit :=
  match names.filter fun name => (entries.lookup name).isNone with
  | [] => .ok ()
  | missing => .error (.mismatch (.missingFields owner missing))

def Term.ofValue (record : RecordKind) (field : String) : Value → Except Error Term
  | .record r => .ok (.record r)
  | .type c => .ok (.type c)
  | .int n =>
    if h : Width.u128.lo ≤ n ∧ n ≤ Width.u128.hi then .ok (.plain ⟨n, h.1, h.2⟩)
    else .error (.naming n (.config (.outOfRange record field n)))
  | x => .error (.config (.notInteger record field x.kind))

/-- The term under a name, or the standard one. -/
def Term.under (record : RecordKind) (field : String) (standard : U128) (entries : Entries) :
    Except Error Term :=
  match entries.lookup field with
  | some x => Term.ofValue record field x
  | none => .ok (.plain standard)

def Ratio.under (record : RecordKind) (numerator denominator : String) (standard : Ratio U128)
    (entries : Entries) : Except Error (Ratio Term) := do
  let n ← Term.under record numerator standard.numerator entries
  let d ← Term.under record denominator standard.denominator entries
  return ⟨n, d⟩

def ReferralTerms.ofEntries (entries : Entries) : Except Error (ReferralTerms Term) := do
  checkNames (.record .referral) RecordKind.referral.fieldNames entries
  let standard := ReferralTerms.standard
  let referrer ← Ratio.under .referral "referrer_reward_numerator" "referrer_reward_denominator"
    standard.referrerReward entries
  let referee ← Ratio.under .referral "referee_discount_numerator" "referee_discount_denominator"
    standard.refereeDiscount entries
  return ⟨referrer, referee⟩

def FillerTerms.ofEntries (entries : Entries) : Except Error (FillerTerms Term) := do
  checkNames (.record .filler) RecordKind.filler.fieldNames entries
  let standard := FillerTerms.standard
  let reward ← Ratio.under .filler "reward_numerator" "reward_denominator" standard.reward entries
  let bound ← Term.under .filler "time_based_reward_lower_bound" standard.lowerBound entries
  return ⟨reward, bound⟩

def ReferralTerms.under (entries : Entries) : Except Error (ReferralTerms Term) :=
  match entries.lookup "referral_discount" with
  | some (.record (.referral t)) => .ok t
  | some _ => .error (.config .notReferral)
  | none => .ok (ReferralTerms.standard.map .plain)

def FillerTerms.under (entries : Entries) : Except Error (FillerTerms Term) :=
  match entries.lookup "filler_reward_structure" with
  | some (.record (.filler t)) => .ok t
  | some _ => .error (.config .notFiller)
  | none => .ok (FillerTerms.standard.map .plain)

/-- Builds a schedule: the sections first, then the terms in order. -/
def FeeSchedule.ofEntries (entries : Entries) : Except Error Schedule := do
  checkNames (.record .schedule) RecordKind.schedule.fieldNames entries
  let standard := FeeSchedule.standard
  let referral ← ReferralTerms.under entries
  let filler ← FillerTerms.under entries
  let fee ← Ratio.under .schedule "fee_numerator" "fee_denominator" standard.fee entries
  let rebate ← Ratio.under .schedule "maker_rebate_numerator" "maker_rebate_denominator"
    standard.makerRebate entries
  return ⟨fee, rebate, referral, filler⟩

/-- The integer under a name of a fee breakdown, within the width of its field. -/
def Checked.under (record : RecordKind) (field : String) (w : Width) (entries : Entries) :
    Except Error (Checked w) :=
  match entries.lookup field with
  | some (.int n) => Checked.within w n (.naming n (.arithmetic (.field record field n)))
  | some x => .error (.mismatch (.field record field x.kind))
  | none => .error (.mismatch (.missingFields (.record record) [field]))

/-- Builds the breakdown of a fill. The unsigned fields are looked at first. -/
def FillBreakdown.ofEntries (entries : Entries) : Except Error FillBreakdown := do
  checkNames (.record .fill) RecordKind.fill.fieldNames entries
  checkMissing (.record .fill) RecordKind.fill.fieldNames entries
  let userFee ← Checked.under .fill "user_fee" .u128 entries
  let makerRebate ← Checked.under .fill "maker_rebate" .u128 entries
  let fillerReward ← Checked.under .fill "filler_reward" .u128 entries
  let refereeDiscount ← Checked.under .fill "referee_discount" .u128 entries
  let referrerReward ← Checked.under .fill "referrer_reward" .u128 entries
  let feeToMarket ← Checked.under .fill "fee_to_market" .i128 entries
  let feeToMarketForLp ← Checked.under .fill "fee_to_market_for_lp" .i128 entries
  return { userFee, makerRebate, feeToMarket, feeToMarketForLp, fillerReward, refereeDiscount,
           referrerReward }

def VenueBreakdown.ofEntries (entries : Entries) : Except Error VenueBreakdown := do
  checkNames (.record .venueFill) RecordKind.venueFill.fieldNames entries
  checkMissing (.record .venueFill) RecordKind.venueFill.fieldNames entries
  let userFee ← Checked.under .venueFill "user_fee" .u128 entries
  let feeToMarket ← Checked.under .venueFill "fee_to_market" .u128 entries
  let fillerReward ← Checked.under .venueFill "filler_reward" .u128 entries
  let feePoolDelta ← Checked.under .venueFill "fee_pool_delta" .i128 entries
  return { userFee, feeToMarket, feePoolDelta, fillerReward }

namespace Record

def ofEntries (entries : Entries) : RecordKind → Except Error Record
  | .schedule => do return .schedule (← FeeSchedule.ofEntries entries)
  | .referral => do return .referral (← ReferralTerms.ofEntries entries)
  | .filler => do return .filler (← FillerTerms.ofEntries entries)
  | .fill => do return .fill (← FillBreakdown.ofEntries entries)
  | .venueFill => do return .venueFill (← VenueBreakdown.ofEntries entries)

/-- Builds a checked integer of a width from its one field, which every caller gives. -/
def checkedOfEntries (w : Width) (entries : Entries) : Except Error Record := do
  checkNames (.checked .base) (Kind.checked w).fieldNames entries
  match entries.lookup "value" with
  | some x => return .checked w (← Checked.construct w x)
  | none => .error (.mismatch (.missingFields (.checked .base) ["value"]))

def replace (changes : Entries) (r : Record) : Except Error Record :=
  let entries := changes ++ r.fields
  match r with
  | .checked w _ => checkedOfEntries w entries
  | .schedule _ => ofEntries entries .schedule
  | .referral _ => ofEntries entries .referral
  | .filler _ => ofEntries entries .filler
  | .fill _ => ofEntries entries .fill
  | .venueFill _ => ofEntries entries .venueFill

end Record

/-- Builds a record anew with some of its fields changed; other values have no fields to change. -/
def Value.replace (changes : Entries) : Value → Except Error Record
  | .record r => r.replace changes
  | _ => .error (.mismatch .notReplaceable)

def FeeSchedule.replace (s : Schedule) (changes : Entries) : Except Error Schedule :=
  FeeSchedule.ofEntries (changes ++ (Record.schedule s).fields)

end ExchangeFees
