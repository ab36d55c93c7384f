import ExchangeFees.Record.Build

/-!
Schedules as nested mappings. A mapping may leave out any key, for the standard term, and may hold
no key that is no field; its two sections are mappings of the same kind. A schedule written as a
mapping shows each record that stands for a term by its fields, one level deep. A class in the place
of a term is shown by what it holds itself of the fields of its records: the standard terms, but not
the standard sections, which are made anew for each schedule. A class that lacks a field cannot be
shown.
-/
namespace ExchangeFees

/-- Whether a text comes before another, or is the same, by the codes of their characters. -/
def comesBefore (a b : String) : Bool := !(Text.codes b).lex (Text.codes a)

/-- Refuses keys that are no fields, and lists them in order. -/
def checkKeys (record : RecordKind) (entries : Entries) : Except Error Unit :=
  match (entries.map (·.1)).filter fun key => !record.fieldNames.contains key with
  | [] => .ok ()
  | unknown => .error (.config (.unknownKeys record (unknown.mergeSort comesBefore)))

def entriesOf (record : RecordKind) : Value → Except Error Entries
  | .mapping entries => .ok entries
  | x => .error (.config (.notMapping record x.kind))

def ReferralTerms.ofMapping (x : Value) : Except Error (ReferralTerms Term) := do
  let entries ← entriesOf .referral x
  checkKeys .referral entries
  ofEntries entries

def FillerTerms.ofMapping (x : Value) : Except Error (FillerTerms Term) := do
  let entries ← entriesOf .filler x
  checkKeys .filler entries
  ofEntries entries

/-- The entries with the value under a key read as a section, if the key is there. -/
def readSection (key : String) (build : Value → Except Error Record) (entries : Entries) :
    Except Error Entries :=
  match entries.lookup key with
  | none => .ok entries
  | some x => do
    let r ← build x
    return entries.map fun e => if e.1 = key then (key, .record r) else e

/-- A schedule from a mapping: the sections first, then the keys, then the terms. -/
def FeeSchedule.ofMapping (x : Value) : Except Error Schedule := do
  let entries ← entriesOf .schedule x
  let entries ← readSection "referral_discount"
    (fun v => do return .referral (← ReferralTerms.ofMapping v)) entries
  let entries ← readSection "filler_reward_structure"
    (fun v => do return .filler (← FillerTerms.ofMapping v)) entries
  checkKeys .schedule entries
  ofEntries entries

def Schedule.standard : Schedule := FeeSchedule.standard.map .plain

/-- What a class holds itself of the fields of its records. -/
def RecordClass.attributes : RecordClass → Entries
  | .record .schedule => (Record.schedule Schedule.standard).fields.take 4
  | .record .referral => (Record.referral (ReferralTerms.standard.map .plain)).fields
  | .record .filler => (Record.filler (FillerTerms.standard.map .plain)).fields
  | _ => []

def RecordClass.fieldNames : RecordClass → List String
  | .checked w => (Kind.checked w).fieldNames
  | .record kind => kind.fieldNames

def RecordClass.attribute (c : RecordClass) (name : String) : Except Error Value :=
  match c.attributes.lookup name with
  | some x => .ok x
  | none => .error (.missingAttribute c name)

/-- A value with a record, or a class, shown by its fields. -/
def Value.unfold : Value → Except Error Value
  | .record r => .ok (.mapping r.fields)
  | .type c => do
    return .mapping (← c.fieldNames.mapM fun name => do return (name, ← c.attribute name))
  | x => .ok x

def FeeSchedule.toMapping (s : Schedule) : Except Error Entries :=
  (Record.schedule s).fields.mapM fun e => do return (e.1, ← e.2.unfold)

end ExchangeFees
