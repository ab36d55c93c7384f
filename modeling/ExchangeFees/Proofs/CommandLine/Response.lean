import ExchangeFees.Proofs.CommandLine.Output
import ExchangeFees.Proofs.CommandLine.Setting
import ExchangeFees.Proofs.Paused
import ExchangeFees.Proofs.Schedule.File

/-! What the program answers when it loads a schedule. A command line that is read asks for the fees
of one trade. Amounts of a breakdown are always shown, under names that differ, so fees are printed as
an object that is read back; and once the schedule is read the program ends by its own exit codes. -/
namespace ExchangeFees

namespace Trade

variable {t : Trade} {s : Schedule} {r : Record}

theorem fees_isBreakdown (returned : (t.fill.fees s).result = .ok r) : r.IsBreakdown := by
  cases t with
  | amm | matched =>
    simp only [fill, CommandLine.Fill.fees_amm, CommandLine.Fill.fees_matched, map_eq_pure_bind,
      Traced.result_bind, bind_eq_ok] at returned
    obtain ⟨b, _, same⟩ := returned
    cases same
    exact .fill b
  | venue =>
    simp only [fill, CommandLine.Fill.fees_venue, map_eq_pure_bind, Traced.result_bind,
      bind_eq_ok] at returned
    obtain ⟨b, _, same⟩ := returned
    cases same
    exact .venueFill b

/-- The fields of fees are shown. -/
theorem fees_isShown (returned : (t.fill.fees s).result = .ok r) :
    ∀ e ∈ r.fields, CommandLine.IsShown e := by
  have breakdown := fees_isBreakdown returned
  have all : ∀ kind : RecordKind, ∀ name ∈ kind.fieldNames, Json.IsPlainText name.toList := by
    intro kind
    cases kind <;> decide
  have plain : ∀ name ∈ r.kind.fieldNames, Json.IsPlainText name.toList := by
    cases breakdown with
    | fill b => exact all .fill
    | venueFill b => exact all .venueFill
  intro e member
  exact ⟨plain e.1 (List.of_mem_zip member).1, breakdown.exists_amount e member⟩

/-- No field of fees has the name of another, or that of the path they were computed on. -/
theorem fees_distinct (returned : (t.fill.fees s).result = .ok r) :
    ("path" :: r.fields.map Prod.fst).Nodup := by
  cases fees_isBreakdown returned with
  | fill b => exact (by decide : ("path" :: RecordKind.fill.fieldNames).Nodup)
  | venueFill b => exact (by decide : ("path" :: RecordKind.venueFill.fieldNames).Nodup)

end Trade

namespace CommandLine

variable {host : Host}

/-- The trade whose fees a command line asks for. -/
inductive Asks (a : Settings) : Command → Trade → Prop
  | amm {amount : Int} (given : a.quoteAmount = some amount) :
      Asks a .amm (.amm { quoteAmount := amount, orderTs := a.orderTs, now := a.now,
                          rewardFiller := a.rewardFiller, rewardReferrer := a.rewardReferrer,
                          surplus := a.surplus, postOnly := a.postOnly })
  | matched {amount : Int} (given : a.quoteAmount = some amount) :
      Asks a .matched (.matched { quoteAmount := amount, orderTs := a.orderTs, now := a.now,
                                  rewardFiller := a.rewardFiller,
                                  rewardReferrer := a.rewardReferrer })
  | venue {amount fee : Int} (given : a.quoteAmount = some amount)
      (charged : a.venueFee = some fee) :
      Asks a .venue (.venue { quoteAmount := amount, orderTs := a.orderTs, now := a.now,
                              rewardFiller := a.rewardFiller, venueFee := fee,
                              referrerRebate := a.referrerRebate, feePool := a.feePool })

section Asking

variable {c : Command} {a : Settings} {t : Trade} {words : List String}

theorem exists_asks (parsed : parse words = .ok (c, a)) :
    ∃ t, Asks a c t := by
  obtain ⟨⟨_, given⟩, charged⟩ := Settings.given_of_unset (unset_of_parse parsed)
  cases c with
  | amm => exact ⟨_, .amm given⟩
  | matched => exact ⟨_, .matched given⟩
  | venue =>
    obtain ⟨_, charged⟩ := charged rfl
    exact ⟨_, .venue given charged⟩

theorem Asks.fill_ofSettings (asks : Asks a c t) : (Request.ofSettings c a).fill = t.fill := by
  cases asks with
  | amm given | matched given =>
    simp only [Request.ofSettings, given]
    rfl
  | venue given charged =>
    simp only [Request.ofSettings, given, charged]
    rfl

/-- The amounts and times of the trade are among those that are set. -/
theorem Asks.mem_amounts (asks : Asks a c t) : ∀ n ∈ t.given, n ∈ a.amounts := by
  cases asks with
  | amm given => simp [Trade.given, AmmTrade.given, Settings.amounts, given]
  | matched given => simp [Trade.given, MatchedTrade.given, Settings.amounts, given]
  | venue given charged =>
    simp [Trade.given, VenueTrade.given, Settings.amounts, given, charged]

theorem Asks.command_fill (asks : Asks a c t) : t.fill.command = c := by
  cases asks <;> rfl

/-- The amounts and times of a command line that is read can be written. -/
theorem Asks.isShort (asks : Asks a c t) (parsed : parse words = .ok (c, a)) :
    ∀ n ∈ t.given, Text.IsShort n :=
  fun n member => short_of_parse parsed n (asks.mem_amounts n member)

end Asking

theorem Command.isPlainText_word (c : Command) : Json.IsPlainText c.word.toList := by
  cases c <;> decide

def Reported (e : Error) : Prop := isReported e = true

theorem allowFill_failsOnly (mask : Int) (againstAmm : Bool) :
    FailsOnly Reported (Mask.allowFill mask againstAmm) := by
  intro e refused
  obtain ⟨operation, rfl⟩ := Mask.allowFill_eq_error refused
  rfl

theorem Reported.of_isConfig {e : Error} (config : e.IsConfig) : Reported e := by
  obtain ⟨fault, rfl⟩ := config
  rfl

namespace Request

variable {r : Request} {path : Files.Path}

theorem schedule_reads {s : Schedule} (loaded : r.schedule host = .ok s)
    {faults : Error → Prop} : ∀ x ∈ s.terms, x.ReadsOnly faults := by
  unfold schedule at loaded
  split at loaded
  · exact fun x term => Term.readsOnly_of_isPlain (Schedule.load_isPlain loaded x term)
  · cases loaded
    exact Term.readsOnly_map_plain _

theorem schedule_failsOnly
    (readable : ∀ path, r.schedulePath = some path → Schedule.Readable host path) :
    FailsOnly Error.IsConfig (r.schedule host) := by
  unfold schedule
  split
  · rename_i path loads
    exact Schedule.load_failsOnly (readable path loads)
  · exact .ok _

theorem fees_failsOnly {t : Trade} (fill : r.fill = t.fill) (short : ∀ n ∈ t.given, Text.IsShort n)
    (readable : ∀ path, r.schedulePath = some path → Schedule.Readable host path) :
    FailsOnly Reported (r.fees host) := by
  simp only [fees, fill]
  refine ((schedule_failsOnly readable).mono fun _ => .of_isConfig).bind_of_ok fun s loaded => ?_
  refine (allowFill_failsOnly _ _).bind fun _ => ?_
  exact t.fees_failsOnly (fun _ => rfl) (schedule_reads loaded)
    fun n member long => absurd (short n member) long

/-- Fees are printed as an object that is read back: the path, and the fields as they are shown. -/
theorem respond_of_fees {t : Trade} (fill : r.fill = t.fill) {record : Record}
    (priced : r.fees host = .ok record) :
    ∃ output members, r.respond host = .ok ⟨0, output, ""⟩ ∧
      (∀ room, Json.read (room + 1) output.toList =
        .ok (.object (("path", .text r.fill.command.word) :: members))) ∧
      List.Forall₂ (ShownAs r.inQuote) record.fields members := by
  have returned : ∃ s, (t.fill.fees s).result = .ok record := by
    simp only [fees, fill, bind_eq_ok] at priced
    obtain ⟨s, _, _, _, returned⟩ := priced
    exact ⟨s, returned⟩
  obtain ⟨s, returned⟩ := returned
  obtain ⟨amounts, members, amounted, prints, shown⟩ :=
    exists_amounts (Trade.fees_isShown returned) r.inQuote
  refine ⟨printObject (("path", .text r.fill.command.word) :: amounts), members, ?responds,
    ?reads, shown⟩
  case responds =>
    simp only [respond, priced, amounted]
    rfl
  case reads =>
    have name : Json.IsPlainText "path".toList := by decide
    have path : PrintsMember ("path", .text r.fill.command.word)
        ("path", .text r.fill.command.word) :=
      ⟨rfl, name, .text r.fill.command.isPlainText_word⟩
    have distinct := Trade.fees_distinct returned
    rw [← ShownAs.map_fst shown] at distinct
    exact fun room => read_printObject room (.cons path prints) (List.cons_ne_nil _ _)
      (List.pairwise_map.mp distinct)

theorem respond_of_fault {e : Error} (failed : r.fees host = .error e) (reported : Reported e) :
    r.respond host = .ok ⟨1, "", s!"error: {e.message}\n"⟩ := by
  have reported : isReported e = true := reported
  simp only [respond, failed, reported, if_true]

theorem respond_of_readable (loads : r.schedulePath = some path) {t : Trade}
    (fill : r.fill = t.fill) (short : ∀ n ∈ t.given, Text.IsShort n)
    (readable : Schedule.Readable host path) :
    ∃ answer, r.respond host = .ok answer ∧ (answer.exitCode = 0 ∨ answer.exitCode = 1) := by
  cases priced : r.fees host with
  | error e =>
    have reported : Reported e := by
      refine fees_failsOnly fill short (fun path' loads' => ?_) e priced
      cases loads.symm.trans loads'
      exact readable
    exact ⟨_, respond_of_fault priced reported, .inr rfl⟩
  | ok record =>
    obtain ⟨output, _, answered, _⟩ := respond_of_fees fill priced
    exact ⟨_, answered, .inl rfl⟩

/-- What keeps the schedule from being read is not reported. -/
theorem respond_of_unread (loads : r.schedulePath = some path) {e : Error}
    (unread : Schedule.Unread host path e) : r.respond host = .error e := by
  have failed : r.fees host = .error e := by
    simp only [fees, schedule, loads, Schedule.load_of_unread unread]
    rfl
  have unreported : isReported e = false := by
    cases unread with
    | zero => rfl
    | undecodable => rfl
    | @limit _ l => cases l <;> rfl
  simp only [respond, failed, unreported, Bool.false_eq_true, if_false]

end Request

/-- A loaded schedule has plain terms. Loading fails by configuration only, and a command line that
names the file ends by exit code zero or one, exactly if the path has no zero character and what it
leads to is the encoding of a text in which the reader meets no limit. -/
theorem load_fails_by_configuration_iff (host : Host) (path : Files.Path) :
    (∀ s, Schedule.load host path = .ok s → ∀ t ∈ s.terms, t.IsPlain) ∧
    ((∀ e, Schedule.load host path = .error e → ∃ fault, e = .config fault) ↔
      Schedule.Readable host path) ∧
    (∀ e, Schedule.load host path = .error e →
      (∃ fault, e = .config fault) ∨ Schedule.Unread host path e) ∧
    ∀ words c settings, parse words = .ok (c, settings) → settings.feeStructure = some path →
      ((∃ answer, respond host words = .ok answer ∧
          (answer.exitCode = 0 ∨ answer.exitCode = 1)) ↔ Schedule.Readable host path) := by
  refine ⟨fun s => Schedule.load_isPlain, Schedule.load_failsOnly_iff, ?faults, ?answers⟩
  case faults =>
    intro e failed
    obtain readable | ⟨e', unread⟩ := Schedule.readable_or_unread host path
    · exact .inl (Schedule.load_failsOnly readable e failed)
    · cases (Schedule.load_of_unread unread).symm.trans failed
      exact .inr unread
  case answers =>
    intro words c settings parsed named
    have loads : (Request.ofSettings c settings).schedulePath = some path := named
    obtain ⟨t, asks⟩ := exists_asks parsed
    simp only [respond, parsed]
    constructor
    · rintro ⟨answer, answered, _⟩
      obtain readable | ⟨e, unread⟩ := Schedule.readable_or_unread host path
      · exact readable
      · cases (Request.respond_of_unread loads unread).symm.trans answered
    · exact Request.respond_of_readable loads asks.fill_ofSettings (asks.isShort parsed)

/-- The command line for the fees of a hundred units between two orders, by the schedule in a file. -/
theorem parse_matched_by_file :
    parse ["match", "--quote-asset-amount", "100", "--fee-structure", "a.json"] =
      .ok (.matched,
        { quoteAmount := some 100, feeStructure := some (Files.Path.parse "a.json") }) := by
  -- The digits of the amount are counted against their limit, so that it has to be opened.
  with_unfolding_all rfl

/-- A command line that names a file with an empty object in it is answered. -/
theorem empty_object_answered :
    ∃ answer, respond ⟨fun _ => .ok [0x7B, 0x7D], 1⟩
        ["match", "--quote-asset-amount", "100", "--fee-structure", "a.json"] = .ok answer ∧
      (answer.exitCode = 0 ∨ answer.exitCode = 1) := by
  have readable : Schedule.Readable ⟨fun _ => .ok [0x7B, 0x7D], 1⟩ (Files.Path.parse "a.json") :=
    Schedule.Readable.of_small ['{', '}'] (by decide) rfl (by decide) (by decide)
  exact ((load_fails_by_configuration_iff _ _).2.2.2 _ _ _ parse_matched_by_file rfl).mpr readable

/-- An octet that begins no character is reported neither by loading nor by a command line. -/
theorem undecodable_octet_escapes :
    Schedule.load ⟨fun _ => .ok [0xFF], 1⟩ (Files.Path.parse "a.json") =
      .error (.undecodable ⟨.start, 0, 1, 0xFF⟩) ∧
    respond ⟨fun _ => .ok [0xFF], 1⟩
        ["match", "--quote-asset-amount", "100", "--fee-structure", "a.json"] =
      .error (.undecodable ⟨.start, 0, 1, 0xFF⟩) := by
  have unread : Schedule.Unread ⟨fun _ => .ok [0xFF], 1⟩ (Files.Path.parse "a.json")
      (.undecodable ⟨.start, 0, 1, 0xFF⟩) := .undecodable (by decide) rfl rfl
  refine ⟨Schedule.load_of_unread unread, ?_⟩
  simp only [respond, parse_matched_by_file]
  exact Request.respond_of_unread rfl unread

end CommandLine
end ExchangeFees
