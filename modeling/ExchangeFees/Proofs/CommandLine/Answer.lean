import ExchangeFees.Proofs.CommandLine.Response

/-! A command line is answered as its trade is priced. A command line that is read asks for the fees
of one trade; and what it is answered is decided by the schedule, the guard and the fees of that
trade, in this order. -/
namespace ExchangeFees.CommandLine

/-- The schedule that a command line prices by: that in the file it names, or the standard one. -/
inductive Loads (host : Host) (a : Settings) : Schedule → Prop
  | standard (unnamed : a.feeStructure = none) : Loads host a Schedule.standard
  | file {path : Files.Path} {s : Schedule} (named : a.feeStructure = some path)
      (loaded : Schedule.load host path = .ok s) : Loads host a s

/-- The schedule of a command line loads, the guard lets its fill pass, and the trade has fees. -/
structure Prices (host : Host) (c : Command) (a : Settings) (t : Trade) (s : Schedule)
    (fees : Record) : Prop where
  loaded : Loads host a s
  allowed : Mask.allowFill a.pausedOps (c = .amm) = .ok ()
  returned : (t.fill.fees s).result = .ok fees

/-- The first failure on the way to the fees of a trade. -/
inductive FailsFirst (host : Host) (c : Command) (a : Settings) (t : Trade) : Error → Prop
  | configuration {path : Files.Path} {fault : ConfigFault} (named : a.feeStructure = some path)
      (refused : Schedule.load host path = .error (.config fault)) :
      FailsFirst host c a t (.config fault)
  | guard {s : Schedule} {operation : PausedOperation} (loaded : Loads host a s)
      (refused : Mask.allowFill a.pausedOps (c = .amm) =
        .error (.paused operation a.pausedOps)) :
      FailsFirst host c a t (.paused operation a.pausedOps)
  | calculator {s : Schedule} {fault : ArithmeticFault} (loaded : Loads host a s)
      (allowed : Mask.allowFill a.pausedOps (c = .amm) = .ok ())
      (refused : (t.fill.fees s).result = .error (.arithmetic fault)) :
      FailsFirst host c a t (.arithmetic fault)

section Pricing

variable {host : Host} {c : Command} {a : Settings} {t : Trade} {s : Schedule}

/-- The fees of a command line: the schedule, the guard and the fees of its trade. -/
theorem Asks.fees_ofSettings (asks : Asks a c t) :
    (Request.ofSettings c a).fees host = (do
      let s ← (Request.ofSettings c a).schedule host
      Mask.allowFill a.pausedOps (decide (c = .amm))
      (t.fill.fees s).result) := by
  unfold Request.fees
  rw [asks.fill_ofSettings, asks.command_fill]
  rfl

theorem schedule_ofSettings_eq_ok :
    (Request.ofSettings c a).schedule host = .ok s ↔ Loads host a s := by
  have path : (Request.ofSettings c a).schedulePath = a.feeStructure := rfl
  unfold Request.schedule
  rw [path]
  constructor
  · intro scheduled
    split at scheduled
    · exact .file ‹_› scheduled
    · cases scheduled
      exact .standard ‹_›
  · rintro (unnamed | ⟨named, loaded⟩)
    · rw [unnamed]
    · rw [named]
      exact loaded

theorem Asks.fees_eq_ok (asks : Asks a c t) {fees : Record} :
    (Request.ofSettings c a).fees host = .ok fees ↔
      ∃ s, Prices host c a t s fees := by
  simp only [asks.fees_ofSettings, bind_eq_ok, schedule_ofSettings_eq_ok]
  constructor
  · rintro ⟨s, loaded, ⟨⟩, allowed, returned⟩
    exact ⟨s, loaded, allowed, returned⟩
  · rintro ⟨s, loaded, allowed, returned⟩
    exact ⟨s, loaded, (), allowed, returned⟩

theorem Asks.failsFirst (asks : Asks a c t) (short : ∀ n ∈ t.given, Text.IsShort n)
    (readable : ∀ path, a.feeStructure = some path → Schedule.Readable host path) {e : Error}
    (failed : (Request.ofSettings c a).fees host = .error e) :
    FailsFirst host c a t e := by
  rw [asks.fees_ofSettings, bind_eq_error] at failed
  obtain unloaded | ⟨s, loaded, failed⟩ := failed
  · -- The standard schedule cannot fail, so a file was named.
    obtain ⟨fault, rfl⟩ := Request.schedule_failsOnly readable e unloaded
    unfold Request.schedule at unloaded
    split at unloaded
    · exact .configuration ‹_› unloaded
    · cases unloaded
  have loads := schedule_ofSettings_eq_ok.mp loaded
  obtain paused | ⟨⟨⟩, allowed, failed⟩ := bind_eq_error.mp failed
  · obtain ⟨operation, rfl⟩ := Mask.allowFill_eq_error paused
    exact .guard loads paused
  · have arithmetical :
        FailsOnly (fun e => ∃ fault, e = .arithmetic fault) (t.fill.fees s).result :=
      t.fees_failsOnly (fun fault => ⟨fault, rfl⟩) (Request.schedule_reads loaded)
        fun n member long => absurd (short n member) long
    obtain ⟨fault, rfl⟩ := arithmetical e failed
    exact .calculator loads allowed failed

end Pricing

/-- A command line that is read and names no file that cannot be read as text asks for the fees of a
trade and is answered. The exit code is zero exactly if the trade is priced, and then the output is
an object of the path and the fields of the fees, in units or in quote. Otherwise the exit code is
one and the first failure is reported. -/
theorem answered_as_priced {host : Host} {words : List String} {c : Command} {a : Settings}
    (parsed : parse words = .ok (c, a))
    (readable : ∀ path, a.feeStructure = some path → Schedule.Readable host path) :
    ∃ t answer, Asks a c t ∧ respond host words = .ok answer ∧
      (answer.exitCode = 0 ↔ ∃ s fees, Prices host c a t s fees) ∧
      (∀ s fees, Prices host c a t s fees →
        answer.errors = "" ∧ ∃ members,
          (∀ room, Json.read (room + 1) answer.output.toList =
            .ok (.object (("path", .text c.word) :: members))) ∧
          List.Forall₂ (ShownAs a.decimal) fees.fields members) ∧
      ((¬ ∃ s fees, Prices host c a t s fees) →
        ∃ e, FailsFirst host c a t e ∧ answer = ⟨1, "", s!"error: {e.message}\n"⟩) := by
  obtain ⟨t, asks⟩ := exists_asks parsed
  have responds : respond host words = (Request.ofSettings c a).respond host := by
    simp only [respond, parsed]
  rw [responds]
  cases priced : (Request.ofSettings c a).fees host with
  | ok fees =>
    obtain ⟨output, members, answered, reads, shown⟩ :=
      Request.respond_of_fees asks.fill_ofSettings priced
    obtain ⟨s, prices⟩ := asks.fees_eq_ok.mp priced
    rw [asks.fill_ofSettings, asks.command_fill] at reads
    refine ⟨t, _, asks, answered, ⟨fun _ => ⟨s, fees, prices⟩, fun _ => rfl⟩, ?printed, ?unpriced⟩
    case printed =>
      intro s' fees' prices'
      cases priced.symm.trans (asks.fees_eq_ok.mpr ⟨s', prices'⟩)
      exact ⟨rfl, members, reads, shown⟩
    case unpriced => exact fun unpriced => absurd ⟨s, fees, prices⟩ unpriced
  | error e =>
    have short := asks.isShort parsed
    have failsFirst := asks.failsFirst short readable priced
    have reported := Request.fees_failsOnly asks.fill_ofSettings short readable e priced
    have unpriced : ¬ ∃ s fees, Prices host c a t s fees := by
      rintro ⟨s, fees, prices⟩
      cases priced.symm.trans (asks.fees_eq_ok.mpr ⟨s, prices⟩)
    refine ⟨t, _, asks, Request.respond_of_fault priced reported, ?exits, ?printed,
      fun _ => ⟨e, failsFirst, rfl⟩⟩
    case exits =>
      constructor
      · rintro ⟨⟩
      · exact fun prices => absurd prices unpriced
    case printed => exact fun s fees prices => absurd ⟨s, fees, prices⟩ unpriced

/-- An empty object makes the standard schedule, where there is room for it. -/
theorem load_empty_object (room : Nat) (path : Files.Path)
    (nonzero : Char.ofNat 0 ∉ path.text.toList) :
    Schedule.load ⟨fun _ => .ok [0x7B, 0x7D], room + 1⟩ path = .ok Schedule.standard := by
  have taken : Json.Takes (Json.readValue (room + 1) ['{', '}']) (.object []) [] := by
    rw [Json.readValue]
    exact ⟨_, rfl, rfl, rfl⟩
  have read : Json.read (room + 1) (Text.unifyLineEnds ['{', '}']) = .ok (.object []) :=
    Json.read_eq_ok (by decide) taken rfl
  have decoded : Schedule.decodeFile (room + 1) path [0x7B, 0x7D] = .ok (.object []) := by
    simp only [Schedule.decodeFile, show Text.Utf8.decode [0x7B, 0x7D] = .ok ['{', '}'] from rfl,
      read]
  simp only [Schedule.load, List.contains_iff_mem, nonzero, if_false, decoded]
  rfl

/-- A command line whose fill leaves the market a loss is answered, in quote. -/
theorem loss_shown_in_quote :
    ∃ answer, respond ⟨fun _ => .ok [0x7B, 0x7D], 1⟩
        ["amm", "--quote-asset-amount", "1000", "--surplus", "-5", "--decimal",
          "--fee-structure", "a.json"] = .ok answer ∧
      answer.exitCode = 0 ∧ answer.errors = "" := by
  let host : Host := ⟨fun _ => .ok [0x7B, 0x7D], 1⟩
  let path := Files.Path.parse "a.json"
  let settings : Settings :=
    { quoteAmount := some 1000, surplus := -5, decimal := true, feeStructure := some path }
  have parsed : parse ["amm", "--quote-asset-amount", "1000", "--surplus", "-5", "--decimal",
      "--fee-structure", "a.json"] = .ok (.amm, settings) := by with_unfolding_all rfl
  have readable : ∀ named, settings.feeStructure = some named → Schedule.Readable host named := by
    rintro _ ⟨⟩
    exact .of_small ['{', '}'] (by decide) rfl (by decide) (by decide)
  obtain ⟨t, answer, asks, answered, exits, printed, _⟩ := answered_as_priced parsed readable
  have priced : ∃ s fees, Prices host .amm settings t s fees := by
    cases asks with
    | amm given =>
      cases given
      exact ⟨_, _, .file rfl (load_empty_object 0 path (by decide)), rfl, by with_unfolding_all rfl⟩
  obtain ⟨s, fees, prices⟩ := priced
  exact ⟨answer, answered, exits.mpr ⟨s, fees, prices⟩, (printed s fees prices).1⟩

/-- A file with nothing but the digits of an integer that are one too many is answered by
nothing. -/
theorem long_literal_escapes :
    respond ⟨fun _ => .ok (('1' :: List.replicate Text.digitLimit '0').flatMap
          String.utf8EncodeChar), 1⟩
        ["match", "--quote-asset-amount", "100", "--fee-structure", "a.json"] =
      .error (.longLiteral ('1' :: List.replicate Text.digitLimit '0').length) := by
  have digits : ∀ c ∈ '1' :: List.replicate Text.digitLimit '0', c.isDigit = true := by
    intro c member
    obtain rfl | zero := List.mem_cons.mp member
    · rfl
    · rw [List.eq_of_mem_replicate zero]
      rfl
  have many : Text.digitLimit < ('1' :: List.replicate Text.digitLimit '0').length := by simp
  have nonzero : Char.ofNat 0 ∉ (Files.Path.parse "a.json").text.toList := by decide
  simp only [respond, parse_matched_by_file]
  exact Request.respond_of_unread rfl (Schedule.unread_of_digits nonzero digits (by decide) many)

end ExchangeFees.CommandLine
