import ExchangeFees.Schedule.File
import ExchangeFees.Proofs.Json.Limits
import ExchangeFees.Proofs.Schedule.Construction
import ExchangeFees.Proofs.Text.Utf8

/-! Loading a schedule from a file. What JSON holds is neither a record nor a class, and its
integers can be written, so a loaded schedule has plain terms; and loading fails by configuration
but for the ways in which a file is not read as text or its text exceeds a limit of the reader. -/
namespace ExchangeFees

theorem Value.lookup_ofMembers (members : List (String × Json)) (name : String) :
    (Value.ofMembers members).lookup name = (members.lookup name).map Value.ofJson := by
  induction members with
  | nil => rfl
  | cons m rest ih =>
    obtain ⟨own, j⟩ := m
    simp only [Value.ofMembers, List.lookup_cons]
    cases name == own with
    | true => rfl
    | false => exact ih

/-- Every path through a value from JSON leads to a value from JSON, in which integers can be
written if they all can. -/
theorem Value.get?_ofJson {j : Json} (written : j.Written) {path : List String} {x : Value}
    (reached : (Value.ofJson j).get? path = some x) :
    ∃ j' : Json, j'.Written ∧ x = Value.ofJson j' := by
  induction path generalizing j with
  | nil => exact ⟨j, written, (Option.some.inj reached).symm⟩
  | cons name rest ih =>
    cases written with
    | @object members each =>
      simp only [Value.ofJson, Value.get?, Value.member?, Value.lookup_ofMembers] at reached
      cases found : members.lookup name with
      | none => simp [found] at reached
      | some j' =>
        obtain ⟨before, after, rfl, _⟩ := List.lookup_eq_some_iff.mp found
        rw [found] at reached
        exact ih (each _ (List.mem_append_right _ List.mem_cons_self)) reached
    | _ => simp [Value.ofJson, Value.get?, Value.member?] at reached

theorem Json.Written.not_isLong {j : Json} (written : j.Written) : ¬ (Value.ofJson j).IsLong := by
  rintro ⟨n, same, long⟩
  cases written with
  | int short =>
    cases same
    exact long short
  | _ => cases same

theorem Construction.not_unchecked_ofJson (j : Json) :
    ¬ Construction.Unchecked (Value.ofJson j) := by
  intro unchecked
  cases j <;> nomatch unchecked

/-- Unifying line ends changes none but the characters that end lines. -/
theorem Text.countP_unifyLineEnds {p : Char → Bool} (noReturn : p '\r' = false)
    (noFeed : p '\n' = false) (text : List Char) :
    (unifyLineEnds text).countP p = text.countP p := by
  fun_induction unifyLineEnds text with
  | case1 rest ih => simp [noReturn, noFeed, ih]
  | case2 rest _ ih => simp [noReturn, noFeed, ih]
  | case3 c rest _ _ ih => simp [List.countP_cons, ih]
  | case4 => rfl

theorem Text.unifyLineEnds_of_notMem {text : List Char} (none : '\r' ∉ text) :
    unifyLineEnds text = text := by
  fun_induction unifyLineEnds text with
  | case1 rest => exact absurd List.mem_cons_self none
  | case2 rest => exact absurd List.mem_cons_self none
  | case3 c rest _ _ ih => rw [ih fun later => none (List.mem_cons_of_mem c later)]
  | case4 => rfl

namespace Schedule

variable {host : Host} {path : Files.Path}

/-- A path has no zero character, and the octets it leads to, if any, encode a text in which the
reader meets no limit. -/
structure Readable (host : Host) (path : Files.Path) : Prop where
  nonzero : Char.ofNat 0 ∉ path.text.toList
  encoded : ∀ octets, host.contents path = .ok octets →
    ∃ text : List Char, octets = text.flatMap String.utf8EncodeChar ∧
      ∀ l, Json.read host.room (Text.unifyLineEnds text) ≠ .error (.limit l)

/-- A file is readable that holds a text with no more brackets that open than the reader has room
for and no more digits than an integer may have. -/
theorem Readable.of_small (text : List Char) (nonzero : Char.ofNat 0 ∉ path.text.toList)
    (found : host.contents path = .ok (text.flatMap String.utf8EncodeChar))
    (shallow : Json.openings text ≤ host.room)
    (few : text.countP Char.isDigit ≤ Text.digitLimit) : Readable host path := by
  refine ⟨nonzero, fun octets found' => ⟨text, Except.ok.inj (found'.symm.trans found), ?_⟩⟩
  apply Json.read_ne_limit
  · rwa [Json.openings, Text.countP_unifyLineEnds rfl rfl]
  · rwa [Text.countP_unifyLineEnds rfl rfl]

/-- The ways in which a file is not read. -/
inductive Unread (host : Host) (path : Files.Path) : Error → Prop where
  | zero (within : Char.ofNat 0 ∈ path.text.toList) : Unread host path .zeroInPath
  | undecodable {octets fault} (nonzero : Char.ofNat 0 ∉ path.text.toList)
      (found : host.contents path = .ok octets)
      (refused : Text.Utf8.decode octets = .error fault) : Unread host path (.undecodable fault)
  | limit {text : List Char} {l} (nonzero : Char.ofNat 0 ∉ path.text.toList)
      (found : host.contents path = .ok (text.flatMap String.utf8EncodeChar))
      (met : Json.read host.room (Text.unifyLineEnds text) = .error (.limit l)) :
      Unread host path (.ofLimit l)

/-- A file with nothing but the digits of an integer that are too many is not read. -/
theorem unread_of_digits {room : Nat} {d : Char} {ds : List Char}
    (nonzero : Char.ofNat 0 ∉ path.text.toList) (digits : ∀ c ∈ d :: ds, c.isDigit = true)
    (leading : d ≠ '0') (many : Text.digitLimit < (d :: ds).length) :
    Unread ⟨fun _ => .ok ((d :: ds).flatMap String.utf8EncodeChar), room⟩ path
      (.longLiteral (d :: ds).length) := by
  let host : Host := ⟨fun _ => .ok ((d :: ds).flatMap String.utf8EncodeChar), room⟩
  have plain : '\r' ∉ d :: ds := by
    intro member
    cases digits _ member
  have met : Json.read host.room (Text.unifyLineEnds (d :: ds)) =
      .error (.limit (.digits (d :: ds).length)) := by
    rw [Text.unifyLineEnds_of_notMem plain]
    exact Json.read_long digits leading many
  have found : host.contents path = .ok ((d :: ds).flatMap String.utf8EncodeChar) := rfl
  exact .limit nonzero found met

theorem written_of_decodeFile {room : Nat} {octets : List UInt8} {json : Json}
    (decoded : decodeFile room path octets = .ok json) : json.Written := by
  unfold decodeFile at decoded
  split at decoded
  · cases decoded
  · split at decoded
    · cases decoded
    · cases decoded
    · rename_i found
      cases decoded
      exact Json.written_of_read found

theorem load_isPlain {s : Schedule} (loaded : load host path = .ok s) :
    ∀ t ∈ s.terms, t.IsPlain := by
  unfold load at loaded
  split at loaded
  · cases loaded
  · cases found : host.contents path with
    | error fault => simp [found] at loaded
    | ok octets =>
      simp only [found, bind_eq_ok] at loaded
      obtain ⟨json, decoded, built⟩ := loaded
      let c : Construction := .mapping .schedule (Value.ofJson json)
      have built : c.build = .ok (.schedule s) := bind_eq_ok.mpr ⟨s, built, rfl⟩
      refine (Construction.isPlain_iff built).mpr ?_
      rintro x ⟨path, _, given⟩
      obtain ⟨j, _, rfl⟩ := Value.get?_ofJson (written_of_decodeFile decoded) given
      exact Construction.not_unchecked_ofJson j

theorem decodeFile_failsOnly {room : Nat} {text : List Char}
    (within : ∀ l, Json.read room (Text.unifyLineEnds text) ≠ .error (.limit l)) :
    FailsOnly Error.IsConfig (decodeFile room path (text.flatMap String.utf8EncodeChar)) := by
  simp only [decodeFile, Text.Utf8.decode_eq_ok.mpr rfl]
  cases read : Json.read room (Text.unifyLineEnds text) with
  | error failure =>
    cases failure with
    | fault f => exact .error ⟨_, rfl⟩
    | limit l => exact absurd read (within l)
  | ok json => exact .ok json

theorem load_failsOnly (readable : Readable host path) :
    FailsOnly Error.IsConfig (load host path) := by
  simp only [load, List.contains_iff_mem, readable.nonzero, if_false]
  cases found : host.contents path with
  | error fault => exact .error ⟨_, rfl⟩
  | ok octets =>
    obtain ⟨text, rfl, within⟩ := readable.encoded octets found
    refine (decodeFile_failsOnly within).bind_of_ok fun json decoded => ?_
    refine FeeSchedule.ofMapping_failsOnly (fun fault => ⟨fault, rfl⟩) ?_
    rintro ⟨path, _, x, given, isLong⟩
    obtain ⟨j, written, rfl⟩ := Value.get?_ofJson (written_of_decodeFile decoded) given
    exact absurd isLong written.not_isLong

theorem load_of_unread {e : Error} (unread : Unread host path e) : load host path = .error e := by
  cases unread with
  | zero within => simp [load, within]
  | undecodable nonzero found refused =>
    simp [load, nonzero, found, decodeFile, refused, bind, Except.bind]
  | limit nonzero found met =>
    simp [load, nonzero, found, decodeFile, Text.Utf8.decode_eq_ok.mpr rfl, met, bind, Except.bind]

theorem readable_or_unread (host : Host) (path : Files.Path) :
    Readable host path ∨ ∃ e, Unread host path e := by
  by_cases zero : Char.ofNat 0 ∈ path.text.toList
  · exact .inr ⟨_, .zero zero⟩
  · cases found : host.contents path with
    | error fault => exact .inl ⟨zero, by simp [found]⟩
    | ok octets =>
      cases decoded : Text.Utf8.decode octets with
      | error fault => exact .inr ⟨_, .undecodable zero found decoded⟩
      | ok text =>
        obtain rfl := Text.Utf8.decode_eq_ok.mp decoded
        by_cases within : ∀ l, Json.read host.room (Text.unifyLineEnds text) ≠ .error (.limit l)
        · refine .inl ⟨zero, ?_⟩
          intro octets found'
          cases found.symm.trans found'
          exact ⟨text, rfl, within⟩
        · obtain ⟨l, met⟩ := not_forall_not.mp within
          exact .inr ⟨_, .limit zero found met⟩

theorem Unread.not_isConfig {e : Error} (unread : Unread host path e) : ¬ e.IsConfig := by
  rintro ⟨fault, same⟩
  cases unread with
  | zero => cases same
  | undecodable => cases same
  | @limit _ l =>
    cases l with
    | digits => cases same
    | nesting => cases same

/-- Loading fails by configuration only, exactly if the file is read. -/
theorem load_failsOnly_iff :
    FailsOnly Error.IsConfig (load host path) ↔ Readable host path := by
  refine ⟨fun fails => ?_, load_failsOnly⟩
  obtain readable | ⟨e, unread⟩ := readable_or_unread host path
  · exact readable
  · exact absurd (fails e (load_of_unread unread)) unread.not_isConfig

end Schedule
end ExchangeFees
