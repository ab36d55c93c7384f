import ExchangeFees.Proofs.Json.Reader

/-! The limits of the reader. It stops at one only if the text exceeds it: if more arrays and
objects open in the text than there is room for, or if the text has more digits than an integer may
have. Every integer in a value that is read can be written. -/
namespace ExchangeFees.Json

open DecimalNumeral

/-- Every integer in a value can be written. -/
inductive Written : Json → Prop where
  | null : Written .null
  | bool (b : Bool) : Written (.bool b)
  | int {n : Int} (short : Text.IsShort n) : Written (.int n)
  | float (x : Binary64) : Written (.float x)
  | text (s : String) : Written (.text s)
  | array {items : List Json} (each : ∀ j ∈ items, Written j) : Written (.array items)
  | object {members : List (String × Json)} (each : ∀ m ∈ members, Written m.2) :
      Written (.object members)

theorem written_put {name : String} {value : Json} {members : List (String × Json)}
    (each : ∀ m ∈ members, Written m.2) (written : Written value) :
    ∀ m ∈ put name value members, Written m.2 := by
  induction members with
  | nil => exact List.forall_mem_singleton.mpr written
  | cons m rest ih =>
    obtain ⟨first, others⟩ := List.forall_mem_cons.mp each
    unfold put
    split
    · exact List.forall_mem_cons.mpr ⟨written, others⟩
    · exact List.forall_mem_cons.mpr ⟨first, ih others⟩

/-- How often a text opens an array or object, or has the sign for it. -/
def openings (cs : List Char) : Nat := cs.countP fun c => c = '[' || c = '{'

/-- A text in which a limit can be met. -/
inductive Exceeds (room : Nat) (cs : List Char) : Limit → Prop where
  | digits {count : Nat} (many : Text.digitLimit < cs.countP Char.isDigit) :
      Exceeds room cs (.digits count)
  | nesting {opened : Container} (deep : room < openings cs) : Exceeds room cs (.nesting opened)

theorem Exceeds.of_suffix {room : Nat} {cs ds : List Char} {l : Limit} (exceeds : Exceeds room cs l)
    (within : cs <:+ ds) : Exceeds room ds l := by
  cases exceeds with
  | digits many => exact .digits (Nat.lt_of_lt_of_le many within.sublist.countP_le)
  | nesting deep => exact .nesting (Nat.lt_of_lt_of_le deep within.sublist.countP_le)

/-- An array or object that opens takes up room for one. -/
theorem Exceeds.opened {room : Nat} {cs rest : List Char} {c : Char} {l : Limit}
    (exceeds : Exceeds room cs l) (within : cs <:+ rest) (bracket : c = '[' ∨ c = '{') :
    Exceeds (room + 1) (c :: rest) l := by
  cases exceeds.of_suffix within with
  | digits many =>
    exact .digits (Nat.lt_of_lt_of_le many (List.suffix_cons c rest).sublist.countP_le)
  | nesting deep =>
    refine .nesting ?_
    rw [openings, List.countP_cons_of_pos (by simpa using bracket)]
    exact Nat.succ_lt_succ deep

/-- How a reader of a text ends: with a value of some kind, and a rest at the end of the text, or
at something it missed, or at a limit that the text exceeds. -/
inductive Ends {α : Type} (kind : α → Prop) (room : Nat) (cs : List Char) :
    Except Stop (Parsed cs α) → Prop where
  | read {p : Parsed cs α} (value : kind p.value) (rest : p.rest <:+ cs) : Ends kind room cs (.ok p)
  | missed (cause : Cause) (remaining : Nat) : Ends kind room cs (.error (.missed cause remaining))
  | limit {l : Limit} (exceeds : Exceeds room cs l) : Ends kind room cs (.error (.limit l))

/-- A reader that goes on where another has read. -/
theorem Ends.bind {α β : Type} {kind : α → Prop} {kind' : β → Prop} {room room' : Nat}
    {cs ds : List Char} {x : Except Stop (Parsed cs α)}
    {f : Parsed cs α → Except Stop (Parsed ds β)}
    (first : Ends kind room cs x) (exceeds : ∀ l, Exceeds room cs l → Exceeds room' ds l)
    (next : ∀ p, kind p.value → p.rest <:+ cs → Ends kind' room' ds (f p)) :
    Ends kind' room' ds (x >>= f) := by
  cases first with
  | read value rest => exact next _ value rest
  | missed cause remaining => exact .missed cause remaining
  | limit met => exact .limit (exceeds _ met)

section Suffixes

variable {cs after : List Char} {c : Char}

theorem skipBlanks_suffix (cs : List Char) : skipBlanks cs <:+ cs := List.dropWhile_suffix _

theorem suffix_of_skipBlanks (found : skipBlanks cs = c :: after) : after <:+ cs :=
  (List.suffix_cons c after).trans (found ▸ skipBlanks_suffix cs)

theorem spanFraction_suffix (cs : List Char) : (spanFraction cs).2 <:+ cs := by
  unfold spanFraction
  split
  · split
    · exact List.suffix_refl _
    · exact (List.dropWhile_suffix _).trans (List.suffix_cons _ _)
  · exact List.suffix_refl _

theorem spanSign_suffix (cs : List Char) : (spanSign cs).2 <:+ cs := by
  unfold spanSign
  split
  · exact List.suffix_cons _ _
  · exact List.suffix_cons _ _
  · exact List.suffix_refl _

theorem spanExponent_suffix (cs : List Char) : (spanExponent cs).2 <:+ cs := by
  unfold spanExponent
  split
  · rename_i c rest
    dsimp only
    split
    · exact ((List.dropWhile_suffix _).trans (spanSign_suffix rest)).trans (List.suffix_cons c rest)
    · exact List.suffix_refl _
  · exact List.suffix_refl _

/-- The integer part is made of digits. -/
theorem spanWhole_split (cs : List Char) :
    (spanWhole cs).1 ++ (spanWhole cs).2 = cs ∧ ∀ c ∈ (spanWhole cs).1, c.isDigit = true := by
  unfold spanWhole
  split
  · exact ⟨rfl, List.forall_mem_singleton.mpr rfl⟩
  · refine ⟨List.takeWhile_append_dropWhile, ?_⟩
    intro c member
    exact (List.all_eq_true.mp (List.all_takeWhile (l := cs))) c member

end Suffixes

/-- How the reader of the codes of a string ends: it meets no limit. -/
inductive CodesEnd (cs : List Char) : Except Stop (List Nat × List Char) → Prop where
  | read {codes : List Nat} {after : List Char} (rest : after <:+ cs) :
      CodesEnd cs (.ok (codes, after))
  | missed (cause : Cause) (remaining : Nat) : CodesEnd cs (.error (.missed cause remaining))

/-- One code more in front of those that are read. -/
theorem CodesEnd.cons {cs rest : List Char} {x : Except Stop (List Nat × List Char)}
    (ends : CodesEnd rest x) (within : rest <:+ cs) (code : Nat) :
    CodesEnd cs do
      let (codes, after) ← x
      return (code :: codes, after) := by
  cases ends with
  | read after => exact .read (after.trans within)
  | missed cause remaining => exact .missed cause remaining

theorem readCodes_ends (whole : Nat) (cs : List Char) : CodesEnd cs (readCodes whole cs) := by
  fun_induction readCodes whole cs with
  | case2 rest => exact .read (List.suffix_cons _ _)
  | case6 a b c d rest _ code _ ih =>
    exact ih.cons (List.suffix_append ['\\', 'u', a, b, c, d] rest) code
  | case9 c rest _ _ code _ ih => exact ih.cons (List.suffix_append ['\\', c] rest) code
  | case11 c rest _ _ _ _ _ _ ih => exact ih.cons (List.suffix_cons _ _) c.toNat
  | _ => exact .missed _ _

theorem readString_ends (room : Nat) (cs : List Char) :
    Ends (fun _ => True) room cs (readString cs) := by
  have ends := readCodes_ends (cs.length + 1) cs
  unfold readString
  split
  · rename_i stop failed
    rw [failed] at ends
    cases ends with
    | missed cause remaining => exact .missed cause remaining
  · rename_i r read
    rw [read] at ends
    cases ends with
    | read rest => exact .read trivial rest

/-- The integer of digits is made exactly if they are not too many, and then it can be written. -/
theorem readWhole_cases (negative : Bool) {ds : List Char} (digits : ∀ c ∈ ds, c.isDigit = true) :
    (∃ n, readWhole negative ds = .ok n ∧ Text.IsShort n) ∨
      readWhole negative ds = .error (.limit (.digits ds.length)) ∧
        Text.digitLimit < ds.length := by
  unfold readWhole
  split
  · rename_i many
    exact .inr ⟨rfl, many⟩
  · rename_i few
    refine .inl ⟨_, rfl, Text.isShort_of_lt ?_ (Nat.le_of_not_lt few)⟩
    have bound := Text.natOfDigits_lt digits
    split
    · rwa [Int.natAbs_neg, Int.natAbs_natCast]
    · rwa [Int.natAbs_natCast]

theorem readNumber_ends (room : Nat) (cs : List Char) : Ends Written room cs (readNumber cs) := by
  obtain ⟨unsigned, same⟩ : ∃ ds, (if cs.head? = some '-' then cs.tail else cs) = ds := ⟨_, rfl⟩
  have sign : unsigned <:+ cs := by
    rw [← same]
    split
    · exact List.tail_suffix cs
    · exact List.suffix_refl cs
  obtain ⟨parts, digits⟩ := spanWhole_split unsigned
  have whole : (spanWhole unsigned).1 <+: unsigned := ⟨_, parts⟩
  have after : (spanWhole unsigned).2 <:+ unsigned := ⟨_, parts⟩
  have rest := ((spanExponent_suffix _).trans (spanFraction_suffix _)).trans (after.trans sign)
  unfold readNumber
  simp only [same]
  split
  · split
    · obtain ⟨n, read, short⟩ | ⟨read, many⟩ :=
        readWhole_cases (decide (cs.head? = some '-')) digits
      · rw [read]
        exact .read (.int short) rest
      · rw [read]
        refine .limit (.digits (Nat.lt_of_lt_of_le many ?_))
        calc (spanWhole unsigned).1.length
            = (spanWhole unsigned).1.countP Char.isDigit := (List.countP_eq_length.mpr digits).symm
          _ ≤ unsigned.countP Char.isDigit := whole.sublist.countP_le
          _ ≤ cs.countP Char.isDigit := sign.sublist.countP_le
    · exact .read (.float _) rest
  · exact .missed _ _

section Steps

variable {room : Nat} {cs rest : List Char}

/-- An array or object with something in it, from the reader of what is in it. -/
theorem Ends.inside {α : Type} {kind : α → Prop} {c : Char} {make : α → Json}
    {x : Except Stop (Parsed (skipBlanks rest) α)} (contents : Ends kind room (skipBlanks rest) x)
    (bracket : c = '[' ∨ c = '{') (written : ∀ a, kind a → Written (make a))
    (shorter : ∀ p : Parsed (skipBlanks rest) α, p.rest.length < (c :: rest).length) :
    Ends Written (room + 1) (c :: rest) do
      let r ← x
      return ⟨make r.value, r.rest, shorter r⟩ :=
  contents.bind (fun _ met => met.opened (skipBlanks_suffix rest) bracket)
    fun r each after => .read (written r.value each)
      ((after.trans (skipBlanks_suffix rest)).trans (List.suffix_cons _ _))

theorem readItems_ends (value : Ends Written room cs (readValue room cs))
    (others : ∀ (v : Parsed cs Json) (after : List Char), skipBlanks v.rest = ',' :: after →
      Ends (fun items => ∀ j ∈ items, Written j) room (skipBlanks after)
        (readItems room (skipBlanks after))) :
    Ends (fun items => ∀ j ∈ items, Written j) room cs (readItems room cs) := by
  rw [readItems]
  refine value.bind (fun _ met => met) fun v written afterValue => ?_
  split
  · rename_i closed
    exact .read (List.forall_mem_singleton.mpr written)
      ((suffix_of_skipBlanks closed).trans afterValue)
  · rename_i after comma
    have within := ((skipBlanks_suffix after).trans (suffix_of_skipBlanks comma)).trans afterValue
    exact (others v after comma).bind (fun _ met => met.of_suffix within)
      fun r each rest => .read (List.forall_mem_cons.mpr ⟨written, each⟩) (rest.trans within)
  · exact .missed _ _

theorem readMembers_ends {members : List (String × Json)} (before : ∀ m ∈ members, Written m.2)
    (value : ∀ (name : Parsed rest String) (after : List Char),
      skipBlanks name.rest = ':' :: after →
      Ends Written room (skipBlanks after) (readValue room (skipBlanks after)))
    (others : ∀ (name : Parsed rest String) (afterColon : List Char),
      skipBlanks name.rest = ':' :: afterColon →
      ∀ (v : Parsed (skipBlanks afterColon) Json) (after : List Char),
      skipBlanks v.rest = ',' :: after → (∀ m ∈ put name.value v.value members, Written m.2) →
        Ends (fun members => ∀ m ∈ members, Written m.2) room (skipBlanks after)
          (readMembers room (put name.value v.value members) (skipBlanks after))) :
    Ends (fun members => ∀ m ∈ members, Written m.2) room ('"' :: rest)
      (readMembers room members ('"' :: rest)) := by
  rw [readMembers]
  refine (readString_ends room rest).bind (fun _ met => met.of_suffix (List.suffix_cons _ _))
    fun name _ afterName => ?_
  split
  · rename_i afterColon colon
    have here := (((skipBlanks_suffix afterColon).trans (suffix_of_skipBlanks colon)).trans
      afterName).trans (List.suffix_cons '"' rest)
    refine (value name afterColon colon).bind (fun _ met => met.of_suffix here)
      fun v written afterValue => ?_
    have withThis : ∀ m ∈ put name.value v.value members, Written m.2 := written_put before written
    split
    · rename_i closed
      exact .read withThis (((suffix_of_skipBlanks closed).trans afterValue).trans here)
    · rename_i after comma
      have within := (((skipBlanks_suffix after).trans (suffix_of_skipBlanks comma)).trans
        afterValue).trans here
      exact (others name afterColon colon v after comma withThis).bind
        (fun _ met => met.of_suffix within)
        fun _ each afterAll => .read each (afterAll.trans within)
    · exact .missed _ _
  · exact .missed _ _

end Steps

/-- How the readers of a value, of the items of an array and of the members of an object end on any
text, by induction along their calls of each other. -/
theorem readers_end :
    (∀ room cs, Ends Written room cs (readValue room cs)) ∧
      (∀ room cs, Ends (fun items => ∀ j ∈ items, Written j) room cs (readItems room cs)) ∧
      ∀ room members cs, (∀ m ∈ members, Written m.2) →
        Ends (fun members => ∀ m ∈ members, Written m.2) room cs (readMembers room members cs) := by
  apply readValue.mutual_induct
  case case1 =>
    intro room rest
    rw [readValue]
    exact (readString_ends room rest).bind (fun _ met => met.of_suffix (List.suffix_cons _ _))
      fun _ _ after => .read (.text _) (after.trans (List.suffix_cons _ _))
  case case2 =>
    intro rest
    rw [readValue]
    exact .limit (.nesting (by simp [openings]))
  case case3 =>
    intro rest room _ after closed
    rw [readValue]
    split
    · rename_i ended
      exact .read (.object (List.forall_mem_nil _))
        ((suffix_of_skipBlanks ended).trans (List.suffix_cons _ _))
    · rename_i filled
      exact absurd closed (filled after)
  case case4 =>
    intro rest room _ filled members
    rw [readValue]
    split
    · rename_i closed
      exact absurd closed (filled _)
    · exact (members (List.forall_mem_nil _)).inside (.inr rfl) (fun _ => .object) _
  case case5 =>
    intro rest
    rw [readValue]
    exact .limit (.nesting (by simp [openings]))
  case case6 =>
    intro rest room _ after closed
    rw [readValue]
    split
    · rename_i ended
      exact .read (.array (List.forall_mem_nil _))
        ((suffix_of_skipBlanks ended).trans (List.suffix_cons _ _))
    · rename_i filled
      exact absurd closed (filled after)
  case case7 =>
    intro rest room _ filled items
    rw [readValue]
    split
    · rename_i closed
      exact absurd closed (filled _)
    · exact items.inside (.inl rfl) (fun _ => .array) _
  case case14 =>
    intro room cs
    intros
    rw [readValue]
    · exact readNumber_ends room cs
    all_goals assumption
  case case15 => exact fun _ _ => readItems_ends
  case case16 => exact fun _ _ _ value others before => readMembers_ends before value others
  case case17 =>
    intro room members other missing _
    rw [readMembers]
    · exact .missed _ _
    · exact missing
  -- The words for values stand as they are.
  all_goals
    intro room rest
    rw [readValue]
    exact .read (by constructor) (by simp [List.suffix_cons_iff])

section Texts

variable {room : Nat} {text : List Char}

theorem written_of_read {j : Json} (found : read room text = .ok j) : Written j := by
  unfold read at found
  split at found
  · cases found
  · split at found
    · cases found
    · rename_i v value
      have ends := readers_end.1 room (skipBlanks text)
      rw [value] at ends
      split at found
      · cases found
        cases ends with
        | read written _ => exact written
      · cases found

theorem exceeds_of_read {l : Limit} (met : read room text = .error (.limit l)) :
    Exceeds room text l := by
  unfold read at met
  split at met
  · cases met
  · split at met
    · rename_i stop stopped
      have ends := readers_end.1 room (skipBlanks text)
      rw [stopped] at ends
      cases ends with
      | missed => cases met
      | limit exceeds =>
        cases met
        exact exceeds.of_suffix (skipBlanks_suffix text)
    · split at met <;> cases met

/-- A text with no more brackets that open than there is room for, and no more digits than an
integer may have, meets no limit. -/
theorem read_ne_limit (shallow : openings text ≤ room)
    (few : text.countP Char.isDigit ≤ Text.digitLimit) (l : Limit) :
    read room text ≠ .error (.limit l) := by
  intro met
  cases exceeds_of_read met with
  | digits many => exact absurd many (Nat.not_lt.mpr few)
  | nesting deep => exact absurd deep (Nat.not_lt.mpr shallow)

/-- A text gives no value if the reader of a value stops in it. -/
theorem read_eq_error {stop : Stop} (mark : text.head? ≠ some '\uFEFF')
    (stopped : readValue room (skipBlanks text) = .error stop) :
    read room text = .error (stop.failure text) := by
  unfold read
  rw [if_neg mark]
  simp only [stopped]

/-- Where its first item stops the reader, an array does. -/
theorem readValue_array_of_error {rest : List Char} {stop : Stop}
    (filled : ∀ after, skipBlanks rest ≠ ']' :: after)
    (stopped : readValue room (skipBlanks rest) = .error stop) :
    readValue (room + 1) ('[' :: rest) = .error stop := by
  have items : readItems room (skipBlanks rest) = .error stop := by
    rw [readItems, stopped]
    rfl
  rw [readValue]
  split
  · rename_i after closed
    exact absurd closed (filled after)
  · rw [items]
    rfl

/-- Arrays that open one within the other meet the limit at the first there is no room for, whatever
comes after it. -/
theorem readValue_nested (room : Nat) (rest : List Char) :
    readValue room (List.replicate (room + 1) '[' ++ rest) = .error (.limit (.nesting .array)) := by
  induction room with
  | zero => rw [List.replicate_one, List.singleton_append, readValue]
  | succ room ih =>
    refine readValue_array_of_error ?_ ih
    rintro after ⟨⟩

theorem read_nested (room : Nat) (rest : List Char) :
    read room (List.replicate (room + 1) '[' ++ rest) = .error (.limit (.nesting .array)) := by
  have here : skipBlanks (List.replicate (room + 1) '[' ++ rest) =
      List.replicate (room + 1) '[' ++ rest := rfl
  refine read_eq_error ?_ (here ▸ readValue_nested room rest)
  rintro ⟨⟩

section Digits

variable {d : Char} {ds : List Char} (digits : ∀ c ∈ d :: ds, c.isDigit = true) (nonzero : d ≠ '0')
  (many : Text.digitLimit < (d :: ds).length)

include digits nonzero many

/-- Digits from one other than zero are the integer part of a number, which is not made of too
many. -/
theorem readNumber_long :
    readNumber (d :: ds) = .error (.limit (.digits (d :: ds).length)) := by
  have whole : spanWhole (d :: ds) = (d :: ds, []) := by
    unfold spanWhole
    split
    · rename_i same
      cases same
      exact absurd rfl nonzero
    · have all : spanDigits (d :: ds ++ []) = (d :: ds, []) := spanDigits_append digits (by simp)
      rwa [List.append_nil] at all
  have unsigned : (d :: ds).head? ≠ some '-' := by
    rintro ⟨⟩
    cases digits _ List.mem_cons_self
  unfold readNumber
  simp only [if_neg unsigned, whole]
  rw [dif_pos ⟨Nat.succ_pos _, List.cons_ne_nil _ _⟩, readWhole, if_pos many]
  rfl

/-- The digits of a whole text meet the limit if they are too many. -/
theorem read_long : read room (d :: ds) = .error (.limit (.digits (d :: ds).length)) := by
  have digit : d.isDigit = true := digits d List.mem_cons_self
  have here : skipBlanks (d :: ds) = d :: ds :=
    List.dropWhile_cons_of_neg (not_isBlank_of_isDigit digit)
  have stopped : readValue room (skipBlanks (d :: ds)) =
      .error (.limit (.digits (d :: ds).length)) := by
    rw [here, readValue, readNumber_long digits nonzero many]
    all_goals
      rintro _ ⟨⟩
      cases digit
  have unmarked : (d :: ds).head? ≠ some '\uFEFF' := by
    rintro ⟨⟩
    cases digit
  exact read_eq_error unmarked stopped

end Digits

end Texts

end ExchangeFees.Json
