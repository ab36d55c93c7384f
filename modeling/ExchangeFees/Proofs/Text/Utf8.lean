import ExchangeFees.Text.Utf8
import Mathlib.Tactic.SplitIfs

/-! The decoder against the encoding. What it takes for a character is the encoding of that
character, and every encoding is taken, so it accepts exactly the encodings of texts. -/
namespace ExchangeFees.Text.Utf8

/-- The octets that end a character under way, and the code they end it with. -/
inductive Pending.Completes : Pending → List UInt8 → Nat → Prop where
  | last {c b} (owed : c.owed = 1) (admitted : c.least ≤ b ∧ b ≤ c.greatest) :
      Completes c [b] (c.push b).bits
  | more {c b tail v} (owed : c.owed ≠ 1) (admitted : c.least ≤ b ∧ b ≤ c.greatest)
      (rest : Completes (c.push b) tail v) : Completes c (b :: tail) v

/-- The octets that are taken for one character at a position, with its code. -/
inductive Spells (p : Nat) : List UInt8 → Nat → Prop where
  | single {b} (low : b < 0x80) : Spells p [b] b.toNat
  | lead {b c tail v} (high : ¬ b < 0x80) (begun : begin? p b = some c)
      (completes : c.Completes tail v) : Spells p (b :: tail) v

variable {p : Nat} {b : UInt8} {c : Pending} {octets tail : List UInt8} {text : List Char} {v : Nat}

theorem map_eq_ok {α β ε : Type} {f : α → β} {x : Except ε α} {y : β} :
    f <$> x = .ok y ↔ ∃ a, x = .ok a ∧ f a = y := by
  cases x <;> simp [Functor.map, Except.map]

theorem decodeFrom_some : decodeFrom p (some c) octets = .ok text ↔
    ∃ tail rest text' v, octets = tail ++ rest ∧ c.Completes tail v ∧
      decodeFrom (p + tail.length) none rest = .ok text' ∧ text = Char.ofNat v :: text' := by
  -- An octet that is admitted ends the character or leaves one fewer owed.
  induction octets generalizing p c with
  | nil =>
    constructor
    · intro decoded
      cases decoded
    · rintro ⟨tail, rest, text', v, split, completes, -, -⟩
      cases completes <;> cases split
  | cons b others ih =>
    simp only [decodeFrom, Bool.and_eq_true, decide_eq_true_eq]
    by_cases admitted : c.least ≤ b ∧ b ≤ c.greatest
    · rw [if_pos admitted]
      by_cases owed : c.owed = 1
      · rw [if_pos owed, map_eq_ok]
        constructor
        · rintro ⟨text', decoded, rfl⟩
          exact ⟨[b], others, text', _, rfl, .last owed admitted, decoded, rfl⟩
        · rintro ⟨tail, rest, text', v, split, completes, decoded, rfl⟩
          cases completes with
          | last _ _ =>
            cases split
            exact ⟨text', decoded, rfl⟩
          | more other _ _ =>
            cases split
            exact absurd owed other
      · rw [if_neg owed, ih]
        constructor
        · rintro ⟨tail, rest, text', v, rfl, completes, decoded, rfl⟩
          refine ⟨b :: tail, rest, text', v, rfl, .more owed admitted completes, ?_, rfl⟩
          rwa [List.length_cons, Nat.add_comm tail.length, ← Nat.add_assoc]
        · rintro ⟨_, rest, text', v, split, completes, decoded, rfl⟩
          cases completes with
          | last one _ =>
            cases split
            exact absurd one owed
          | more _ _ completes =>
            cases split
            refine ⟨_, rest, text', v, rfl, completes, ?_, rfl⟩
            rwa [List.length_cons, Nat.add_comm (List.length _), ← Nat.add_assoc] at decoded
    · rw [if_neg admitted]
      constructor
      · intro decoded
        cases decoded
      · rintro ⟨tail, rest, text', v, split, completes, -, -⟩
        cases completes <;> cases split <;> contradiction

theorem decodeFrom_none : decodeFrom p none octets = .ok text ↔
    octets = [] ∧ text = [] ∨ ∃ head rest text' v, octets = head ++ rest ∧ Spells p head v ∧
      decodeFrom (p + head.length) none rest = .ok text' ∧ text = Char.ofNat v :: text' := by
  cases octets with
  | nil =>
    constructor
    · rintro ⟨⟩
      exact .inl ⟨rfl, rfl⟩
    · rintro (⟨_, rfl⟩ | ⟨head, rest, text', v, split, spelled, -, -⟩)
      · rfl
      · cases spelled <;> cases split
  | cons b others =>
    simp only [decodeFrom]
    by_cases low : b < 0x80
    · rw [if_pos low, map_eq_ok]
      constructor
      · rintro ⟨text', decoded, rfl⟩
        exact .inr ⟨[b], others, text', _, rfl, .single low, decoded, rfl⟩
      · rintro (⟨none, -⟩ | ⟨head, rest, text', v, split, spelled, decoded, rfl⟩)
        · cases none
        · cases spelled with
          | single _ =>
            cases split
            exact ⟨text', decoded, rfl⟩
          | lead high _ _ =>
            cases split
            exact absurd low high
    · rw [if_neg low]
      cases begun : begin? p b with
      | none =>
        constructor
        · intro decoded
          cases decoded
        · rintro (⟨none, -⟩ | ⟨head, rest, text', v, split, spelled, -, -⟩)
          · cases none
          · cases spelled with
            | single low' =>
              cases split
              exact absurd low' low
            | lead _ begun' _ =>
              cases split
              cases begun.symm.trans begun'
      | some c =>
        simp only [decodeFrom_some]
        constructor
        · rintro ⟨tail, rest, text', v, rfl, completes, decoded, rfl⟩
          refine .inr ⟨b :: tail, rest, text', v, rfl, .lead low begun completes, ?_, rfl⟩
          rwa [List.length_cons, Nat.add_comm tail.length, ← Nat.add_assoc]
        · rintro (⟨none, -⟩ | ⟨head, rest, text', v, split, spelled, decoded, rfl⟩)
          · cases none
          · cases spelled with
            | single low' =>
              cases split
              exact absurd low' low
            | lead _ begun' completes =>
              cases split
              cases begun.symm.trans begun'
              refine ⟨_, rest, text', v, rfl, completes, ?_, rfl⟩
              rwa [List.length_cons, Nat.add_comm (List.length _), ← Nat.add_assoc] at decoded

theorem begin?_eq (p : Nat) (b : UInt8) : begin? p b =
    if 0xC2 ≤ b.toNat ∧ b.toNat ≤ 0xDF then some ⟨p, b, 1, 1, 0x80, 0xBF, b.toNat - 0xC0⟩
    else if 0xE0 ≤ b.toNat ∧ b.toNat ≤ 0xEF then
      some ⟨p, b, 1, 2, if b.toNat = 0xE0 then 0xA0 else 0x80,
        if b.toNat = 0xED then 0x9F else 0xBF, b.toNat - 0xE0⟩
    else if 0xF0 ≤ b.toNat ∧ b.toNat ≤ 0xF4 then
      some ⟨p, b, 1, 3, if b.toNat = 0xF0 then 0x90 else 0x80,
        if b.toNat = 0xF4 then 0x8F else 0xBF, b.toNat - 0xF0⟩
    else none := by
  simp only [begin?, Bool.and_eq_true, decide_eq_true_eq, UInt8.le_iff_toNat_le, ← UInt8.toNat_inj,
    UInt8.reduceToNat]
  split_ifs <;> first | omega | rfl

theorem completes_one (owed : c.owed = 1) : c.Completes tail v ↔
    ∃ b, tail = [b] ∧ (c.least ≤ b ∧ b ≤ c.greatest) ∧ v = (c.push b).bits := by
  constructor
  · rintro (⟨_, admitted⟩ | ⟨other, _, _⟩)
    · exact ⟨_, rfl, admitted, rfl⟩
    · exact absurd owed other
  · rintro ⟨b, rfl, admitted, code⟩
    rw [code]
    exact .last owed admitted

theorem completes_more (owed : c.owed ≠ 1) : c.Completes tail v ↔
    ∃ b rest, tail = b :: rest ∧ (c.least ≤ b ∧ b ≤ c.greatest) ∧ (c.push b).Completes rest v := by
  constructor
  · rintro (⟨one, _⟩ | ⟨_, admitted, completes⟩)
    · exact absurd one owed
    · exact ⟨_, _, rfl, admitted, completes⟩
  · rintro ⟨b, rest, rfl, admitted, completes⟩
    exact .more owed admitted completes

section Lead

variable {a : UInt8}

theorem spells_lead (high : 0x80 ≤ a.toNat) (begun : begin? p a = some c) :
    Spells p (a :: tail) v ↔ c.Completes tail v := by
  have notSingle : ¬ a < 0x80 := fun low => by
    have := UInt8.lt_iff_toNat_lt.mp low
    simp only [UInt8.reduceToNat] at this
    omega
  constructor
  · rintro (low | ⟨_, begun', completes⟩)
    · contradiction
    · cases begun.symm.trans begun'
      exact completes
  · exact .lead notSingle begun

theorem spells_two (low : 0xC2 ≤ a.toNat) (high : a.toNat ≤ 0xDF) : Spells p (a :: tail) v ↔
    ∃ b, tail = [b] ∧ (0x80 ≤ b.toNat ∧ b.toNat ≤ 0xBF) ∧
      v = (a.toNat - 0xC0) * 64 + (b.toNat - 0x80) := by
  have begun : begin? p a = some ⟨p, a, 1, 1, 0x80, 0xBF, a.toNat - 0xC0⟩ := by
    rw [begin?_eq, if_pos ⟨low, high⟩]
  rw [spells_lead (by omega) begun, completes_one rfl]
  simp only [Pending.push, UInt8.le_iff_toNat_le, UInt8.reduceToNat]

/-- The bounds of a second octet, which two lead octets narrow. -/
theorem bounds_iff {least greatest low high first second m n : Nat} (raised : least ≤ low)
    (lowered : high ≤ greatest) :
    ((if first = m then low else least) ≤ second ∧
        second ≤ if first = n then high else greatest) ↔
      (least ≤ second ∧ second ≤ greatest) ∧ (first = m → low ≤ second) ∧
        (first = n → second ≤ high) := by
  split_ifs <;> omega

theorem spells_three (low : 0xE0 ≤ a.toNat) (high : a.toNat ≤ 0xEF) : Spells p (a :: tail) v ↔
    ∃ b c, tail = [b, c] ∧
      ((0x80 ≤ b.toNat ∧ b.toNat ≤ 0xBF) ∧ (a.toNat = 0xE0 → 0xA0 ≤ b.toNat) ∧
        (a.toNat = 0xED → b.toNat ≤ 0x9F)) ∧
      (0x80 ≤ c.toNat ∧ c.toNat ≤ 0xBF) ∧
      v = ((a.toNat - 0xE0) * 64 + (b.toNat - 0x80)) * 64 + (c.toNat - 0x80) := by
  have begun : begin? p a = some ⟨p, a, 1, 2, if a.toNat = 0xE0 then 0xA0 else 0x80,
      if a.toNat = 0xED then 0x9F else 0xBF, a.toNat - 0xE0⟩ := by
    rw [begin?_eq, if_neg (by omega), if_pos ⟨low, high⟩]
  rw [spells_lead (by omega) begun, completes_more (by simp)]
  simp only [completes_one, Pending.push, UInt8.le_iff_toNat_le, apply_ite UInt8.toNat,
    UInt8.reduceToNat, bounds_iff (show 0x80 ≤ 0xA0 by decide) (show 0x9F ≤ 0xBF by decide)]
  constructor
  · rintro ⟨b, _, rfl, second, c, rfl, third, code⟩
    exact ⟨b, c, rfl, second, third, code⟩
  · rintro ⟨b, c, rfl, second, third, code⟩
    exact ⟨b, [c], rfl, second, c, rfl, third, code⟩

theorem spells_four (low : 0xF0 ≤ a.toNat) (high : a.toNat ≤ 0xF4) : Spells p (a :: tail) v ↔
    ∃ b c d, tail = [b, c, d] ∧
      ((0x80 ≤ b.toNat ∧ b.toNat ≤ 0xBF) ∧ (a.toNat = 0xF0 → 0x90 ≤ b.toNat) ∧
        (a.toNat = 0xF4 → b.toNat ≤ 0x8F)) ∧
      (0x80 ≤ c.toNat ∧ c.toNat ≤ 0xBF) ∧ (0x80 ≤ d.toNat ∧ d.toNat ≤ 0xBF) ∧
      v = (((a.toNat - 0xF0) * 64 + (b.toNat - 0x80)) * 64 + (c.toNat - 0x80)) * 64 +
        (d.toNat - 0x80) := by
  have begun : begin? p a = some ⟨p, a, 1, 3, if a.toNat = 0xF0 then 0x90 else 0x80,
      if a.toNat = 0xF4 then 0x8F else 0xBF, a.toNat - 0xF0⟩ := by
    rw [begin?_eq, if_neg (by omega), if_neg (by omega), if_pos ⟨low, high⟩]
  rw [spells_lead (by omega) begun, completes_more (by simp)]
  simp (disch := simp) only [completes_more, completes_one, Pending.push, UInt8.le_iff_toNat_le,
    apply_ite UInt8.toNat, UInt8.reduceToNat,
    bounds_iff (show 0x80 ≤ 0x90 by decide) (show 0x8F ≤ 0xBF by decide)]
  constructor
  · rintro ⟨b, _, rfl, second, c, _, rfl, third, d, rfl, fourth, code⟩
    exact ⟨b, c, d, rfl, second, third, fourth, code⟩
  · rintro ⟨b, c, d, rfl, second, third, fourth, code⟩
    exact ⟨b, [c, d], rfl, second, c, [d], rfl, third, d, rfl, fourth, code⟩

theorem not_spells (low : 0x80 ≤ a.toNat) (other : a.toNat < 0xC2 ∨ 0xF4 < a.toNat) :
    ¬ Spells p (a :: tail) v := by
  have none : begin? p a = none := by
    rw [begin?_eq, if_neg (by omega), if_neg (by omega), if_neg (by omega)]
  rintro (single | ⟨_, begun, _⟩)
  · have := UInt8.lt_iff_toNat_lt.mp single
    simp only [UInt8.reduceToNat] at this
    omega
  · cases none.symm.trans begun

end Lead

theorem toNat_ofNat_of_lt {n : Nat} (small : n < 256) : (UInt8.ofNat n).toNat = n :=
  Nat.mod_eq_of_lt small

/-- Every encoding of a character is taken for it. -/
theorem spells_encode (p : Nat) (ch : Char) : Spells p (String.utf8EncodeChar ch) ch.toNat := by
  have valid : ch.val.toNat < 0xD800 ∨ 0xDFFF < ch.val.toNat ∧ ch.val.toNat < 0x110000 := ch.valid
  change Spells p (String.utf8EncodeChar ch) ch.val.toNat
  unfold String.utf8EncodeChar
  generalize ch.val.toNat = v at valid
  dsimp only
  split
  · have code := toNat_ofNat_of_lt (n := v) (by omega)
    have single : Spells p [UInt8.ofNat v] (UInt8.ofNat v).toNat :=
      .single (UInt8.lt_iff_toNat_lt.mpr (by simp only [UInt8.reduceToNat]; omega))
    rwa [code] at single
  split
  · have first := toNat_ofNat_of_lt (n := v / 64 % 32 + 0xC0) (by omega)
    have second := toNat_ofNat_of_lt (n := v % 64 + 0x80) (by omega)
    exact (spells_two (by omega) (by omega)).mpr ⟨_, rfl, by omega, by omega⟩
  split
  · have first := toNat_ofNat_of_lt (n := v / 4096 % 16 + 0xE0) (by omega)
    have second := toNat_ofNat_of_lt (n := v / 64 % 64 + 0x80) (by omega)
    have third := toNat_ofNat_of_lt (n := v % 64 + 0x80) (by omega)
    exact (spells_three (by omega) (by omega)).mpr ⟨_, _, rfl, by omega, by omega, by omega⟩
  · have first := toNat_ofNat_of_lt (n := v / 262144 % 8 + 0xF0) (by omega)
    have second := toNat_ofNat_of_lt (n := v / 4096 % 64 + 0x80) (by omega)
    have third := toNat_ofNat_of_lt (n := v / 64 % 64 + 0x80) (by omega)
    have fourth := toNat_ofNat_of_lt (n := v % 64 + 0x80) (by omega)
    exact (spells_four (by omega) (by omega)).mpr
      ⟨_, _, _, rfl, by omega, by omega, by omega, by omega⟩

theorem exists_char (valid : v < 0xD800 ∨ 0xDFFF < v ∧ v < 0x110000) :
    ∃ ch : Char, ch.val.toNat = v :=
  ⟨Char.ofNatAux v valid, rfl⟩

theorem ofNat_eq {n : Nat} (same : n = b.toNat) : UInt8.ofNat n = b := by
  subst same
  exact UInt8.ofNat_toNat

/-- What is taken for a character is its encoding. -/
theorem encode_of_spells (spelled : Spells p octets v) :
    ∃ ch : Char, ch.val.toNat = v ∧ String.utf8EncodeChar ch = octets := by
  cases octets with
  | nil => cases spelled
  | cons a tail =>
    obtain single | continuation | two | three | four | beyond :
        a.toNat < 0x80 ∨ (0x80 ≤ a.toNat ∧ a.toNat < 0xC2) ∨ (0xC2 ≤ a.toNat ∧ a.toNat ≤ 0xDF) ∨
          (0xE0 ≤ a.toNat ∧ a.toNat ≤ 0xEF) ∨ (0xF0 ≤ a.toNat ∧ a.toNat ≤ 0xF4) ∨
          0xF4 < a.toNat := by omega
    · cases spelled with
      | single _ =>
        obtain ⟨ch, value⟩ := exists_char (v := a.toNat) (by omega)
        refine ⟨ch, value, ?_⟩
        unfold String.utf8EncodeChar
        dsimp only
        rw [value, if_pos (by omega), ofNat_eq (b := a) rfl]
      | lead high _ _ => exact absurd (UInt8.lt_iff_toNat_lt.mpr single) high
    · exact absurd spelled (not_spells continuation.1 (.inl continuation.2))
    · obtain ⟨b, rfl, second, code⟩ := (spells_two two.1 two.2).mp spelled
      obtain ⟨ch, value⟩ := exists_char (v := v) (by omega)
      refine ⟨ch, value, ?_⟩
      unfold String.utf8EncodeChar
      dsimp only
      rw [value, if_neg (by omega), if_pos (by omega), ofNat_eq (b := a) (by omega),
        ofNat_eq (b := b) (by omega)]
    · obtain ⟨b, c, rfl, second, third, code⟩ := (spells_three three.1 three.2).mp spelled
      obtain ⟨ch, value⟩ := exists_char (v := v) (by omega)
      refine ⟨ch, value, ?_⟩
      unfold String.utf8EncodeChar
      dsimp only
      rw [value, if_neg (by omega), if_neg (by omega), if_pos (by omega),
        ofNat_eq (b := a) (by omega), ofNat_eq (b := b) (by omega), ofNat_eq (b := c) (by omega)]
    · obtain ⟨b, c, d, rfl, second, third, fourth, code⟩ := (spells_four four.1 four.2).mp spelled
      obtain ⟨ch, value⟩ := exists_char (v := v) (by omega)
      refine ⟨ch, value, ?_⟩
      unfold String.utf8EncodeChar
      dsimp only
      rw [value, if_neg (by omega), if_neg (by omega), if_neg (by omega),
        ofNat_eq (b := a) (by omega), ofNat_eq (b := b) (by omega), ofNat_eq (b := c) (by omega),
        ofNat_eq (b := d) (by omega)]
    · exact absurd spelled (not_spells (by omega) (.inr beyond))

/-- Octets are decoded exactly if they are the encoding of a text, which is what they decode to. -/
theorem decodeFrom_eq_ok :
    decodeFrom p none octets = .ok text ↔ octets = text.flatMap String.utf8EncodeChar := by
  -- The octets in front spell the first character of the text, and the rest decodes to the rest.
  induction text generalizing p octets with
  | nil =>
    rw [decodeFrom_none]
    constructor
    · rintro (⟨rfl, -⟩ | ⟨_, _, _, _, _, _, _, nonempty⟩)
      · rfl
      · cases nonempty
    · rintro rfl
      exact .inl ⟨rfl, rfl⟩
  | cons ch text ih =>
    rw [decodeFrom_none, List.flatMap_cons]
    constructor
    · rintro (⟨-, empty⟩ | ⟨head, rest, text', v, rfl, spelled, decoded, same⟩)
      · cases empty
      · obtain ⟨ch', value, rfl⟩ := encode_of_spells spelled
        obtain ⟨rfl, rfl⟩ := List.cons.inj same
        rw [ih.mp decoded, ← value]
        exact congrArg (String.utf8EncodeChar · ++ _) (Char.ofNat_toNat ch').symm
    · rintro rfl
      exact .inr ⟨_, _, text, _, rfl, spells_encode p ch, ih.mpr rfl,
        congrArg (· :: text) (Char.ofNat_toNat ch).symm⟩

theorem decode_eq_ok : decode octets = .ok text ↔ octets = text.flatMap String.utf8EncodeChar :=
  decodeFrom_eq_ok

end ExchangeFees.Text.Utf8
