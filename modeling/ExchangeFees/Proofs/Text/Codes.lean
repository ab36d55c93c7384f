import ExchangeFees.Text.Codes

/-! Codes are kept apart. What keeps a code is taken off the front of a text again, so codes are
read back from the text that keeps them and no two sequences of codes are kept alike. A text
without the mark keeps the codes of its own characters. -/
namespace ExchangeFees.Text

variable {code : Nat} {cs rest : List Char}

theorem toNat_ofNat (small : code < 0x110000) (whole : isHalf code = false) :
    (Char.ofNat code).toNat = code := by
  simp only [isHalf, Bool.and_eq_false_iff, decide_eq_false_iff_not] at whole
  have valid : code.isValidChar := by
    unfold Nat.isValidChar
    omega
  rw [Char.ofNat, dif_pos valid]
  rfl

theorem isHalf_toNat (c : Char) : isHalf c.toNat = false := by
  have valid : c.toNat < 0xD800 ∨ 0xDFFF < c.toNat ∧ c.toNat < 0x110000 := c.valid
  simp only [isHalf, Bool.and_eq_false_iff, decide_eq_false_iff_not]
  omega

theorem codesOf_keep_append (small : code < 0x110000) :
    codesOf (keep code ++ rest) = code :: codesOf rest := by
  unfold keep
  cases half : isHalf code with
  | true =>
    simp only [isHalf, Bool.and_eq_true, decide_eq_true_eq] at half
    have outside : isHalf (code + 0x100000) = false := by
      simp only [isHalf, Bool.and_eq_false_iff, decide_eq_false_iff_not]
      omega
    have value : (Char.ofNat (code + 0x100000)).toNat = code + 0x100000 :=
      toNat_ofNat (by omega) outside
    have other : Char.ofNat (code + 0x100000) ≠ mark := by
      intro same
      have codes : (Char.ofNat (code + 0x100000)).toNat = 0x10FFFF := congrArg Char.toNat same
      omega
    simp [codesOf, other, value]
  | false =>
    have value := toNat_ofNat small half
    by_cases marked : code = mark.toNat
    · simp [codesOf, marked]
    · have other : Char.ofNat code ≠ mark := by
        intro same
        exact marked (value.symm.trans (congrArg Char.toNat same))
      rw [if_neg Bool.false_ne_true, if_neg marked, List.singleton_append, codesOf.eq_def]
      simp [other, value]

/-- Codes are read back from the text that keeps them. -/
theorem codes_ofCodes {ns : List Nat} (small : ∀ n ∈ ns, n < 0x110000) :
    codes (ofCodes ns) = ns := by
  rw [codes, ofCodes, String.toList_ofList]
  induction ns with
  | nil => rfl
  | cons n ns ih =>
    obtain ⟨first, others⟩ := List.forall_mem_cons.mp small
    rw [List.flatMap_cons, codesOf_keep_append first, ih others]

/-- No two sequences of codes are kept by one text. -/
theorem ofCodes_inj {ns ms : List Nat} (small : ∀ n ∈ ns, n < 0x110000)
    (small' : ∀ n ∈ ms, n < 0x110000) : ofCodes ns = ofCodes ms ↔ ns = ms := by
  constructor
  · intro same
    rw [← codes_ofCodes small, same, codes_ofCodes small']
  · exact congrArg ofCodes

theorem ofCodes_toNat (unmarked : mark ∉ cs) : ofCodes (cs.map Char.toNat) = String.ofList cs := by
  have kept : (cs.map Char.toNat).flatMap keep = cs := by
    induction cs with
    | nil => rfl
    | cons c cs ih =>
      obtain ⟨first, others⟩ := not_or.mp (mt List.mem_cons.mpr unmarked)
      have other : c.toNat ≠ mark.toNat := fun same => first (Char.toNat_inj.mp same).symm
      rw [List.map_cons, List.flatMap_cons, ih others, keep, isHalf_toNat, if_neg other]
      simp
  rw [ofCodes, kept]

end ExchangeFees.Text
