import ExchangeFees.Checked.Chain
import ExchangeFees.Proofs.Checked.Results
import ExchangeFees.Proofs.Root

/-! Chains of checked operations against exact integers. A step goes through exactly if its
operand is in the accumulator's width, it has an exact result and that result is in the width it
is for; the accumulator is then that result, and otherwise it stays. A chain of any length
therefore ends where the same chain of unbounded integers ends. -/
namespace ExchangeFees.Chain

/-- A quotient cut toward zero: what it leaves is less than the divisor and has the sign of the
dividend. -/
structure IsQuotient (a b q : Int) : Prop where
  nonzero : b ≠ 0
  remainder : ∃ r, a = q * b + r ∧ r.natAbs < b.natAbs ∧ (r = 0 ∨ r.sign = a.sign)

theorem isQuotient_iff {a b q : Int} : IsQuotient a b q ↔ b ≠ 0 ∧ q = a.tdiv b := by
  constructor
  · rintro ⟨nonzero, r, whole, small, sign⟩
    refine ⟨nonzero, ?_⟩
    rw [Int.mul_comm] at whole
    obtain nonneg | nonpos := Int.le_total 0 a
    · have low : 0 ≤ r := by
        obtain rfl | same := sign
        · exact Int.le_refl 0
        · exact Int.sign_nonneg_iff.mp (same ▸ Int.sign_nonneg_iff.mpr nonneg)
      exact ((Int.tdiv_tmod_unique nonneg nonzero).mpr ⟨by omega, low, by omega⟩).1.symm
    · have high : r ≤ 0 := by
        obtain rfl | same := sign
        · exact Int.le_refl 0
        · exact Int.sign_nonpos_iff.mp (same ▸ Int.sign_nonpos_iff.mpr nonpos)
      exact ((Int.tdiv_tmod_unique' nonpos nonzero).mpr ⟨by omega, by omega, high⟩).1.symm
  · rintro ⟨nonzero, rfl⟩
    refine ⟨nonzero, a.tmod b, ?_, ?_, ?_⟩
    · rw [Int.mul_comm, Int.mul_tdiv_add_tmod]
    · rw [Int.natAbs_tmod]
      exact Nat.mod_lt _ (by omega)
    · rw [Int.sign_tmod]
      by_cases divides : b ∣ a
      · exact .inl (Int.tmod_eq_zero_of_dvd divides)
      · exact .inr (if_neg divides)

/-- An operand of arithmetic on a width, with the integer it stands for. -/
inductive Operand (w : Width) : Value → Int → Prop where
  | plain {n : Int} (held : w.Holds n) : Operand w (.int n) n
  | checked {v : Width} (c : Checked v) (admitted : w.admits v = true) : Operand w c.toValue c.val

/-- What a step makes of an integer with a width, in exact arithmetic. -/
inductive Computes (w : Width) (a : Int) : Step → Width → Int → Prop where
  | cast (target : Width) : Computes w a (.cast target) target a
  | add {x n} (operand : Operand w x n) : Computes w a (.apply (.add x)) w (a + n)
  | sub {x n} (operand : Operand w x n) : Computes w a (.apply (.sub x)) w (a - n)
  | mul {x n} (operand : Operand w x n) : Computes w a (.apply (.mul x)) w (a * n)
  | div {x n q} (operand : Operand w x n) (quotient : IsQuotient a n q) :
      Computes w a (.apply (.div x)) w q
  | root {degree r} (floor : Root.IsFloor a degree r) :
      Computes w a (.apply (.root (.int degree))) w r
  | min (c : Checked w) : Computes w a (.apply (.min c.toValue)) w (Min.min a c.val)
  | max (c : Checked w) : Computes w a (.apply (.max c.toValue)) w (Max.max a c.val)

namespace Computes

variable {w v : Width} {a b : Int} {x : Value}

theorem cast_iff {target : Width} :
    Computes w a (.cast target) v b ↔ v = target ∧ b = a := by
  constructor
  · rintro ⟨⟩
    exact ⟨rfl, rfl⟩
  · rintro ⟨rfl, rfl⟩
    exact .cast v

theorem add_iff :
    Computes w a (.apply (.add x)) v b ↔ ∃ n, Operand w x n ∧ v = w ∧ b = a + n := by
  constructor
  · rintro ⟨⟩
    exact ⟨_, ‹_›, rfl, rfl⟩
  · rintro ⟨n, operand, rfl, rfl⟩
    exact .add operand

theorem sub_iff :
    Computes w a (.apply (.sub x)) v b ↔ ∃ n, Operand w x n ∧ v = w ∧ b = a - n := by
  constructor
  · rintro ⟨⟩
    exact ⟨_, ‹_›, rfl, rfl⟩
  · rintro ⟨n, operand, rfl, rfl⟩
    exact .sub operand

theorem mul_iff :
    Computes w a (.apply (.mul x)) v b ↔ ∃ n, Operand w x n ∧ v = w ∧ b = a * n := by
  constructor
  · rintro ⟨⟩
    exact ⟨_, ‹_›, rfl, rfl⟩
  · rintro ⟨n, operand, rfl, rfl⟩
    exact .mul operand

theorem div_iff :
    Computes w a (.apply (.div x)) v b ↔ ∃ n, Operand w x n ∧ n ≠ 0 ∧ v = w ∧ b = a.tdiv n := by
  constructor
  · rintro ⟨⟩
    rename_i n operand quotient
    obtain ⟨nonzero, value⟩ := isQuotient_iff.mp quotient
    exact ⟨n, operand, nonzero, rfl, value⟩
  · rintro ⟨n, operand, nonzero, rfl, value⟩
    exact .div operand (isQuotient_iff.mpr ⟨nonzero, value⟩)

theorem root_iff :
    Computes w a (.apply (.root x)) v b ↔
      v = w ∧ ∃ degree, x = .int degree ∧ Root.IsFloor a degree b := by
  constructor
  · rintro ⟨⟩
    exact ⟨rfl, _, rfl, ‹_›⟩
  · rintro ⟨rfl, degree, rfl, floor⟩
    exact .root floor

theorem min_iff :
    Computes w a (.apply (.min x)) v b ↔
      v = w ∧ ∃ c : Checked w, x = c.toValue ∧ b = Min.min a c.val := by
  constructor
  · rintro ⟨⟩
    exact ⟨rfl, _, rfl, rfl⟩
  · rintro ⟨rfl, c, rfl, rfl⟩
    exact .min c

theorem max_iff :
    Computes w a (.apply (.max x)) v b ↔
      v = w ∧ ∃ c : Checked w, x = c.toValue ∧ b = Max.max a c.val := by
  constructor
  · rintro ⟨⟩
    exact ⟨rfl, _, rfl, rfl⟩
  · rintro ⟨rfl, c, rfl, rfl⟩
    exact .max c

end Computes

/-- The steps of arithmetic: those whose answer is a checked integer made from the accumulator. -/
def Step.IsArithmetic : Step → Prop
  | .cast _ => True
  | .apply (.add _) | .apply (.sub _) | .apply (.mul _) | .apply (.div _) => True
  | .apply (.root _) | .apply (.min _) | .apply (.max _) => True
  | _ => False

theorem Computes.isArithmetic {w v : Width} {a b : Int} {x : Step} (computes : Computes w a x v b) :
    x.IsArithmetic := by
  cases computes <;> trivial

def arithmetic : List (Value → Operation) := [.add, .sub, .mul, .div]

/-- A step whose operand is an integer or a value of the width; a degree is an integer. -/
inductive Step.Fits (w : Width) : Step → Prop where
  | cast (target : Width) : Fits w (.cast target)
  | plain {operation} (member : operation ∈ arithmetic) (n : Int) :
      Fits w (.apply (operation (.int n)))
  | own {operation} (member : operation ∈ arithmetic) (c : Checked w) :
      Fits w (.apply (operation c.toValue))
  | root (degree : Int) : Fits w (.apply (.root (.int degree)))
  | min (c : Checked w) : Fits w (.apply (.min c.toValue))
  | max (c : Checked w) : Fits w (.apply (.max c.toValue))

/-- A step whose refusal would name an operand or degree that is too long to be written. -/
inductive Step.Unwritten : Step → Prop where
  | operand {operation} (member : operation ∈ arithmetic) {n : Int} (long : ¬ Text.IsShort n) :
      Unwritten (.apply (operation (.int n)))
  | degree {n : Int} (low : n < 1) (long : ¬ Text.IsShort n) : Unwritten (.apply (.root (.int n)))

end ExchangeFees.Chain

namespace ExchangeFees.Checked

variable {v w : Width} {a c : Checked w}

theorem operand_eq_ok {x : Value} {n : Int} : operand w x = .ok n ↔ Chain.Operand w x n := by
  cases x with
  | int m =>
    simp only [operand, bind_eq_ok, pure_eq_ok, ofInt, within_eq_ok]
    constructor
    · rintro ⟨c, value, rfl⟩
      rw [value]
      exact .plain (value ▸ ⟨c.lo_le, c.le_hi⟩)
    · rintro ⟨held⟩
      exact exists_val.mpr held |>.imp fun c value => ⟨value, value⟩
  | record r =>
    cases r with
    | checked v c =>
      simp only [operand]
      split
      · rename_i admitted
        rw [Except.ok.injEq]
        constructor
        · rintro rfl
          exact .checked c admitted
        · intro taken
          cases taken
          rfl
      · rename_i refused
        constructor
        · intro taken
          cases taken
        · intro taken
          cases taken
          contradiction
    | _ => exact iff_of_false (fun taken => by cases taken) fun taken => by cases taken
  | _ => exact iff_of_false (fun taken => by cases taken) fun taken => by cases taken

theorem rootOf_eq_ok {x : Value} :
    a.rootOf x = .ok c ↔ ∃ degree, x = .int degree ∧ Root.IsFloor a.val degree c.val := by
  have rooted : ∀ degree, a.rootOf (.int degree) = .ok c ↔ Root.IsFloor a.val degree c.val := by
    intro degree
    simp only [rootOf, Value.root, bind_eq_ok, Root.ofInt_eq_ok, ofResult, within_eq_ok]
    constructor
    · rintro ⟨r, floor, value⟩
      exact value ▸ floor
    · intro floor
      exact ⟨c.val, floor, rfl⟩
  cases x with
  | int degree =>
    rw [rooted]
    constructor
    · intro floor
      exact ⟨degree, rfl, floor⟩
    · rintro ⟨_, same, floor⟩
      cases same
      exact floor
  | _ =>
    constructor
    · intro rooted
      cases rooted
    · rintro ⟨_, same, _⟩
      cases same

theorem peer_eq_ok {order : Comparison} {x : Value} :
    peer order w x = .ok c ↔ x = c.toValue := by
  cases x with
  | record r =>
    cases r with
    | checked v d =>
      by_cases same : v = w
      · subst same
        simp [peer, toValue, Checked.ext_iff]
      · simp [peer, toValue, same]
    | _ => simp [peer, toValue]
  | _ => simp [peer, toValue]

theorem minOf_eq_ok {x : Value} :
    a.minOf x = .ok c ↔ ∃ b : Checked w, x = b.toValue ∧ c.val = Min.min a.val b.val := by
  simp only [minOf, bind_eq_ok, pure_eq_ok, peer_eq_ok, operand_eq_ok]
  constructor
  · rintro ⟨_, _, b, rfl, rfl⟩
    exact ⟨b, rfl, val_min a b⟩
  · rintro ⟨b, rfl, value⟩
    exact ⟨b.val, .checked b (Width.admits_self w), b, rfl, ext ((val_min a b).trans value.symm)⟩

theorem maxOf_eq_ok {x : Value} :
    a.maxOf x = .ok c ↔ ∃ b : Checked w, x = b.toValue ∧ c.val = Max.max a.val b.val := by
  simp only [maxOf, bind_eq_ok, pure_eq_ok, peer_eq_ok, operand_eq_ok]
  constructor
  · rintro ⟨_, _, b, rfl, rfl⟩
    exact ⟨b, rfl, val_max a b⟩
  · rintro ⟨b, rfl, value⟩
    exact ⟨b.val, .checked b (Width.admits_self w), b, rfl, ext ((val_max a b).trans value.symm)⟩

theorem toValue_eq {b : Checked w} {c : Checked v} :
    b.toValue = c.toValue ↔ v = w ∧ c.val = b.val := by
  constructor
  · intro same
    cases same
    exact ⟨rfl, rfl⟩
  · rintro ⟨rfl, value⟩
    rw [ext value]

theorem exists_toValue {v : Width} {c : Checked v} {P : Int → Prop} :
    (∃ b : Checked w, P b.val ∧ b.toValue = c.toValue) ↔ v = w ∧ P c.val := by
  constructor
  · rintro ⟨b, holds, same⟩
    obtain ⟨rfl, value⟩ := toValue_eq.mp same
    exact ⟨rfl, value ▸ holds⟩
  · rintro ⟨rfl, holds⟩
    exact ⟨c, holds, rfl⟩

end ExchangeFees.Checked

namespace ExchangeFees.Chain

/-- A step of arithmetic answers with what exact arithmetic computes, if a width holds it. -/
theorem answer_eq_ok {acc after : AnyChecked} {x : Step} (arithmetic : x.IsArithmetic) :
    x.answer acc = .ok after.toValue ↔
      Computes acc.width acc.number.val x after.width after.number.val := by
  obtain ⟨w, a⟩ := acc
  obtain ⟨v, c⟩ := after
  dsimp only [AnyChecked.toValue]
  cases x with
  | cast target =>
    simp only [Step.answer, bind_eq_ok, pure_eq_ok, Checked.cast_eq_ok, Computes.cast_iff]
    exact Checked.exists_toValue (P := fun m => m = a.val)
  | apply operation =>
    cases operation with
    | add x =>
      simp only [Step.answer, Checked.apply, bind_eq_ok, pure_eq_ok, Checked.operand_eq_ok,
        Checked.add_eq_ok, Computes.add_iff]
      exact exists_congr fun n => and_congr_right fun _ =>
        Checked.exists_toValue (P := fun m => m = a.val + n)
    | sub x =>
      simp only [Step.answer, Checked.apply, bind_eq_ok, pure_eq_ok, Checked.operand_eq_ok,
        Checked.sub_eq_ok, Computes.sub_iff]
      exact exists_congr fun n => and_congr_right fun _ =>
        Checked.exists_toValue (P := fun m => m = a.val - n)
    | mul x =>
      simp only [Step.answer, Checked.apply, bind_eq_ok, pure_eq_ok, Checked.operand_eq_ok,
        Checked.mul_eq_ok, Computes.mul_iff]
      exact exists_congr fun n => and_congr_right fun _ =>
        Checked.exists_toValue (P := fun m => m = a.val * n)
    | div x =>
      simp only [Step.answer, Checked.apply, bind_eq_ok, pure_eq_ok, Checked.operand_eq_ok,
        Checked.div_eq_ok, Computes.div_iff, and_assoc, exists_and_left]
      exact exists_congr fun n => and_congr_right fun _ => and_congr_right fun _ =>
        Checked.exists_toValue (P := fun m => m = a.val.tdiv n)
    | root x =>
      simp only [Step.answer, Checked.apply, bind_eq_ok, pure_eq_ok, Checked.rootOf_eq_ok,
        Computes.root_iff]
      exact Checked.exists_toValue
        (P := fun m => ∃ degree, x = .int degree ∧ Root.IsFloor a.val degree m)
    | min x =>
      simp only [Step.answer, Checked.apply, bind_eq_ok, pure_eq_ok, Checked.minOf_eq_ok,
        Computes.min_iff]
      exact Checked.exists_toValue
        (P := fun m => ∃ b : Checked w, x = b.toValue ∧ m = Min.min a.val b.val)
    | max x =>
      simp only [Step.answer, Checked.apply, bind_eq_ok, pure_eq_ok, Checked.maxOf_eq_ok,
        Computes.max_iff]
      exact Checked.exists_toValue
        (P := fun m => ∃ b : Checked w, x = b.toValue ∧ m = Max.max a.val b.val)
    | _ => exact arithmetic.elim

theorem exists_after {acc : AnyChecked} {x : Step} {y : Value} (arithmetic : x.IsArithmetic)
    (answered : x.answer acc = .ok y) : ∃ after : AnyChecked, y = after.toValue := by
  cases x with
  | cast target =>
    simp only [Step.answer, bind_eq_ok, pure_eq_ok] at answered
    obtain ⟨c, _, rfl⟩ := answered
    exact ⟨⟨_, c⟩, rfl⟩
  | apply operation =>
    cases operation with
    | add | sub | mul | div =>
      simp only [Step.answer, Checked.apply, bind_eq_ok, pure_eq_ok] at answered
      obtain ⟨n, _, c, _, rfl⟩ := answered
      exact ⟨⟨_, c⟩, rfl⟩
    | root | min | max =>
      simp only [Step.answer, Checked.apply, bind_eq_ok, pure_eq_ok] at answered
      obtain ⟨c, _, rfl⟩ := answered
      exact ⟨⟨_, c⟩, rfl⟩
    | _ => exact arithmetic.elim

theorem next_of_not_arithmetic {acc : AnyChecked} {x : Step} (other : ¬ x.IsArithmetic) :
    next acc (x.answer acc) = acc := by
  cases x with
  | cast target => exact absurd trivial other
  | apply operation =>
    cases operation with
    | add | sub | mul | div | root | min | max => exact absurd trivial other
    | itself | isZero | isNegative | integer | hexadecimal | text | describe => rfl
    | compare order x =>
      simp only [Step.answer, Checked.apply]
      cases Checked.peer order acc.width x with
      | ok c => rfl
      | error e => rfl
    | equal x => cases x <;> rfl

theorem computes_iff {acc : AnyChecked} {x : Step} {v : Width} {b : Int} :
    Computes acc.width acc.number.val x v b ∧ v.Holds b ↔
      x.IsArithmetic ∧
        ∃ after : AnyChecked, after.width = v ∧ after.number.val = b ∧
          x.answer acc = .ok after.toValue := by
  constructor
  · rintro ⟨computes, held⟩
    obtain ⟨c, rfl⟩ := Checked.exists_val.mpr held
    let after : AnyChecked := ⟨v, c⟩
    have answered : x.answer acc = .ok after.toValue :=
      (answer_eq_ok computes.isArithmetic).mpr computes
    exact ⟨computes.isArithmetic, after, rfl, rfl, answered⟩
  · rintro ⟨arithmetic, after, rfl, rfl, answered⟩
    exact ⟨(answer_eq_ok arithmetic).mp answered, after.number.lo_le, after.number.le_hi⟩

/-- One step on an integer with a width, without checked integers: it moves to what exact
arithmetic computes if the width for it holds that, and stays otherwise. -/
inductive Moves (w : Width) (a : Int) (x : Step) : Width → Int → Prop where
  | goes {v b} (computes : Computes w a x v b) (held : v.Holds b) : Moves w a x v b
  | stays (none : ∀ v b, Computes w a x v b → ¬ v.Holds b) : Moves w a x w a

/-- Where a chain of steps leads an integer with a width. -/
inductive Leads : Width → Int → List Step → Width → Int → Prop where
  | nil (w a) : Leads w a [] w a
  | cons {w a x v b rest u c} (first : Moves w a x v b) (others : Leads v b rest u c) :
      Leads w a (x :: rest) u c

theorem next_of_none {acc : AnyChecked} {x : Step}
    (none : ∀ v b, Computes acc.width acc.number.val x v b → ¬ v.Holds b) :
    next acc (x.answer acc) = acc := by
  by_cases arithmetic : x.IsArithmetic
  · cases answered : x.answer acc with
    | error e => rfl
    | ok y =>
      obtain ⟨after, rfl⟩ := exists_after arithmetic answered
      obtain ⟨computes, held⟩ := computes_iff.mpr ⟨arithmetic, after, rfl, rfl, answered⟩
      exact absurd held (none _ _ computes)
  · exact next_of_not_arithmetic arithmetic

/-- The accumulator moves as the integer does. -/
theorem moves_iff {acc : AnyChecked} {x : Step} {v : Width} {b : Int} :
    Moves acc.width acc.number.val x v b ↔
      (next acc (x.answer acc)).width = v ∧ (next acc (x.answer acc)).number.val = b := by
  by_cases goes : ∃ v b, Computes acc.width acc.number.val x v b ∧ v.Holds b
  · obtain ⟨u, c, goes⟩ := goes
    obtain ⟨_, after, rfl, rfl, answered⟩ := computes_iff.mp goes
    have moved : next acc (x.answer acc) = after := by rw [answered]; rfl
    rw [moved]
    constructor
    · rintro (⟨computes, held⟩ | ⟨none⟩)
      · obtain ⟨_, other, rfl, rfl, again⟩ := computes_iff.mp ⟨computes, held⟩
        exact Checked.toValue_eq.mp (Except.ok.inj (again.symm.trans answered))
      · exact absurd goes.2 (none _ _ goes.1)
    · rintro ⟨rfl, rfl⟩
      exact .goes goes.1 goes.2
  · have none : ∀ v b, Computes acc.width acc.number.val x v b → ¬ v.Holds b :=
      fun v b computes held => goes ⟨v, b, computes, held⟩
    rw [next_of_none none]
    constructor
    · rintro (⟨computes, held⟩ | _)
      · exact absurd held (none _ _ computes)
      · exact ⟨rfl, rfl⟩
    · rintro ⟨rfl, rfl⟩
      exact .stays none

def final (acc : AnyChecked) (steps : List Step) : AnyChecked :=
  steps.foldl (fun acc x => next acc (x.answer acc)) acc

theorem leads_iff {acc : AnyChecked} {steps : List Step} {v : Width} {b : Int} :
    Leads acc.width acc.number.val steps v b ↔
      (final acc steps).width = v ∧ (final acc steps).number.val = b := by
  -- The integer and the accumulator take every step together, so they end together.
  induction steps generalizing acc with
  | nil =>
    constructor
    · rintro ⟨⟩
      exact ⟨rfl, rfl⟩
    · rintro ⟨rfl, rfl⟩
      exact .nil _ _
  | cons x rest ih =>
    constructor
    · rintro (_ | ⟨first, others⟩)
      obtain ⟨rfl, rfl⟩ := moves_iff.mp first
      exact ih.mp others
    · intro ends
      exact .cons (moves_iff.mpr ⟨rfl, rfl⟩) (ih.mpr ends)

theorem length_run (acc : AnyChecked) (steps : List Step) :
    (run acc steps).length = steps.length := by
  induction steps generalizing acc with
  | nil => rfl
  | cons x rest ih => exact congrArg Nat.succ (ih _)

/-- What a run shows of a step comes from the accumulator after the steps before it. -/
theorem run_append (acc : AnyChecked) (before rest : List Step) :
    run acc (before ++ rest) = run acc before ++ run (final acc before) rest := by
  induction before generalizing acc with
  | nil => rfl
  | cons x before ih => exact congrArg _ (ih _)

theorem answer_failsOnly {faults : Error → Prop} {acc : AnyChecked} {x : Step}
    (fits : x.Fits acc.width) (arithmetical : ∀ fault, faults (.arithmetic fault))
    (unwritten : x.Unwritten → faults .longInteger) : FailsOnly faults (x.answer acc) := by
  obtain ⟨w, a⟩ := acc
  have applied : ∀ operation ∈ arithmetic, ∀ y, FailsOnly faults (Checked.operand w y) →
      FailsOnly faults (a.apply (operation y)) := by
    intro operation member y taken
    simp only [arithmetic, List.mem_cons, List.not_mem_nil, or_false] at member
    obtain rfl | rfl | rfl | rfl := member
    · exact taken.bind fun n => (Checked.ofResult_failsOnly arithmetical _ _).bind fun _ => .ok _
    · exact taken.bind fun n => (Checked.ofResult_failsOnly arithmetical _ _).bind fun _ => .ok _
    · exact taken.bind fun n => (Checked.ofResult_failsOnly arithmetical _ _).bind fun _ => .ok _
    · exact taken.bind fun n => (Checked.div_failsOnly arithmetical _ _).bind fun _ => .ok _
  cases fits with
  | cast target => exact (Checked.cast_failsOnly arithmetical _ _).bind fun _ => .ok _
  | plain member n =>
    refine applied _ member _ (FailsOnly.bind ?_ fun _ => .ok _)
    exact Checked.ofInt_failsOnly arithmetical w fun long => unwritten (.operand member long)
  | own member c =>
    refine applied _ member _ ?_
    rw [Checked.operand_eq_ok.mpr (.checked c (Width.admits_self w))]
    exact .ok _
  | root degree =>
    have rooted :=
      Checked.root_failsOnly arithmetical a fun low long => unwritten (.degree low long)
    exact rooted.bind fun _ => .ok _
  | min c =>
    refine FailsOnly.bind ?_ fun _ => .ok _
    rw [Checked.minOf_toValue]
    exact .ok _
  | max c =>
    refine FailsOnly.bind ?_ fun _ => .ok _
    rw [Checked.maxOf_toValue]
    exact .ok _

theorem answer_of_unwritten {acc : AnyChecked} {x : Step} (unwritten : x.Unwritten) :
    x.answer acc = .error .longInteger := by
  obtain ⟨w, a⟩ := acc
  cases unwritten with
  | @operand operation member n long =>
    have refused : Checked.operand w (.int n) = .error .longInteger := by
      rw [Checked.operand, Checked.ofInt_of_long long]
      rfl
    simp only [arithmetic, List.mem_cons, List.not_mem_nil, or_false] at member
    obtain rfl | rfl | rfl | rfl := member
    all_goals
      simp only [Step.answer, Checked.apply, refused]
      rfl
  | @degree n low long =>
    have refused : Root.ofInt a.val n = .error .longInteger := by
      rw [Root.ofInt, if_pos low, Error.naming_of_long long]
    simp only [Step.answer, Checked.apply, Checked.rootOf, Value.root, refused]
    rfl

/-- An operand of a width that the accumulator does not admit is refused, whatever it holds. -/
theorem answer_foreign {acc : AnyChecked} {v : Width} (c : Checked v)
    (foreign : acc.width.admits v = false) {operation : Value → Operation}
    (member : operation ∈ arithmetic ++ [.min, .max]) :
    Step.answer acc (.apply (operation c.toValue)) =
      .error (.mismatch (.operand acc.width (.checked v))) := by
  have refused : Checked.operand acc.width c.toValue =
      .error (.mismatch (.operand acc.width (.checked v))) := by
    simp only [Checked.operand, Checked.toValue, foreign, Bool.false_eq_true, if_false]
  simp only [arithmetic, List.mem_append, List.mem_cons, List.not_mem_nil, or_false] at member
  obtain (rfl | rfl | rfl | rfl) | rfl | rfl := member
  all_goals
    simp only [Step.answer, Checked.apply, Checked.minOf, Checked.maxOf, refused]
    rfl

/-- What a step answers at an accumulator, and the accumulator after it. -/
structure Outcome (acc : AnyChecked) (x : Step) (answer : Except Error Value)
    (after : AnyChecked) : Prop where
  /-- A step of arithmetic returns exactly if exact arithmetic computes what its width holds. -/
  succeeds : x.IsArithmetic →
    ((∃ y, answer = .ok y) ↔ ∃ v b, Computes acc.width acc.number.val x v b ∧ v.Holds b)
  moves : ∀ v b, Computes acc.width acc.number.val x v b → v.Holds b →
    answer = .ok after.toValue ∧ after.width = v ∧ after.number.val = b
  stays : (∀ v b, Computes acc.width acc.number.val x v b → ¬ v.Holds b) → after = acc
  fails : x.Fits acc.width → ¬ x.Unwritten → ∀ e, answer = .error e → ∃ fault, e = .arithmetic fault
  unwritten : x.Unwritten → answer = .error .longInteger ∧ after = acc
  refuses : ∀ {v} (c : Checked v), acc.width.admits v = false →
    ∀ operation ∈ arithmetic ++ [.min, .max], x = .apply (operation c.toValue) →
      answer = .error (.mismatch (.operand acc.width (.checked v))) ∧ after = acc

theorem step_outcome (acc : AnyChecked) (x : Step) :
    Outcome acc x (x.answer acc) (next acc (x.answer acc)) where
  succeeds arithmetic := by
    constructor
    · rintro ⟨y, answered⟩
      obtain ⟨after, rfl⟩ := exists_after arithmetic answered
      exact ⟨_, _, computes_iff.mpr ⟨arithmetic, after, rfl, rfl, answered⟩⟩
    · rintro ⟨v, b, goes⟩
      obtain ⟨_, after, _, _, answered⟩ := computes_iff.mp goes
      exact ⟨_, answered⟩
  moves v b computes held := by
    obtain ⟨_, after, rfl, rfl, answered⟩ := computes_iff.mp ⟨computes, held⟩
    rw [answered]
    exact ⟨rfl, rfl, rfl⟩
  stays := next_of_none
  fails fits written :=
    answer_failsOnly fits (fun fault => ⟨fault, rfl⟩) fun un => absurd un written
  unwritten un := by
    rw [answer_of_unwritten un]
    exact ⟨rfl, rfl⟩
  refuses c foreign operation member same := by
    subst same
    rw [answer_foreign c foreign member]
    exact ⟨rfl, rfl⟩

/-- An accumulator that stands where the steps lead the integer it started from, and nowhere
else. -/
def Follows (start : AnyChecked) (steps : List Step) (here : AnyChecked) : Prop :=
  ∀ v b, Leads start.width start.number.val steps v b ↔ here.width = v ∧ here.number.val = b

theorem final_follows (acc : AnyChecked) (steps : List Step) :
    Follows acc steps (final acc steps) := fun _ _ => leads_iff

/-- A chain of any length simulates the chain in unbounded integers: every step finds the
accumulator where the steps before it lead that integer, answers from there, and leaves it where
the integer is led next. A step that fails does so by arithmetic, as long as the integer that it was
given can be written. -/
theorem run_simulates_integers (acc : AnyChecked) (steps : List Step) :
    (run acc steps).length = steps.length ∧
      ∀ i : Fin steps.length, ∃ here answer after,
        (run acc steps)[i]? = some (answer, after) ∧
        Follows acc (steps.take i) here ∧ Follows acc (steps.take (i + 1)) after ∧
        after.width.Holds after.number.val ∧ Outcome here steps[i] answer after := by
  refine ⟨length_run acc steps, fun i => ?_⟩
  let here := final acc (steps.take i)
  let answer := steps[i].answer here
  have entry : (run acc steps)[i]? = some (answer, next here answer) := by
    have split : steps.take i ++ steps[i] :: steps.drop (i + 1) = steps := by simp
    have entries := run_append acc (steps.take i) (steps[i] :: steps.drop (i + 1))
    rw [split] at entries
    rw [entries, Fin.getElem?_fin, List.getElem?_append_right]
    · simp [length_run, run, answer, here]
    · simp [length_run]
  have moved : final acc (steps.take (i + 1)) = next here answer := by
    rw [List.take_succ_eq_append_getElem i.isLt]
    exact List.foldl_append
  exact ⟨here, answer, next here answer, entry, final_follows _ _, moved ▸ final_follows _ _,
    ⟨(next here answer).number.lo_le, (next here answer).number.le_hi⟩, step_outcome here steps[i]⟩

/-- A plain operand with a digit more than are written is refused, and not by arithmetic. -/
theorem long_operand_unnamed :
    let zero : AnyChecked := ⟨.u128, .zero⟩
    let addition : Step := .apply (.add (.int (10 ^ Text.digitLimit)))
    addition.Fits zero.width ∧ run zero [addition] = [(.error .longInteger, zero)] := by
  intro zero addition
  have addition_member : Operation.add ∈ arithmetic := by simp [arithmetic]
  have answered : addition.answer zero = .error .longInteger :=
    answer_of_unwritten (.operand addition_member Text.not_isShort_pow)
  refine ⟨.plain addition_member _, ?_⟩
  rw [run, answered]
  rfl

/-- The least value of a signed width has no quotient by minus one, and stays. -/
example :
    let least : AnyChecked := ⟨.i64, -9223372036854775808, by decide, by decide⟩
    run least [.apply (.div (.int (-1)))] =
      [(.error (.arithmetic (.overflow .i64 9223372036854775808)), least)] := rfl

end ExchangeFees.Chain
