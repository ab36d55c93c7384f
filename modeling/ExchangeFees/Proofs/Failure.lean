import ExchangeFees.Trace

/-! How computations in several steps succeed and fail. A computation returns exactly if
each of its steps does, and fails by arithmetic only if none of its steps fails otherwise. -/
namespace ExchangeFees

variable {α β : Type}

theorem bind_eq_ok {ε : Type} {x : Except ε α} {f : α → Except ε β} {b : β} :
    (x >>= f) = .ok b ↔ ∃ a, x = .ok a ∧ f a = .ok b := by
  constructor
  · intro bound
    cases x with
    | error e => cases bound
    | ok a => exact ⟨a, rfl, bound⟩
  · rintro ⟨a, rfl, next⟩
    exact next

theorem mapError_eq_ok {ε ε' : Type} {x : Except ε α} {f : ε → ε'} {a : α} :
    x.mapError f = .ok a ↔ x = .ok a := by
  constructor
  · intro mapped
    cases x with
    | error e => cases mapped
    | ok b =>
      cases mapped
      rfl
  · rintro rfl
    rfl

theorem bind_eq_error {x : Except Error α} {f : α → Except Error β} {e : Error} :
    (x >>= f) = .error e ↔ x = .error e ∨ ∃ a, x = .ok a ∧ f a = .error e := by
  cases x with
  | error e' => simp [bind, Except.bind]
  | ok a => simp [bind, Except.bind]

theorem ok_bind (a : α) (f : α → Except Error β) : (Except.ok a >>= f) = f a := rfl

theorem error_bind (e : Error) (f : α → Except Error β) :
    (Except.error e >>= f) = .error e := rfl

theorem pure_eq_ok {a b : α} : (pure a : Except Error α) = .ok b ↔ a = b :=
  Except.ok.injEq a b ▸ Iff.rfl

/-- Computations that look alike once their results are read fail alike or return what reads
alike. -/
theorem map_eq_map {x y : Except Error α} {f : α → β} (alike : f <$> x = f <$> y) :
    (∃ e, x = .error e ∧ y = .error e) ∨ ∃ a b, x = .ok a ∧ y = .ok b ∧ f a = f b := by
  cases x with
  | error e =>
    cases y with
    | error e' =>
      obtain rfl := Except.error.inj alike
      exact .inl ⟨e, rfl, rfl⟩
    | ok b => cases alike
  | ok a =>
    cases y with
    | error e' => cases alike
    | ok b => exact .inr ⟨a, b, rfl, rfl, Except.ok.inj alike⟩

/-- Computations that look alike once their failures are read fail in ways that read alike or
return the same. -/
theorem mapError_eq_mapError {ε : Type} {x y : Except Error α} {f : Error → ε}
    (alike : x.mapError f = y.mapError f) :
    (∃ e e', x = .error e ∧ y = .error e' ∧ f e = f e') ∨ ∃ a, x = .ok a ∧ y = .ok a := by
  cases x with
  | error e =>
    cases y with
    | error e' => exact .inl ⟨e, e', rfl, rfl, Except.error.inj alike⟩
    | ok b => cases alike
  | ok a =>
    cases y with
    | error e' => cases alike
    | ok b =>
      obtain rfl := Except.ok.inj alike
      exact .inr ⟨a, rfl, rfl⟩

/-- A computation that returns exactly what describes a settled case returns exactly if there
is such a case, as long as each has a description. -/
theorem exists_ok_iff {x : Except Error α} {settles : β → Prop} {describes : β → α → Prop}
    (returns : ∀ a, x = .ok a ↔ ∃ n, settles n ∧ describes n a)
    (described : ∀ n, settles n → ∃ a, describes n a) :
    (∃ a, x = .ok a) ↔ ∃ n, settles n := by
  constructor
  · rintro ⟨a, returned⟩
    obtain ⟨n, settled, _⟩ := (returns a).mp returned
    exact ⟨n, settled⟩
  · rintro ⟨n, settled⟩
    obtain ⟨a, description⟩ := described n settled
    exact ⟨a, (returns a).mpr ⟨n, settled, description⟩⟩

namespace Traced

@[simp] theorem result_liftM (r : Except Error α) : (liftM r : Traced α).result = r := rfl

@[simp] theorem result_log (line : TraceLine) : (log line).result = .ok () := rfl

/-- A failure ends a computation before it writes anything. -/
theorem error_bind (e : Error) (f : α → Traced β) :
    ((liftM (Except.error e) : Traced α) >>= f) = ⟨[], .error e⟩ := rfl

protected theorem id_map (x : Traced α) : id <$> x = x := by
  obtain ⟨lines, result⟩ := x
  cases result with
  | error e => rfl
  | ok a => exact congrArg (mk · (.ok a)) (List.append_nil lines)

protected theorem bind_assoc {γ : Type} (x : Traced α) (f : α → Traced β) (g : β → Traced γ) :
    x >>= f >>= g = x >>= fun a => f a >>= g := by
  obtain ⟨lines, result⟩ := x
  cases result with
  | error e => rfl
  | ok a =>
    simp only [Bind.bind, Traced.bind]
    cases (f a).result with
    | error e => rfl
    | ok b => simp only [List.append_assoc]

instance : LawfulMonad Traced :=
  LawfulMonad.mk' Traced Traced.id_map (fun _ _ => rfl) Traced.bind_assoc

@[simp] theorem result_map (f : α → β) (x : Traced α) : (f <$> x).result = f <$> x.result := by
  obtain ⟨lines, result⟩ := x
  cases result <;> rfl

@[simp] theorem lines_map (f : α → β) (x : Traced α) : (f <$> x).lines = x.lines := by
  obtain ⟨lines, result⟩ := x
  cases result with
  | error e => rfl
  | ok a => exact List.append_nil lines

end Traced

/-- A computation that fails in no other way than the given ones. -/
def FailsOnly (faults : Error → Prop) (x : Except Error α) : Prop := ∀ e, x = .error e → faults e

namespace FailsOnly

variable {faults wider : Error → Prop}

theorem ok (a : α) : FailsOnly faults (.ok a) := by
  intro e failed
  cases failed

theorem error {e : Error} (fault : faults e) : FailsOnly faults (.error e : Except Error α) := by
  intro e' failed
  cases failed
  exact fault

theorem bind_of_ok {x : Except Error α} {f : α → Except Error β} (first : FailsOnly faults x)
    (rest : ∀ a, x = .ok a → FailsOnly faults (f a)) : FailsOnly faults (x >>= f) := by
  intro e failed
  cases x with
  | error e' =>
    cases failed
    exact first e rfl
  | ok a => exact rest a rfl e failed

theorem bind {x : Except Error α} {f : α → Except Error β} (first : FailsOnly faults x)
    (rest : ∀ a, FailsOnly faults (f a)) : FailsOnly faults (x >>= f) :=
  first.bind_of_ok fun a _ => rest a

theorem map {x : Except Error α} {f : α → β} (fails : FailsOnly faults x) :
    FailsOnly faults (f <$> x) := by
  intro e failed
  cases x with
  | error e' =>
    cases failed
    exact fails e rfl
  | ok a => cases failed

theorem mapM {f : α → Except Error β} {l : List α} (each : ∀ a ∈ l, FailsOnly faults (f a)) :
    FailsOnly faults (l.mapM f) := by
  induction l with
  | nil => exact .ok []
  | cons a rest ih =>
    obtain ⟨first, others⟩ := List.forall_mem_cons.mp each
    rw [List.mapM_cons]
    exact first.bind fun _ => (ih others).bind fun _ => .ok _

theorem mono {x : Except Error α} (weaker : ∀ e, faults e → wider e) (fails : FailsOnly faults x) :
    FailsOnly wider x :=
  fun e failed => weaker e (fails e failed)

end FailsOnly

namespace Error

variable {n : Int}

theorem naming_of_short (short : Text.IsShort n) (e : Error) : naming n e = e := if_pos short

theorem naming_of_long (long : ¬ Text.IsShort n) (e : Error) : naming n e = .longInteger :=
  if_neg long

/-- A failure that names an integer is arithmetic, or that of writing an integer too long. -/
theorem naming_fails {faults : Error → Prop} (arithmetic : ∀ fault, faults (.arithmetic fault))
    (long : ¬ Text.IsShort n → faults .longInteger) (fault : ArithmeticFault) :
    faults (.naming n (.arithmetic fault)) := by
  by_cases short : Text.IsShort n
  · rw [naming_of_short short]
    exact arithmetic fault
  · rw [naming_of_long short]
    exact long short

end Error

/-- A computation that returns exactly under a condition, and fails in the given ways only. -/
structure ReturnsExactly (condition : Prop) (faults : Error → Prop) (x : Except Error α) :
    Prop where
  returns : (∃ a, x = .ok a) ↔ condition
  fails : FailsOnly faults x

namespace ReturnsExactly

variable {condition : Prop} {faults : Error → Prop}

theorem ok (a : α) (holds : condition) : ReturnsExactly condition faults (.ok a) :=
  ⟨⟨fun _ => holds, fun _ => ⟨a, rfl⟩⟩, .ok a⟩

theorem error {e : Error} (excluded : ¬ condition) (fault : faults e) :
    ReturnsExactly condition faults (.error e : Except Error α) := by
  refine ⟨⟨?_, fun holds => absurd holds excluded⟩, .error fault⟩
  rintro ⟨a, returned⟩
  cases returned

end ReturnsExactly

/-- A computation that fails by arithmetic if it fails at all, or because one of the integers that
it is given is too long to be written. -/
def Arithmetical (given : List Int) (x : Except Error α) : Prop :=
  ∀ e, x = .error e →
    (∃ fault, e = .arithmetic fault) ∨ e = .longInteger ∧ ∃ n ∈ given, ¬ Text.IsShort n

namespace Arithmetical

variable {given : List Int} {x : Except Error α}

theorem of_failsOnly
    (fails : ∀ faults : Error → Prop, (∀ fault, faults (.arithmetic fault)) →
      (∀ n ∈ given, ¬ Text.IsShort n → faults .longInteger) → FailsOnly faults x) :
    Arithmetical given x :=
  fails _ (fun fault => .inl ⟨fault, rfl⟩) fun n member long => .inr ⟨rfl, n, member, long⟩

end Arithmetical
end ExchangeFees
