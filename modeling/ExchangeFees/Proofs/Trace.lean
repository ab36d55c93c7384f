import ExchangeFees.Proofs.Failure

/-! What a computation writes until it ends, and what is printed of it. A condition on the lines and
the answer is carried through a computation step by step: a step that writes nothing may fail only
where the lines so far fit a failure. Printed lines on different topics are told apart by the marks
they start with. -/
namespace ExchangeFees

/-- A text that starts with the mark of a topic. -/
def Topic.Marks (topic : Topic) (text : String) : Prop := topic.mark.toList <+: text.toList

instance (topic : Topic) (text : String) : Decidable (topic.Marks text) :=
  inferInstanceAs (Decidable (_ <+: _))

namespace TraceLine

theorem marks_own_text (line : TraceLine) : line.topic.Marks line.text := by
  unfold Topic.Marks text
  rw [String.toList_append]
  exact List.prefix_append _ _

/-- The text of a line starts with the mark of its own topic and of no other. -/
theorem marks_text {topic : Topic} {line : TraceLine} :
    topic.Marks line.text ↔ line.topic = topic := by
  constructor
  · intro marked
    have apart : ∀ a b : Topic, a.mark.toList <+: b.mark.toList → b = a := by
      intro a b
      cases a <;> cases b <;> decide
    obtain front | front := List.prefix_or_prefix_of_prefix marked line.marks_own_text
    · exact apart _ _ front
    · exact (apart _ _ front).symm
  · rintro rfl
    exact line.marks_own_text

end TraceLine

variable {α β : Type}

/-- The printed lines on a topic. -/
def Printout.linesOn (p : Printout α) (topic : Topic) : List String :=
  p.lines.filter fun text => topic.Marks text

namespace Traced

variable {x : Traced α}

theorem lines_print_on : (x.print .on).lines = x.lines.map TraceLine.text := by
  have all : x.lines.filter (fun line => Toggles.on.prints line.topic) = x.lines := by
    refine List.filter_eq_self.mpr fun line _ => ?_
    cases line.topic <;> rfl
  exact congrArg (List.map TraceLine.text) all

theorem lines_print_off : (x.print .off).lines = [] := by
  have none : x.lines.filter (fun line => Toggles.off.prints line.topic) = [] := by
    refine List.filter_eq_nil_iff.mpr fun line _ => ?_
    cases line.topic <;> decide
  exact congrArg (List.map TraceLine.text) none

theorem linesOn_print_on (topic : Topic) :
    (x.print .on).linesOn topic =
      (x.lines.filter fun line => line.topic = topic).map TraceLine.text := by
  unfold Printout.linesOn
  rw [lines_print_on, List.filter_map]
  simp only [Function.comp_def, TraceLine.marks_text]

/-- A computation that, after some lines, returns with lines that fit its answer or fails with lines
that fit a failure. -/
structure Leaves (before : List TraceLine) (returns : List TraceLine → α → Prop)
    (fails : List TraceLine → Prop) (x : Traced α) : Prop where
  returned : ∀ a, x.result = .ok a → returns (before ++ x.lines) a
  failed : ∀ e, x.result = .error e → fails (before ++ x.lines)

namespace Leaves

variable {before : List TraceLine} {returns : List TraceLine → α → Prop}
  {returnsNext : List TraceLine → β → Prop} {fails : List TraceLine → Prop}

theorem pure {a : α} (fits : returns before a) :
    Leaves before returns fails (Pure.pure a) := by
  constructor
  · intro a' returned
    cases returned
    rwa [lines_pure, List.append_nil]
  · intro e failed
    cases failed

theorem bind {f : α → Traced β} (first : Leaves before returns fails x)
    (rest : ∀ lines a, returns lines a → Leaves lines returnsNext fails (f a)) :
    Leaves before returnsNext fails (x >>= f) := by
  obtain ⟨lines, result⟩ := x
  cases result with
  | error e =>
    constructor
    · intro b returned
      cases returned
    · exact fun _ _ => first.failed e rfl
  | ok a =>
    obtain ⟨returned, failed⟩ := rest _ a (first.returned a rfl)
    rw [List.append_assoc] at returned failed
    exact ⟨returned, failed⟩

/-- A step that writes nothing. -/
theorem step {r : Except Error α} {f : α → Traced β} (stops : fails before)
    (rest : ∀ a, Leaves before returnsNext fails (f a)) :
    Leaves before returnsNext fails ((liftM r : Traced α) >>= f) := by
  have silent : Leaves before (fun lines _ => lines = before) fails (liftM r : Traced α) :=
    ⟨fun _ _ => List.append_nil before, fun _ _ => (List.append_nil before).symm ▸ stops⟩
  refine silent.bind fun lines a same => ?_
  rw [same]
  exact rest a

theorem log {line : TraceLine} {f : Unit → Traced β}
    (rest : Leaves (before ++ [line]) returnsNext fails (f ())) :
    Leaves before returnsNext fails (Traced.log line >>= f) := by
  have written :
      Leaves before (fun lines _ => lines = before ++ [line]) fails (Traced.log line) := by
    constructor
    · exact fun _ _ => rfl
    · intro e failed
      cases failed
  refine written.bind fun lines _ same => ?_
  rw [same]
  exact rest

theorem map {g : α → β} (fits : Leaves before (fun lines a => returnsNext lines (g a)) fails x) :
    Leaves before returnsNext fails (g <$> x) := by
  rw [map_eq_pure_bind]
  exact fits.bind fun _ _ => pure

end Leaves
end Traced
end ExchangeFees
