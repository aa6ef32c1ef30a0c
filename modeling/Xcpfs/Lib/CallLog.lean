import Xcpfs.Lib.EventRun

/-! Calls of many steps that take effect in one of them. The log has each call with its answer,
in the order of these steps; a run of the machine is then a run of the calls one after the other. -/
namespace CallLog

open EventRun

variable {S E A C R : Type*}

inductive Replays (spec : A → C → R → A → Prop) : A → List (C × R) → A → Prop where
  | nil (a) : Replays spec a [] a
  | cons {a b c call answer log} (here : spec a call answer b) (rest : Replays spec b log c) : Replays spec a ((call,answer) :: log) c

/- A step ends one call at most. -/
def Answers (spec : A → C → R → A → Prop) (before after : List (C × R)) (a b : A) : Prop :=
  (after = before ∧ b = a) ∨ ∃ call answer, after = before ++ [(call,answer)] ∧ spec a call answer b

variable {spec : A → C → R → A → Prop} {a b c : A} {log : List (C × R)} {call : C} {answer : R}

theorem replaysSnoc (first : Replays spec a log b) (last : spec b call answer c) : Replays spec a (log ++ [(call,answer)]) c := by
  induction first with
  | nil a => exact .cons last (.nil c)
  | cons here rest ih => exact .cons here (ih last)

theorem replaysStep {after : List (C × R)} (first : Replays spec a log b) (step : Answers spec log after b c) : Replays spec a after c := by
  rcases step with ⟨same,still⟩ | ⟨call,answer,same,last⟩
  · rw [same,still]
    exact first
  · rw [same]
    exact replaysSnoc first last

theorem replaysRun {ok : S → E → Prop} {step : S → E → Option S} {s t : S} {events : List E} (logged : S → List (C × R)) (rel : S → A → Prop)
    (keeps : ∀ s event t b, rel s b → ok s event → step s event = some t → ∃ c, rel t c ∧ Answers spec (logged s) (logged t) b c)
    (run : Run ok step s events t) (init : rel s b) (before : Replays spec a (logged s) b) :
    ∃ c, rel t c ∧ Replays spec a (logged t) c := by
  induction run generalizing b with
  | nil s => exact ⟨b,init,before⟩
  | cons guard here rest ih =>
    obtain ⟨c,related,answers⟩ := keeps _ _ _ b init guard here
    exact ih related (replaysStep before answers)

/- What the calls mean on one level is carried over to the next; `rel` also knows the calls to come. -/
theorem replaysSimulates {B D : Type*} {above : B → D → R → B → Prop} {code : D → C} (rel : List (D × R) → A → B → Prop)
    (steps : ∀ call answer rest a b c, rel ((call,answer) :: rest) a b → spec a (code call) answer c → ∃ d, above b call answer d ∧ rel rest c d)
    {calls : List (D × R)} (replays : Replays spec a (calls.map fun entry => (code entry.1,entry.2)) c) {b : B} (init : rel calls a b) :
    ∃ d, Replays above b calls d ∧ rel [] c d := by
  induction calls generalizing a b with
  | nil =>
    cases replays
    exact ⟨b,.nil b,init⟩
  | cons entry rest ih =>
    obtain ⟨call,answer⟩ := entry
    cases replays with
    | cons here later =>
      obtain ⟨d,takes,related⟩ := steps call answer rest _ _ _ init here
      obtain ⟨e,run,ends⟩ := ih later related
      exact ⟨e,.cons takes run,ends⟩

end CallLog
