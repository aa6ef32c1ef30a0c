import Mathlib.Data.List.Basic

/-! Runs of a machine that takes one event after the other. A guarded run also
keeps that every step met a condition on the state it started from. -/
namespace EventRun

variable {S E : Type*}

inductive Run (ok : S → E → Prop) (step : S → E → Option S) : S → List E → S → Prop where
  | nil (s) : Run ok step s [] s
  | cons {s next last event events} (guard : ok s event) (here : step s event = some next)
      (rest : Run ok step next events last) : Run ok step s (event :: events) last

variable {ok : S → E → Prop} {step : S → E → Option S} {s t u : S} {events more : List E}

theorem invariant (P : S → Prop)
    (keeps : ∀ s event next, P s → ok s event → step s event = some next → P next)
    (run : Run ok step s events t) (init : P s) : P t := by
  induction run with
  | nil s => exact init
  | cons guard here rest ih => exact ih (keeps _ _ _ init guard here)

theorem append (first : Run ok step s events t) (second : Run ok step t more u) :
    Run ok step s (events ++ more) u := by
  induction first with
  | nil s => exact second
  | cons guard here rest ih => exact .cons guard here (ih second)

theorem single {event : E} (guard : ok s event) (here : step s event = some t) : Run ok step s [event] t :=
  .cons guard here (.nil t)

theorem related (R : S → S → Prop) (refl : ∀ s, R s s) (trans : ∀ s t u, R s t → R t u → R s u)
    (steps : ∀ s event next, ok s event → step s event = some next → R s next)
    (run : Run ok step s events t) : R s t := by
  induction run with
  | nil s => exact refl s
  | cons guard here rest ih => exact trans _ _ _ (steps _ _ _ guard here) ih

theorem weaken {loose : S → E → Prop} (weaker : ∀ s event, ok s event → loose s event)
    (run : Run ok step s events t) : Run loose step s events t := by
  induction run with
  | nil s => exact .nil s
  | cons guard here rest ih => exact .cons (weaker _ _ guard) here ih

/- The same as a function on lists of events, with the guards beside it. -/
def exec (step : S → E → Option S) : S → List E → Option S
  | s,[] => some s
  | s,event :: events => (step s event).bind fun next => exec step next events

def Guarded (ok : S → E → Prop) (step : S → E → Option S) : S → List E → Prop
  | _,[] => True
  | s,event :: events => ok s event ∧ ∀ next, step s event = some next → Guarded ok step next events

theorem ofExec (ran : exec step s events = some t) (guarded : Guarded ok step s events) : Run ok step s events t := by
  induction events generalizing s with
  | nil =>
    cases ran
    exact .nil _
  | cons event events ih =>
    obtain ⟨next,here,rest⟩ := Option.bind_eq_some_iff.mp ran
    exact .cons guarded.1 here (ih rest (guarded.2 next here))

theorem guardedAll (all : ∀ event ∈ events, ∀ s, ok s event) (s : S) : Guarded ok step s events := by
  induction events generalizing s with
  | nil => trivial
  | cons event events ih =>
    exact ⟨all event List.mem_cons_self s,fun next _ => ih (fun other later => all other (List.mem_cons_of_mem _ later)) next⟩

theorem execInvariant (P : S → Prop) (keeps : ∀ s event next, P s → step s event = some next → P next)
    (ran : exec step s events = some t) (init : P s) : P t := by
  induction events generalizing s with
  | nil =>
    cases ran
    exact init
  | cons event events ih =>
    obtain ⟨next,here,rest⟩ := Option.bind_eq_some_iff.mp ran
    exact ih rest (keeps _ _ _ init here)

/- `Always P`: the property holds at the start and after every step that was taken.
`Meets ok`: every step that was taken met the condition on the state before it. -/
def Always (P : S → Prop) (step : S → E → Option S) : S → List E → Prop
  | s,[] => P s
  | s,event :: events => P s ∧ ∀ next, step s event = some next → Always P step next events

def Meets (ok : S → E → Prop) (step : S → E → Option S) : S → List E → Prop
  | _,[] => True
  | s,event :: events => ∀ next, step s event = some next → ok s event ∧ Meets ok step next events

theorem alwaysHead {P : S → Prop} (always : Always P step s events) : P s := by
  cases events with
  | nil => exact always
  | cons event events => exact always.1

theorem execSnoc {event : E} (first : exec step s events = some t) : exec step s (events ++ [event]) = step t event := by
  induction events generalizing s with
  | nil =>
    cases Option.some.inj first
    rw [List.nil_append,exec]
    exact Option.bind_fun_some _
  | cons head rest ih =>
    obtain ⟨next,here,later⟩ := Option.bind_eq_some_iff.mp first
    rw [List.cons_append,exec,here]
    exact ih later

theorem alwaysEnd {P : S → Prop} (always : Always P step s events) (ran : exec step s events = some t) : P t := by
  induction events generalizing s with
  | nil =>
    cases ran
    exact always
  | cons event events ih =>
    obtain ⟨next,here,rest⟩ := Option.bind_eq_some_iff.mp ran
    exact ih (always.2 next here) rest

theorem meetsBoth {other : S → E → Prop} (first : Meets ok step s events) (second : Meets other step s events) :
    Meets (fun s event => ok s event ∧ other s event) step s events := by
  induction events generalizing s with
  | nil => trivial
  | cons event events ih =>
    intro next here
    obtain ⟨met,rest⟩ := first next here
    obtain ⟨metToo,restToo⟩ := second next here
    exact ⟨⟨met,metToo⟩,ih rest restToo⟩

theorem alwaysMeets {P : S → Prop} (Inv : S → Prop) (good : ∀ s, Inv s → P s)
    (keeps : ∀ s event next, Inv s → step s event = some next → ok s event → Inv next) (init : Inv s)
    (meets : Meets ok step s events) : Always P step s events := by
  induction events generalizing s with
  | nil => exact good s init
  | cons event events ih =>
    refine ⟨good s init,?_⟩
    intro next here
    obtain ⟨met,rest⟩ := meets next here
    exact ih (keeps s event next init here met) rest

theorem meetsAll (all : ∀ s event, ok s event) (s : S) (events : List E) : Meets ok step s events := by
  induction events generalizing s with
  | nil => trivial
  | cons event events ih => exact fun next _ => ⟨all s event,ih next⟩

/- An invariant that the condition keeps, and whose property fails right after a
step that broke the condition, makes the condition exact. -/
theorem alwaysExact {P : S → Prop} {takes : S → E → Prop} (Inv : S → Prop) (good : ∀ s, Inv s → P s)
    (keeps : ∀ s event next, Inv s → takes s event → step s event = some next → ok s event → Inv next)
    (fails : ∀ s event next, Inv s → takes s event → step s event = some next → ¬ok s event → ¬P next) (init : Inv s)
    (taken : Meets takes step s events) : Always P step s events ↔ Meets ok step s events := by
  induction events generalizing s with
  | nil => exact ⟨fun _ => trivial,fun _ => good s init⟩
  | cons event events ih =>
    constructor
    · intro always next here
      have rest := always.2 next here
      by_cases met : ok s event
      · exact ⟨met,(ih (keeps s event next init (taken next here).1 here met) (taken next here).2).mp rest⟩
      · exact absurd (alwaysHead rest) (fails s event next init (taken next here).1 here met)
    · intro meets
      refine ⟨good s init,fun next here => ?_⟩
      obtain ⟨met,rest⟩ := meets next here
      exact (ih (keeps s event next init (taken next here).1 here met) (taken next here).2).mpr rest

theorem alwaysIff {P : S → Prop} (Inv : S → Prop) (good : ∀ s, Inv s → P s)
    (keeps : ∀ s event next, Inv s → step s event = some next → ok s event → Inv next)
    (fails : ∀ s event next, Inv s → step s event = some next → ¬ok s event → ¬P next) (init : Inv s) :
    Always P step s events ↔ Meets ok step s events :=
  alwaysExact Inv good (fun s event next inv _ => keeps s event next inv) (fun s event next inv _ => fails s event next inv) init
    (meetsAll (fun _ _ => trivial) s events)

theorem alwaysUnder {P A : S → Prop} (Inv : S → Prop) (good : ∀ s, Inv s → A s → P s)
    (keeps : ∀ s event next, Inv s → A s → step s event = some next → ok s event → Inv next)
    (fails : ∀ s event next, Inv s → A s → step s event = some next → ¬ok s event → ¬P next) (init : Inv s)
    (assumed : Always A step s events) : Always P step s events ↔ Meets ok step s events := by
  induction events generalizing s with
  | nil => exact ⟨fun _ => trivial,fun _ => good s init assumed⟩
  | cons event events ih =>
    obtain ⟨holds,later⟩ := assumed
    constructor
    · intro always next here
      have rest := always.2 next here
      by_cases met : ok s event
      · exact ⟨met,(ih (keeps s event next init holds here met) (later next here)).mp rest⟩
      · exact absurd (alwaysHead rest) (fails s event next init holds here met)
    · intro meets
      refine ⟨good s init holds,fun next here => ?_⟩
      obtain ⟨met,rest⟩ := meets next here
      exact (ih (keeps s event next init holds here met) (later next here)).mpr rest

theorem execMaps {A : Type*} {other : A → E → Option A} (Inv : S → Prop) (view : S → A)
    (takes : ∀ s event next, Inv s → step s event = some next → ok s event → Inv next ∧ other (view s) event = some (view next))
    (misses : ∀ s event, Inv s → step s event = none → other (view s) event = none) (init : Inv s)
    (meets : Meets ok step s events) : (exec step s events).map view = exec other (view s) events := by
  induction events generalizing s with
  | nil => rfl
  | cons event events ih =>
    unfold exec
    cases here : step s event with
    | none => rw [misses s event init here]; rfl
    | some next =>
      obtain ⟨met,rest⟩ := meets next here
      obtain ⟨kept,alike⟩ := takes s event next init here met
      rw [alike]
      exact ih kept rest

end EventRun
