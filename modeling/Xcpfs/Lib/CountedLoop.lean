import Mathlib.Data.List.Basic

/-! Ascending counted loops whose body may fail. A failed body ends the whole
loop without a result; nothing is retried and no index is skipped. -/
namespace CountedLoop

variable {σ : Type*}

def steps (body : σ → Nat → Option σ) : Nat → Nat → σ → Option σ
  | 0, _, s => some s
  | count + 1, i, s => (body s i).bind (steps body count (i + 1))

def forLoop (start stop : Nat) (body : σ → Nat → Option σ) (s : σ) : Option σ :=
  steps body (stop - start) start s

theorem stepsInvariant {body : σ → Nat → Option σ} (P : Nat → σ → Prop) (count start : Nat)
    (preserved : ∀ i s, start ≤ i → i < start + count → P i s → ∃ s', body s i = some s' ∧ P (i + 1) s')
    {s : σ} (init : P start s) : ∃ s', steps body count start s = some s' ∧ P (start + count) s' := by
  induction count generalizing start s with
  | zero => exact ⟨s,rfl,init⟩
  | succ count ih =>
    obtain ⟨next,ran,held⟩ := preserved start s (Nat.le_refl _) (by omega) init
    obtain ⟨last,rest,done⟩ := ih (start + 1)
      (fun i t low high => preserved i t (by omega) (by omega)) held
    refine ⟨last,?_,by simpa only [Nat.add_assoc,Nat.add_comm 1] using done⟩
    simp only [steps,ran,Option.bind_some,rest]

theorem stepsSound {body : σ → Nat → Option σ} (P : Nat → σ → Prop) (count start : Nat)
    (kept : ∀ i s s', start ≤ i → i < start + count → P i s → body s i = some s' → P (i + 1) s')
    {s t : σ} (init : P start s) (ran : steps body count start s = some t) : P (start + count) t := by
  induction count generalizing start s with
  | zero =>
    cases ran
    exact init
  | succ count ih =>
    obtain ⟨next,here,rest⟩ := Option.bind_eq_some_iff.mp ran
    have held := kept start s next (Nat.le_refl _) (by omega) init here
    have done := ih (start + 1) (fun i u v low high => kept i u v (by omega) (by omega)) held rest
    simpa only [Nat.add_assoc,Nat.add_comm 1] using done

theorem stepsAppend (body : σ → Nat → Option σ) (first second start : Nat) (s : σ) :
    steps body (first + second) start s = (steps body first start s).bind (steps body second (start + first)) := by
  induction first generalizing start s with
  | zero => simp only [Nat.zero_add,steps,Option.bind_some,Nat.add_zero]
  | succ first ih =>
    rw [Nat.succ_add]
    simp only [steps,Option.bind_assoc]
    congr 1
    funext t
    rw [ih (start + 1) t,show start + 1 + first = start + (first + 1) by omega]

theorem stepsCongr {body other : σ → Nat → Option σ} (count start : Nat)
    (same : ∀ i s, start ≤ i → i < start + count → body s i = other s i) (s : σ) :
    steps body count start s = steps other count start s := by
  induction count generalizing start s with
  | zero => rfl
  | succ count ih =>
    rw [steps,steps,same start s (Nat.le_refl _) (by omega)]
    exact Option.bind_congr fun next _ => ih (start + 1) (fun i t low high => same i t (by omega) (by omega)) next

/- A loop over blocks of `size` iterations each, the last one cut at `n`, is one loop up to `n`. -/
theorem stepsBlocks {body block : σ → Nat → Option σ} (P : σ → Prop) {size n : Nat}
    (kept : ∀ i s t, P s → body s i = some t → P t)
    (each : ∀ i s, P s → i * size ≤ n → block s i = steps body (min size (n - i * size)) (i * size) s)
    (blocks i : Nat) (inside : i * size ≤ n) (enough : n ≤ (i + blocks) * size) (least : (i + blocks) * size < n + size)
    {s : σ} (init : P s) : steps block blocks i s = steps body (n - i * size) (i * size) s := by
  induction blocks generalizing i s with
  | zero =>
    rw [Nat.add_zero] at enough
    rw [show n - i * size = 0 by omega]
    rfl
  | succ blocks ih =>
    have next : (i + 1) * size = i * size + size := Nat.succ_mul i size
    rw [steps,each i s init inside]
    by_cases full : (i + 1) * size ≤ n
    · rw [show min size (n - i * size) = size by omega,show n - i * size = size + (n - (i + 1) * size) by omega,stepsAppend]
      refine Option.bind_congr fun t here => ?_
      have held : P t := stepsSound (fun _ t => P t) size (i * size) (fun j u v _ _ => kept j u v) init here
      rw [← next]
      exact ih (i + 1) full (by rwa [Nat.add_right_comm]) (by rwa [Nat.add_right_comm]) held
    · have last : (i + blocks) * size < (i + 1) * size := by
        have step : (i + (blocks + 1)) * size = (i + blocks) * size + size := Nat.succ_mul (i + blocks) size
        omega
      have only : blocks = 0 := by
        have less := Nat.lt_of_mul_lt_mul_right last
        omega
      subst only
      rw [show min size (n - i * size) = n - i * size by omega]
      exact (Option.bind_congr fun _ _ => rfl).trans (Option.bind_fun_some _)

theorem forLoopInvariant {body : σ → Nat → Option σ} (P : Nat → σ → Prop) {start stop : Nat}
    (order : start ≤ stop)
    (preserved : ∀ i s, start ≤ i → i < stop → P i s → ∃ s', body s i = some s' ∧ P (i + 1) s')
    {s : σ} (init : P start s) : ∃ s', forLoop start stop body s = some s' ∧ P stop s' := by
  have last : start + (stop - start) = stop := by omega
  have run := stepsInvariant P (stop - start) start
    (fun i t low high => preserved i t low (by omega)) init
  rwa [last] at run

theorem forLoopEmpty {body : σ → Nat → Option σ} {start stop : Nat} (order : stop ≤ start) (s : σ) :
    forLoop start stop body s = some s := by
  have none : stop - start = 0 := by omega
  simp only [forLoop,none,steps]

theorem forLoopHead {body : σ → Nat → Option σ} {start stop : Nat} (order : start < stop) (s : σ) :
    forLoop start stop body s = (body s start).bind (forLoop (start + 1) stop body) := by
  obtain ⟨count,split⟩ : ∃ count, stop - start = count + 1 := ⟨stop - start - 1,by omega⟩
  have rest : stop - (start + 1) = count := by omega
  have tail : forLoop (start + 1) stop body = steps body count (start + 1) := by
    funext t
    rw [forLoop,rest]
  rw [forLoop,split,tail,steps]

theorem forLoopSingle (body : σ → Nat → Option σ) (i : Nat) (s : σ) : forLoop i (i + 1) body s = body s i := by
  rw [forLoopHead (by omega)]
  cases body s i with
  | none => rfl
  | some t => exact forLoopEmpty (Nat.le_refl _) t

/- What the iterations `start, …, i - 1` contribute when each appends its part. -/
theorem flatMapRangeSucc {α : Type*} (part : Nat → List α) {start i : Nat} (order : start ≤ i) :
    (List.range' start (i + 1 - start)).flatMap part =
      (List.range' start (i - start)).flatMap part ++ part i := by
  have split : i + 1 - start = (i - start) + 1 := by omega
  have last : start + (i - start) = i := by omega
  rw [split,List.range'_concat,List.flatMap_append]
  simp [last]

end CountedLoop
