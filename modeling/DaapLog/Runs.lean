import Mathlib

/-!
Runs of a program that takes one input after another, changes its state and gives
out events. A step without a result stands for undefined behaviour.
-/

namespace DaapLog.Runs

variable {σ α ε τ : Type*}

/-- State after a list of inputs and all events up to there. -/
def run (step : σ → α → Option (σ × List ε)) : σ → List α → Option (σ × List ε)
  | s, [] => some (s, [])
  | s, a :: rest =>
      (step s a).bind fun r =>
        (run step r.1 rest).map fun r' => (r'.1, r.2 ++ r'.2)

variable {step : σ → α → Option (σ × List ε)}

theorem run_append (s : σ) (front back : List α) :
    run step s (front ++ back) =
      (run step s front).bind fun r =>
        (run step r.1 back).map fun r' => (r'.1, r.2 ++ r'.2) := by
  induction front generalizing s with
  | nil => simp [run]
  | cons a rest ih =>
      simp only [List.cons_append, run, ih]
      cases step s a with
      | none => rfl
      | some r =>
          simp only [Option.bind_some, Option.map_bind, Option.bind_map]
          refine Option.bind_congr fun r' _ => ?_
          simp [Option.map_map, Function.comp_def]

theorem run_concat_eq_some {s s' : σ} {past : List α} {a : α} {out : List ε}
    (h : run step s (past ++ [a]) = some (s', out)) :
    ∃ r r', run step s past = some r ∧ step r.1 a = some r' ∧ s' = r'.1 ∧ out = r.2 ++ r'.2 := by
  rw [run_append] at h
  obtain ⟨r, hr, h⟩ := Option.bind_eq_some_iff.mp h
  obtain ⟨r', hr', h⟩ := Option.map_eq_some_iff.mp h
  obtain ⟨hs, hout⟩ := Prod.mk.inj h
  simp only [run, Option.map_some, Option.bind_eq_some_iff, Option.some.injEq] at hr'
  obtain ⟨r'', hr'', rfl⟩ := hr'
  exact ⟨r, r'', hr, hr'', hs.symm, by simpa using hout.symm⟩

/-- What holds at the start and is kept by every step that the run takes holds after
it, also if it speaks about all inputs so far. -/
theorem run_induction {P : List α → σ → Prop} {s : σ} (hstart : P [] s)
    (hstep : ∀ past s a r, P past s → step s a = some r → P (past ++ [a]) r.1)
    {inputs : List α} {r : σ × List ε} (h : run step s inputs = some r) : P inputs r.1 := by
  induction inputs using List.reverseRecOn generalizing r with
  | nil =>
      obtain rfl := Option.some.inj h
      exact hstart
  | append_singleton past a ih =>
      obtain ⟨before, after, hpast, ha, hs, -⟩ := run_concat_eq_some h
      rw [hs]
      exact hstep past before.1 a after (ih hpast) ha

/-- The same for what speaks about the state and the events up to there. -/
theorem run_events_induction {P : σ → List ε → Prop} {s : σ} (hstart : P s [])
    (hstep : ∀ s events a r, P s events → step s a = some r → P r.1 (events ++ r.2))
    {inputs : List α} {r : σ × List ε} (h : run step s inputs = some r) : P r.1 r.2 := by
  induction inputs using List.reverseRecOn generalizing r with
  | nil =>
      obtain rfl := Option.some.inj h
      exact hstart
  | append_singleton past a ih =>
      obtain ⟨before, after, hpast, ha, hs, hout⟩ := run_concat_eq_some h
      rw [hs, hout]
      exact hstep before.1 before.2 a after (ih hpast) ha

theorem run_project (part : σ → τ) (next : τ → α → τ)
    (hstep : ∀ s a r, step s a = some r → part r.1 = next (part s) a)
    {s : σ} {inputs : List α} {r : σ × List ε} (h : run step s inputs = some r) :
    part r.1 = inputs.foldl next (part s) := by
  refine run_induction (P := fun inputs s' => part s' = inputs.foldl next (part s)) rfl ?_ h
  intro past s' a r' hpast ha
  rw [hstep s' a r' ha, hpast, List.foldl_append, List.foldl_cons, List.foldl_nil]

/-- What holds of every step that a run takes or tries, with the inputs before it and
the state that it starts from. -/
def Throughout (step : σ → α → Option (σ × List ε)) (P : List α → σ → α → Prop) (s : σ)
    (inputs : List α) : Prop :=
  ∀ past a back, inputs = past ++ a :: back →
    ∀ r, run step s past = some r → P past r.1 a

theorem throughout_cons {P : σ → α → Prop} {s : σ} {a : α} {rest : List α} :
    Throughout step (fun _ => P) s (a :: rest) ↔
      P s a ∧ ∀ r, step s a = some r → Throughout step (fun _ => P) r.1 rest := by
  constructor
  · intro h
    refine ⟨h [] a rest rfl (s, []) rfl, ?_⟩
    rintro r hr past b back rfl r' hr'
    refine h (a :: past) b back rfl (r'.1, r.2 ++ r'.2) ?_
    rw [run, hr, Option.bind_some, hr', Option.map_some]
  · rintro ⟨hfirst, hrest⟩ past b back hinputs r hr
    cases past with
    | nil =>
        obtain ⟨rfl, rfl⟩ := List.cons.inj hinputs
        obtain rfl := Option.some.inj hr
        exact hfirst
    | cons a' past =>
        obtain ⟨rfl, rfl⟩ := List.cons.inj hinputs
        obtain ⟨first, hstep, hr⟩ := Option.bind_eq_some_iff.mp hr
        obtain ⟨later, hlater, rfl⟩ := Option.map_eq_some_iff.mp hr
        exact hrest first hstep past b back rfl later hlater

theorem throughout_nil {P : List α → σ → α → Prop} {s : σ} : Throughout step P s [] := by
  intro past a back h
  exact absurd h (by simp)

theorem throughout_congr {P Q : σ → α → Prop} {s : σ} {inputs : List α}
    (h : ∀ s a, P s a ↔ Q s a) :
    Throughout step (fun _ => P) s inputs ↔ Throughout step (fun _ => Q) s inputs := by
  simp only [Throughout, h]

/-- A run comes to its end if every step that it tries has a result. -/
theorem run_isSome_iff {s : σ} {inputs : List α} :
    (run step s inputs).isSome ↔ Throughout step (fun _ s a => (step s a).isSome) s inputs := by
  induction inputs generalizing s with
  | nil => exact iff_of_true rfl throughout_nil
  | cons a rest ih =>
      rw [throughout_cons, run]
      cases step s a with
      | none => simp
      | some r => simpa using ih

/-- A step with fewer results takes the runs that it has as the other one does. -/
theorem run_mono {step' : σ → α → Option (σ × List ε)} {s : σ} {inputs : List α}
    {r : σ × List ε} (hle : ∀ s a r, step s a = some r → step' s a = some r)
    (h : run step s inputs = some r) : run step' s inputs = some r := by
  induction inputs generalizing s r with
  | nil => exact h
  | cons a rest ih =>
      obtain ⟨first, hfirst, hrest⟩ := Option.bind_eq_some_iff.mp h
      obtain ⟨later, hlater, hsame⟩ := Option.map_eq_some_iff.mp hrest
      rw [run, hle s a first hfirst, Option.bind_some, ih hlater, Option.map_some, hsame]

theorem invariant_of_throughout {I : List α → σ → Prop} {P : List α → σ → α → Prop} {s : σ}
    (hstart : I [] s)
    (hstep : ∀ past s a r, I past s → P past s a → step s a = some r → I (past ++ [a]) r.1)
    {inputs : List α} (h : Throughout step P s inputs) :
    ∀ past back, inputs = past ++ back → ∀ r, run step s past = some r → I past r.1 := by
  intro past
  induction past using List.reverseRecOn with
  | nil =>
      rintro back - r hr
      obtain rfl := Option.some.inj hr
      exact hstart
  | append_singleton past a ih =>
      intro back hinputs r hr
      have hsplit : inputs = past ++ a :: back := by simpa using hinputs
      obtain ⟨before, after, hpast, ha, hs, -⟩ := run_concat_eq_some hr
      rw [hs]
      exact hstep past before.1 a after (ih (a :: back) hsplit before hpast)
        (h past a back hsplit before hpast) ha

/-- Two properties of a step that are the same under an invariant, which one of them
keeps, hold throughout the same runs. -/
theorem throughout_iff {I : List α → σ → Prop} {P Q : List α → σ → α → Prop} {s : σ}
    (hstart : I [] s) (hiff : ∀ past s a, I past s → (P past s a ↔ Q past s a))
    (hstep : ∀ past s a r, I past s → Q past s a → step s a = some r → I (past ++ [a]) r.1)
    {inputs : List α} : Throughout step P s inputs ↔ Throughout step Q s inputs := by
  constructor
  · intro h past a back hinputs r hr
    have hinv := invariant_of_throughout hstart
      (fun past s a r hinv hP => hstep past s a r hinv ((hiff past s a hinv).mp hP)) h
      past (a :: back) hinputs r hr
    exact (hiff past r.1 a hinv).mp (h past a back hinputs r hr)
  · intro h past a back hinputs r hr
    have hinv := invariant_of_throughout hstart hstep h past (a :: back) hinputs r hr
    exact (hiff past r.1 a hinv).mpr (h past a back hinputs r hr)

end DaapLog.Runs
