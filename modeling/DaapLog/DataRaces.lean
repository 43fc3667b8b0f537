import DaapLog.OnceInitialisation

/-!
Data races of threads: two of them are about to access one location, and one to write it.
Accesses under a mutex exclude them, and so does the test of a flag under a mutex for what
follows it.
-/

namespace DaapLog.DataRaces

open DaapLog.CriticalSections (Inside Zone)
open DaapLog.OnceInitialisation
open DaapLog.Runs
open DaapLog.Threads

variable {ι μ σ ε κ α χ : Type*}

/-- The next steps of two threads access one location, and one of them writes it. `reads`
and `writes` tell what the step at a control point accesses. -/
def Racy (reads writes : σ → κ → List χ) (p : Process ι μ σ ε κ α) : Prop :=
  p.ending = .running ∧ ∃ i j control control' calls calls' x, i ≠ j ∧
    p.threads i = control :: calls ∧ p.threads j = control' :: calls' ∧
      x ∈ writes p.state control ∧ x ∈ reads p.state control' ++ writes p.state control'

variable {reads writes : σ → κ → List χ} {held : κ → List μ} {p : Process ι μ σ ε κ α}

/-- One thread alone has no races. -/
theorem not_racy_of_alone {i : ι} (h : ∀ j, j ≠ i → p.threads j = []) :
    ¬Racy reads writes p := by
  rintro ⟨-, j, k, control, control', calls, calls', x, hne, hj, hk, -⟩
  have hj : j = i := by
    by_contra hji
    cases (h j hji).symm.trans hj
  have hk : k = i := by
    by_contra hki
    cases (h k hki).symm.trans hk
  exact hne (hj.trans hk.symm)

theorem not_racy_of_single [DecidableEq ι] [DecidableEq μ] {code : Code μ σ ε κ α} {s : σ}
    {threads : ι → List κ} {schedule : List ι} {r : Process ι μ σ ε κ α × List (ι × ε)}
    (hrun : run (step code) (Process.start s threads) schedule = some r) {i : ι}
    (halone : ∀ j, j ≠ i → threads j = []) : ¬Racy reads writes r.1 := by
  refine not_racy_of_alone (i := i) fun j hj => ?_
  have hlength : (r.1.results j).length + (r.1.threads j).length = (threads j).length :=
    (length_results_run hrun j).trans (Nat.zero_add _)
  rw [halone j hj] at hlength
  exact List.length_eq_zero_iff.mp (Nat.eq_zero_of_add_eq_zero_left hlength)

/-- Two threads hold no mutex in common. -/
theorem not_held_twice (howned : Owned held p.locked p.threads) {i j : ι} (hij : i ≠ j)
    {control control' : κ} {calls calls' : List κ} (hi : p.threads i = control :: calls)
    (hj : p.threads j = control' :: calls') {m : μ} (hm : m ∈ held control) : m ∉ held control' :=
  howned.disjoint hi (hj ▸ List.mem_cons_self) (.inl hij.symm) hm

/-- Locations with a mutex are accessed under it, and the others are not written. -/
structure Guards (reads writes : σ → κ → List χ) (held : κ → List μ) (mutex : χ → Option μ)
    (s : σ) (control : κ) : Prop where
  writes : ∀ x ∈ writes s control, ∃ m, mutex x = some m ∧ m ∈ held control
  reads : ∀ x ∈ reads s control, ∀ m, mutex x = some m → m ∈ held control

theorem not_racy_of_guards (howned : Owned held p.locked p.threads) {mutex : χ → Option μ}
    (h : ∀ i, ∀ control ∈ p.threads i, Guards reads writes held mutex p.state control) :
    ¬Racy reads writes p := by
  rintro ⟨-, i, j, control, control', calls, calls', x, hij, hi, hj, hwrites, haccess⟩
  have hguards := h i control (hi ▸ List.mem_cons_self)
  have hguards' := h j control' (hj ▸ List.mem_cons_self)
  obtain ⟨m, hmutex, hheld⟩ := hguards.writes x hwrites
  refine not_held_twice howned hij hi hj hheld ?_
  rcases List.mem_append.mp haccess with hread | hwrite
  · exact hguards'.reads x hread m hmutex
  · obtain ⟨m', hmutex', hheld'⟩ := hguards'.writes x hwrite
    rw [hmutex] at hmutex'
    exact Option.some.inj hmutex' ▸ hheld'

section Closed

/-- The control point that an action leads to. -/
def next? : Action μ σ ε κ α → Option κ
  | .lock _ next => some next
  | .unlock _ next => some next
  | .goes next => some next
  | .acts _ _ next => some next
  | .returns _ => none
  | .exits _ => none
  | .undefined => none

/-- No action leads out of these control points. -/
def Closed (code : Code μ σ ε κ α) (inside : κ → Prop) : Prop :=
  ∀ s l, inside l → ∀ l' ∈ next? (code s l), inside l'

/-- A step in a section leads to its end at most. -/
theorem next_of_inside {ρ : Type*} {zone : κ → Zone} {mutex : μ} {stable : σ → ρ} {s : σ}
    {action : Action μ σ ε κ α} (h : Inside zone mutex stable s action) :
    ∀ l ∈ next? action, zone l ≠ .elsewhere := by
  rintro l hl
  cases action with
  | lock m next =>
      obtain rfl := Option.some.inj hl
      rw [h.2]
      exact Zone.noConfusion
  | unlock m next =>
      obtain rfl := Option.some.inj hl
      rcases h with h | h
      · rw [h.2]
        exact Zone.noConfusion
      · rw [h.2]
        exact Zone.noConfusion
  | goes next =>
      obtain rfl := Option.some.inj hl
      rw [show zone next = .inside from h]
      exact Zone.noConfusion
  | acts state events next =>
      obtain rfl := Option.some.inj hl
      rw [h.1]
      exact Zone.noConfusion
  | _ => cases hl

variable [DecidableEq ι] [DecidableEq μ] {code : Code μ σ ε κ α} {inside : κ → Prop}

theorem closed_step (hclosed : Closed code inside) (h : ∀ i, ∀ l ∈ p.threads i, inside l) {i : ι}
    {r : Process ι μ σ ε κ α × List (ι × ε)} (hstep : step code p i = some r) :
    ∀ j, ∀ l ∈ r.1.threads j, inside l := by
  obtain ⟨-, control, calls, hthreads, hsteps⟩ := step_cases hstep
  have hhere := h i
  rw [hthreads, List.forall_mem_cons] at hhere
  have hnext := hclosed p.state control hhere.1
  have hgoes {next : κ} (hcode : next ∈ next? (code p.state control)) (j : ι) :
      ∀ l ∈ Function.update p.threads i (next :: calls) j, inside l := by
    rw [Function.update_apply]
    split
    · exact List.forall_mem_cons.mpr ⟨hnext next hcode, hhere.2⟩
    · exact h j
  cases hsteps with
  | lock hcode hfree => exact hgoes (by rw [hcode]; rfl)
  | unlock hcode => exact hgoes (by rw [hcode]; rfl)
  | goes hcode => exact hgoes (by rw [hcode]; rfl)
  | acts hcode => exact hgoes (by rw [hcode]; rfl)
  | returns hcode =>
      intro j
      change ∀ l ∈ Function.update p.threads i calls j, inside l
      rw [Function.update_apply]
      split
      · exact hhere.2
      · exact h j
  | exits hcode => exact h
  | undefined hcode => exact h

theorem closed_run (hclosed : Closed code inside) (h : ∀ i, ∀ l ∈ p.threads i, inside l)
    {schedule : List ι} {r : Process ι μ σ ε κ α × List (ι × ε)}
    (hrun : run (step code) p schedule = some r) : ∀ i, ∀ l ∈ r.1.threads i, inside l :=
  run_induction (P := fun _ q => ∀ i, ∀ l ∈ q.threads i, inside l) h
    (fun _ _ _ _ hq hstep => closed_step hclosed hq hstep) hrun

end Closed

section Once

variable [DecidableEq ι] {code : Code μ σ ε κ α} {mutex : μ} {flag : σ → Bool} {part : κ → Part}
  {s : σ} {threads : ι → List κ} {trace : List (ι × ε)} {order : List (ι × κ × α)} {base : σ}
  {trace₁ : List (ι × ε)} {busy : Option ι} {skipped : List (ι × κ × α)} {holder : Option ι}

/-- What a thread is about to do in calls that test the flag. -/
inductive Head (flag : σ → Bool) (part : κ → Part) (busy : Option ι) (s : σ) (i : ι) (l : κ) :
    Prop
  | quiet (hpart : part l = .entry ∨ part l = .skipping ∨ part l = .raised ∨ part l = .done)
  | found (hpart : part l = .testing) (hset : flag s = true)
  | works (hpart : part l = .testing ∨ part l = .working) (hunset : flag s = false)
  | finishes (hpart : part l = .finishing) (hset : flag s = true) (hbusy : busy = some i)

theorem once_head (hentries : ∀ i, ∀ l ∈ threads i, part l = .entry)
    (h : OnceState code mutex flag part s threads p trace order base trace₁ busy skipped holder)
    {i : ι} {l : κ} {calls : List κ} (hcontrol : p.threads i = l :: calls) :
    Head flag part busy p.state i l := by
  by_cases hbusy : busy = some i
  · obtain ⟨entry, n, events, hactive⟩ := h.active_of_busy hcontrol hbusy
    rcases hactive.inside with hpart | hpart | hpart | hpart
    · exact .works (.inl hpart) (hactive.unset (.inl hpart))
    · exact .works (.inr hpart) (hactive.unset (.inr hpart))
    · exact .quiet (.inr (.inr (.inl hpart)))
    · exact .finishes hpart (hactive.set (.inr hpart)) hbusy
  · cases h.others i hbusy with
    | between hcalls hresults =>
        refine .quiet (.inl (hentries i l ?_))
        rw [hcalls, hcontrol]
        exact List.mem_append_right _ List.mem_cons_self
    | testing hthreads hcalls hresults hpart hlock =>
        obtain ⟨rfl, rfl⟩ := List.cons.inj (hcontrol.symm.trans hthreads)
        cases hflag : flag p.state with
        | true => exact .found hpart hflag
        | false => exact .works (.inl hpart) hflag
    | skipping hthreads hcalls hresults hpart hset hleads =>
        obtain ⟨rfl, rfl⟩ := List.cons.inj (hcontrol.symm.trans hthreads)
        exact .quiet (.inr (.inl hpart))
    | done hthreads hcalls hresults hpart hreturns =>
        obtain ⟨rfl, rfl⟩ := List.cons.inj (hcontrol.symm.trans hthreads)
        exact .quiet (.inr (.inr (.inr hpart)))

/-- The work is done under the mutex. Once the flag is set, the test of it reads `flags`,
which nobody writes any more. -/
structure OnceAccesses (reads writes : σ → κ → List χ) (held : κ → List μ) (mutex : μ)
    (flag : σ → Bool) (part : κ → Part) (flags : χ → Prop) : Prop where
  quiet : ∀ s l, part l = .entry ∨ part l = .skipping ∨ part l = .raised ∨ part l = .done →
    reads s l = [] ∧ writes s l = []
  found : ∀ s l, part l = .testing → flag s = true →
    writes s l = [] ∧ ∀ x ∈ reads s l, flags x
  works : ∀ l, part l = .testing ∨ part l = .working → mutex ∈ held l
  finishes : ∀ s l, part l = .finishing → ∀ x ∈ writes s l, ¬flags x

/-- Calls that test a flag under a mutex have no races, also behind the mutex. -/
theorem not_racy_of_once {flags : χ → Prop}
    (haccesses : OnceAccesses reads writes held mutex flag part flags)
    (howned : Owned held p.locked p.threads) (hentries : ∀ i, ∀ l ∈ threads i, part l = .entry)
    (honce : OnceFrom code mutex flag part s threads p trace) : ¬Racy reads writes p := by
  obtain ⟨order, base, trace₁, busy, skipped, holder, honce⟩ := honce
  rintro ⟨-, i, j, control, control', calls, calls', x, hij, hi, hj, hwrites, haccess⟩
  have hquiet {l : κ} (hpart : part l = .entry ∨ part l = .skipping ∨ part l = .raised ∨
      part l = .done) : x ∉ reads p.state l ++ writes p.state l := by
    obtain ⟨hreads, hnone⟩ := haccesses.quiet p.state l hpart
    rw [hreads, hnone]
    exact List.not_mem_nil
  cases once_head hentries honce hi with
  | quiet hpart => exact hquiet hpart (List.mem_append_right _ hwrites)
  | found hpart hset =>
      rw [(haccesses.found p.state control hpart hset).1] at hwrites
      cases hwrites
  | works hpart hunset =>
      cases once_head hentries honce hj with
      | quiet hpart' => exact hquiet hpart' haccess
      | found hpart' hset => cases hunset.symm.trans hset
      | works hpart' hunset' =>
          exact not_held_twice howned hij hi hj (haccesses.works control hpart)
            (haccesses.works control' hpart')
      | finishes hpart' hset hbusy => cases hunset.symm.trans hset
  | finishes hpart hset hbusy =>
      cases once_head hentries honce hj with
      | quiet hpart' => exact hquiet hpart' haccess
      | found hpart' hset' =>
          obtain ⟨hnone, hflags⟩ := haccesses.found p.state control' hpart' hset'
          rw [hnone, List.append_nil] at haccess
          exact haccesses.finishes p.state control hpart x hwrites (hflags x haccess)
      | works hpart' hunset => cases hunset.symm.trans hset
      | finishes hpart' hset' hbusy' => exact hij (Option.some.inj (hbusy.symm.trans hbusy'))

end Once

end DaapLog.DataRaces
