import DaapLog.Runs
import DaapLog.TracedCalls

/-!
Threads of one process that share a state and mutexes. The code of the calls tells what
a thread does at a control point, and a schedule picks the thread of every step.
-/

namespace DaapLog.Threads

open DaapLog.Runs
open DaapLog.TracedCalls

variable {ι μ σ ε κ α : Type*}

/-- What a thread does at a control point. A step that leaves the state as it is `goes`
on. -/
inductive Action (μ σ ε κ α : Type*)
  | lock (mutex : μ) (next : κ)
  | unlock (mutex : μ) (next : κ)
  | goes (next : κ)
  | acts (state : σ) (events : List ε) (next : κ)
  | returns (value : α)
  | exits (status : Int)
  | undefined

abbrev Code (μ σ ε κ α : Type*) := σ → κ → Action μ σ ε κ α

/-- Each thread has the control point of its call and the entries of its later calls,
and the results of the earlier ones. -/
structure Process (ι μ σ ε κ α : Type*) where
  state : σ
  locked : μ → Bool
  threads : ι → List κ
  results : ι → List α
  ending : Ending Empty

/-- No thread has entered a call. -/
def Process.start (state : σ) (threads : ι → List κ) : Process ι μ σ ε κ α :=
  ⟨state, fun _ => false, threads, fun _ => [], .running⟩

/-- The threads have come back from their calls and go on with others. -/
def Process.enter (p : Process ι μ σ ε κ α) (threads : ι → List κ) : Process ι μ σ ε κ α :=
  { p with threads := threads, results := fun _ => [] }

section Steps

variable [DecidableEq ι] [DecidableEq μ]

def Process.goTo (p : Process ι μ σ ε κ α) (i : ι) (calls : List κ) : Process ι μ σ ε κ α :=
  { p with threads := Function.update p.threads i calls }

/-- What an action of thread `i` does, with its events; a thread waits for a locked
mutex. The calls are the later ones of the thread. -/
def Process.take (p : Process ι μ σ ε κ α) (i : ι) (calls : List κ) :
    Action μ σ ε κ α → Option (Process ι μ σ ε κ α × List (ι × ε))
  | .lock mutex next =>
      if p.locked mutex then none
      else
        some ({ p.goTo i (next :: calls) with
          locked := Function.update p.locked mutex true }, [])
  | .unlock mutex next =>
      some ({ p.goTo i (next :: calls) with
        locked := Function.update p.locked mutex false }, [])
  | .goes next => some (p.goTo i (next :: calls), [])
  | .acts state events next =>
      some ({ p.goTo i (next :: calls) with state := state }, events.map fun e => (i, e))
  | .returns value =>
      some ({ p.goTo i calls with
        results := Function.update p.results i (p.results i ++ [value]) }, [])
  | .exits status => some ({ p with ending := .exits status }, [])
  | .undefined => some ({ p with ending := .undefined }, [])

def step (code : Code μ σ ε κ α) (p : Process ι μ σ ε κ α) (i : ι) :
    Option (Process ι μ σ ε κ α × List (ι × ε)) :=
  match p.ending, p.threads i with
  | .running, control :: calls => p.take i calls (code p.state control)
  | _, _ => none

/-- What a step has done, by the action of the thread. -/
inductive Steps (code : Code μ σ ε κ α) (p : Process ι μ σ ε κ α) (i : ι) (control : κ)
    (calls : List κ) : Process ι μ σ ε κ α × List (ι × ε) → Prop
  | lock {mutex : μ} {next : κ} (hcode : code p.state control = .lock mutex next)
      (hfree : p.locked mutex = false) :
      Steps code p i control calls ({ p.goTo i (next :: calls) with
        locked := Function.update p.locked mutex true }, [])
  | unlock {mutex : μ} {next : κ} (hcode : code p.state control = .unlock mutex next) :
      Steps code p i control calls ({ p.goTo i (next :: calls) with
        locked := Function.update p.locked mutex false }, [])
  | goes {next : κ} (hcode : code p.state control = .goes next) :
      Steps code p i control calls (p.goTo i (next :: calls), [])
  | acts {state : σ} {events : List ε} {next : κ}
      (hcode : code p.state control = .acts state events next) :
      Steps code p i control calls
        ({ p.goTo i (next :: calls) with state := state }, events.map fun e => (i, e))
  | returns {value : α} (hcode : code p.state control = .returns value) :
      Steps code p i control calls ({ p.goTo i calls with
        results := Function.update p.results i (p.results i ++ [value]) }, [])
  | exits {status : Int} (hcode : code p.state control = .exits status) :
      Steps code p i control calls ({ p with ending := .exits status }, [])
  | undefined (hcode : code p.state control = .undefined) :
      Steps code p i control calls ({ p with ending := .undefined }, [])

variable {code : Code μ σ ε κ α} {p : Process ι μ σ ε κ α} {i : ι} {control : κ}
  {calls : List κ} {r : Process ι μ σ ε κ α × List (ι × ε)}

theorem step_of_threads (halive : p.ending = .running) (hthreads : p.threads i = control :: calls) :
    step code p i = p.take i calls (code p.state control) := by
  rw [step, halive, hthreads]

theorem steps_of_take (h : p.take i calls (code p.state control) = some r) :
    Steps code p i control calls r := by
  cases hcode : code p.state control with
  | lock mutex next =>
      rw [hcode, Process.take] at h
      split at h
      · cases h
      · next hfree =>
          obtain rfl := Option.some.inj h
          exact .lock hcode (Bool.not_eq_true _ ▸ hfree)
  | unlock mutex next =>
      obtain rfl := Option.some.inj (hcode ▸ h)
      exact .unlock hcode
  | goes next =>
      obtain rfl := Option.some.inj (hcode ▸ h)
      exact .goes hcode
  | acts state events next =>
      obtain rfl := Option.some.inj (hcode ▸ h)
      exact .acts hcode
  | returns value =>
      obtain rfl := Option.some.inj (hcode ▸ h)
      exact .returns hcode
  | exits status =>
      obtain rfl := Option.some.inj (hcode ▸ h)
      exact .exits hcode
  | undefined =>
      obtain rfl := Option.some.inj (hcode ▸ h)
      exact .undefined hcode

theorem step_cases (h : step code p i = some r) :
    p.ending = .running ∧ ∃ control calls, p.threads i = control :: calls ∧
      Steps code p i control calls r := by
  rw [step] at h
  split at h
  · next control calls halive hthreads =>
      exact ⟨halive, control, calls, hthreads, steps_of_take h⟩
  · cases h

section Inversions

variable {mutex : μ} {next : κ} {value : α} (h : Steps code p i control calls r)

include h

theorem Steps.of_lock (hcode : code p.state control = .lock mutex next) :
    p.locked mutex = false ∧ r = ({ p.goTo i (next :: calls) with
      locked := Function.update p.locked mutex true }, []) := by
  cases h with
  | lock hcode' hfree =>
      obtain ⟨rfl, rfl⟩ := Action.lock.inj (hcode.symm.trans hcode')
      exact ⟨hfree, rfl⟩
  | unlock hcode' => cases hcode.symm.trans hcode'
  | goes hcode' => cases hcode.symm.trans hcode'
  | acts hcode' => cases hcode.symm.trans hcode'
  | returns hcode' => cases hcode.symm.trans hcode'
  | exits hcode' => cases hcode.symm.trans hcode'
  | undefined hcode' => cases hcode.symm.trans hcode'

theorem Steps.of_unlock (hcode : code p.state control = .unlock mutex next) :
    r = ({ p.goTo i (next :: calls) with locked := Function.update p.locked mutex false }, []) := by
  cases h with
  | unlock hcode' =>
      obtain ⟨rfl, rfl⟩ := Action.unlock.inj (hcode.symm.trans hcode')
      rfl
  | lock hcode' hfree => cases hcode.symm.trans hcode'
  | goes hcode' => cases hcode.symm.trans hcode'
  | acts hcode' => cases hcode.symm.trans hcode'
  | returns hcode' => cases hcode.symm.trans hcode'
  | exits hcode' => cases hcode.symm.trans hcode'
  | undefined hcode' => cases hcode.symm.trans hcode'

theorem Steps.of_goes (hcode : code p.state control = .goes next) :
    r = (p.goTo i (next :: calls), []) := by
  cases h with
  | goes hcode' =>
      obtain rfl := Action.goes.inj (hcode.symm.trans hcode')
      rfl
  | lock hcode' hfree => cases hcode.symm.trans hcode'
  | unlock hcode' => cases hcode.symm.trans hcode'
  | acts hcode' => cases hcode.symm.trans hcode'
  | returns hcode' => cases hcode.symm.trans hcode'
  | exits hcode' => cases hcode.symm.trans hcode'
  | undefined hcode' => cases hcode.symm.trans hcode'

theorem Steps.of_returns (hcode : code p.state control = .returns value) :
    r = ({ p.goTo i calls with
      results := Function.update p.results i (p.results i ++ [value]) }, []) := by
  cases h with
  | returns hcode' =>
      obtain rfl := Action.returns.inj (hcode.symm.trans hcode')
      rfl
  | lock hcode' hfree => cases hcode.symm.trans hcode'
  | unlock hcode' => cases hcode.symm.trans hcode'
  | goes hcode' => cases hcode.symm.trans hcode'
  | acts hcode' => cases hcode.symm.trans hcode'
  | exits hcode' => cases hcode.symm.trans hcode'
  | undefined hcode' => cases hcode.symm.trans hcode'

end Inversions

/-- Only a locked mutex keeps a thread from taking a step. -/
theorem locked_of_step_eq_none (halive : p.ending = .running)
    (hthreads : p.threads i = control :: calls) (h : step code p i = none) :
    ∃ mutex next, code p.state control = .lock mutex next ∧ p.locked mutex = true := by
  rw [step_of_threads halive hthreads] at h
  cases hcode : code p.state control with
  | lock mutex next =>
      refine ⟨mutex, next, rfl, ?_⟩
      rw [hcode, Process.take] at h
      split at h
      · next hlocked => exact hlocked
      · cases h
  | unlock mutex next => cases hcode ▸ h
  | goes next => cases hcode ▸ h
  | acts state events next => cases hcode ▸ h
  | returns value => cases hcode ▸ h
  | exits status => cases hcode ▸ h
  | undefined => cases hcode ▸ h

end Steps

section Holding

/-- An action takes a mutex of greater rank than those that are held, or gives the last
one back; a call that returns holds none. -/
def Keeps {n : Nat} (held : κ → List μ) (rank : μ → Fin n) (before : List μ) :
    Action μ σ ε κ α → Prop
  | .lock mutex next => (∀ m ∈ before, rank m < rank mutex) ∧ held next = mutex :: before
  | .unlock mutex next => before = mutex :: held next
  | .goes next => held next = before
  | .acts _ _ next => held next = before
  | .returns _ => before = []
  | .exits _ => True
  | .undefined => True

def Ordered {n : Nat} (code : Code μ σ ε κ α) (held : κ → List μ) (rank : μ → Fin n) : Prop :=
  ∀ s l, Keeps held rank (held l) (code s l)

/-- The mutexes that a thread holds, the last one first. -/
def holding (held : κ → List μ) : List κ → List μ
  | [] => []
  | control :: _ => held control

/-- A mutex is locked while one thread holds it. -/
structure Owned (held : κ → List μ) (locked : μ → Bool) (threads : ι → List κ) : Prop where
  locked : ∀ m, locked m = true ↔ ∃ i, m ∈ holding held (threads i)
  unique : ∀ m i j, m ∈ holding held (threads i) → m ∈ holding held (threads j) → i = j
  nodup : ∀ i, (holding held (threads i)).Nodup
  later : ∀ i, ∀ l ∈ (threads i).tail, held l = []

variable {n : Nat} {held : κ → List μ} {rank : μ → Fin n} {locked : μ → Bool} {threads : ι → List κ}

theorem owned_start (h : ∀ i, ∀ l ∈ threads i, held l = []) :
    Owned held (fun _ => false) threads := by
  have hnone (i : ι) : holding held (threads i) = [] := by
    cases hcalls : threads i with
    | nil => rfl
    | cons l rest => exact h i l (hcalls ▸ List.mem_cons_self)
  refine ⟨fun m => ?_, fun m i j hi => ?_, fun i => ?_, fun i l hl => ?_⟩
  · simp [hnone]
  · rw [hnone] at hi
    cases hi
  · rw [hnone]
    exact List.nodup_nil
  · exact h i l (List.mem_of_mem_tail hl)

/-- Behind calls that are all over nothing is locked. -/
theorem enter_of_done {p : Process ι μ σ ε κ α} (h : Owned held p.locked p.threads)
    (halive : p.ending = .running) (hdone : ∀ i, p.threads i = []) (threads : ι → List κ) :
    p.enter threads = Process.start p.state threads := by
  have hfree : p.locked = fun _ => false := by
    funext m
    refine Bool.eq_false_iff.mpr fun hlocked => ?_
    obtain ⟨i, hi⟩ := (h.locked m).mp hlocked
    rw [hdone i] at hi
    cases hi
  rw [Process.enter, hfree, halive]
  rfl

section Updates

variable [DecidableEq ι]

theorem holding_update (i j : ι) (calls : List κ) :
    holding held (Function.update threads i calls j) =
      if j = i then holding held calls else holding held (threads j) := by
  rw [Function.update_apply]
  split
  · rfl
  · rfl

theorem later_update (h : Owned held locked threads) {i : ι} {calls : List κ}
    (hcalls : ∀ l ∈ calls.tail, held l = []) (j : ι) :
    ∀ l ∈ (Function.update threads i calls j).tail, held l = [] := by
  rw [Function.update_apply]
  split
  · exact hcalls
  · exact h.later j

theorem Owned.keep (h : Owned held locked threads) {i : ι} {calls : List κ}
    (hheld : holding held calls = holding held (threads i))
    (hcalls : ∀ l ∈ calls.tail, held l = []) :
    Owned held locked (Function.update threads i calls) := by
  have hsame (j : ι) :
      holding held (Function.update threads i calls j) = holding held (threads j) := by
    rw [holding_update]
    split
    · next hj => rw [hj, hheld]
    · rfl
  refine ⟨fun m => ?_, fun m j k hj hk => ?_, fun j => ?_, later_update h hcalls⟩
  · simp only [hsame]
    exact h.locked m
  · rw [hsame] at hj hk
    exact h.unique m j k hj hk
  · rw [hsame]
    exact h.nodup j

variable [DecidableEq μ]

theorem Owned.take (h : Owned held locked threads) {i : ι} {calls : List κ} {mutex : μ}
    (hfree : locked mutex = false) (hheld : holding held calls = mutex :: holding held (threads i))
    (hcalls : ∀ l ∈ calls.tail, held l = []) :
    Owned held (Function.update locked mutex true) (Function.update threads i calls) := by
  have hnone (j : ι) : mutex ∉ holding held (threads j) := by
    intro hj
    rw [(h.locked mutex).mpr ⟨j, hj⟩] at hfree
    cases hfree
  have hmem (m : μ) (j : ι) : m ∈ holding held (Function.update threads i calls j) ↔
      j = i ∧ m = mutex ∨ m ∈ holding held (threads j) := by
    rw [holding_update]
    split
    · next hj => rw [hheld, List.mem_cons, hj, and_iff_right rfl]
    · next hj => rw [or_iff_right fun hm => hj hm.1]
  refine ⟨fun m => ?_, fun m j k hj hk => ?_, fun j => ?_, later_update h hcalls⟩
  · simp only [hmem]
    rw [Function.update_apply]
    split
    · next hm => exact iff_of_true rfl ⟨i, .inl ⟨rfl, hm⟩⟩
    · next hm => simp only [hm, and_false, false_or, h.locked]
  · rcases (hmem m j).mp hj with ⟨rfl, hm⟩ | hj'
    · rcases (hmem m k).mp hk with ⟨rfl, -⟩ | hk'
      · rfl
      · exact absurd (hm ▸ hk') (hnone k)
    · rcases (hmem m k).mp hk with ⟨rfl, hm⟩ | hk'
      · exact absurd (hm ▸ hj') (hnone j)
      · exact h.unique m j k hj' hk'
  · rw [holding_update]
    split
    · rw [hheld]
      exact List.nodup_cons.mpr ⟨hnone i, h.nodup i⟩
    · exact h.nodup j

theorem Owned.giveBack (h : Owned held locked threads) {i : ι} {calls : List κ} {mutex : μ}
    (hheld : holding held (threads i) = mutex :: holding held calls)
    (hcalls : ∀ l ∈ calls.tail, held l = []) :
    Owned held (Function.update locked mutex false) (Function.update threads i calls) := by
  have hnodup := h.nodup i
  rw [hheld, List.nodup_cons] at hnodup
  have hmem (m : μ) (j : ι) : m ∈ holding held (Function.update threads i calls j) ↔
      m ≠ mutex ∧ m ∈ holding held (threads j) := by
    rw [holding_update]
    split
    · next hj =>
        rw [hj, hheld, List.mem_cons]
        refine ⟨fun hm => ⟨fun heq => hnodup.1 (heq ▸ hm), .inr hm⟩, ?_⟩
        rintro ⟨hne, hm⟩
        exact hm.resolve_left hne
    · next hj =>
        refine ⟨fun hm => ⟨fun heq => hj ?_, hm⟩, And.right⟩
        exact h.unique mutex j i (heq ▸ hm) (hheld ▸ List.mem_cons_self)
  refine ⟨fun m => ?_, fun m j k hj hk => ?_, fun j => ?_, later_update h hcalls⟩
  · simp only [hmem]
    rw [Function.update_apply]
    split
    · next hm => simp [hm]
    · next hm => simp only [ne_eq, hm, not_false_eq_true, true_and, h.locked]
  · exact h.unique m j k ((hmem m j).mp hj).2 ((hmem m k).mp hk).2
  · rw [holding_update]
    split
    · exact hnodup.2
    · exact h.nodup j

end Updates

variable [DecidableEq ι] [DecidableEq μ] {code : Code μ σ ε κ α} {p : Process ι μ σ ε κ α}

theorem owned_step (hordered : Ordered code held rank) (h : Owned held p.locked p.threads) {i : ι}
    {r : Process ι μ σ ε κ α × List (ι × ε)} (hstep : step code p i = some r) :
    Owned held r.1.locked r.1.threads := by
  obtain ⟨-, control, calls, hthreads, hsteps⟩ := step_cases hstep
  have hhere : holding held (p.threads i) = held control := by
    rw [hthreads]
    rfl
  have hlater : ∀ l ∈ calls, held l = [] := by
    have := h.later i
    rwa [hthreads] at this
  have hkeeps := hordered p.state control
  cases hsteps with
  | lock hcode hfree =>
      rw [hcode] at hkeeps
      exact h.take hfree (hhere ▸ hkeeps.2) hlater
  | unlock hcode =>
      rw [hcode] at hkeeps
      exact h.giveBack (hhere.trans hkeeps) hlater
  | goes hcode =>
      rw [hcode] at hkeeps
      exact h.keep (hhere ▸ hkeeps) hlater
  | acts hcode =>
      rw [hcode] at hkeeps
      exact h.keep (hhere ▸ hkeeps) hlater
  | returns hcode =>
      rw [hcode] at hkeeps
      refine h.keep ?_ fun l hl => hlater l (List.mem_of_mem_tail hl)
      rw [hhere, show held control = [] from hkeeps]
      cases calls with
      | nil => rfl
      | cons l rest => exact hlater l List.mem_cons_self
  | exits hcode => exact h
  | undefined hcode => exact h

theorem owned_run (hordered : Ordered code held rank) (h : Owned held p.locked p.threads)
    {schedule : List ι} {r : Process ι μ σ ε κ α × List (ι × ε)}
    (hrun : run (step code) p schedule = some r) : Owned held r.1.locked r.1.threads := by
  refine run_induction (P := fun _ p => Owned held p.locked p.threads) h ?_ hrun
  intro past p i r h hstep
  exact owned_step hordered h hstep

/-- Each call of a thread comes to one result. -/
theorem length_results_run {schedule : List ι} {r : Process ι μ σ ε κ α × List (ι × ε)}
    (hrun : run (step code) p schedule = some r) (i : ι) :
    (r.1.results i).length + (r.1.threads i).length =
      (p.results i).length + (p.threads i).length := by
  refine run_induction (P := fun _ q => (q.results i).length + (q.threads i).length =
    (p.results i).length + (p.threads i).length) rfl ?_ hrun
  intro past q j r hq hstep
  obtain ⟨-, control, calls, hthreads, hsteps⟩ := step_cases hstep
  have hsame {q' : Process ι μ σ ε κ α} {next : κ}
      (hq' : q'.threads = Function.update q.threads j (next :: calls)) :
      (q'.threads i).length = (q.threads i).length := by
    rw [hq', Function.update_apply]
    split
    · next hij =>
        rw [hij, hthreads]
        rfl
    · rfl
  rw [← hq]
  cases hsteps with
  | lock hcode hfree => exact congrArg (_ + ·) (hsame rfl)
  | unlock hcode => exact congrArg (_ + ·) (hsame rfl)
  | goes hcode => exact congrArg (_ + ·) (hsame rfl)
  | acts hcode => exact congrArg (_ + ·) (hsame rfl)
  | @returns value hcode =>
      rcases eq_or_ne i j with rfl | hij
      · simp only [Process.goTo, Function.update_self, hthreads, List.length_append,
          List.length_nil, List.length_cons]
        omega
      · simp only [Process.goTo, Function.update_of_ne hij]
  | exits hcode => rfl
  | undefined hcode => rfl

/-- A process that is over has threads in the middle of their calls. -/
theorem running_of_done {schedule : List ι} {state : σ} {r : Process ι μ σ ε κ α × List (ι × ε)}
    (hrun : run (step code) (Process.start state threads) schedule = some r)
    (hdone : ∀ i, r.1.threads i = []) : r.1.ending = .running := by
  have halive : r.1.ending = .running ∨ ∃ i, r.1.threads i ≠ [] := by
    refine run_induction (P := fun _ p => p.ending = .running ∨ ∃ i, p.threads i ≠ [])
      (.inl rfl) ?_ hrun
    intro past p i r hp hstep
    obtain ⟨halive, control, calls, hthreads, hsteps⟩ := step_cases hstep
    have hbusy : p.threads i ≠ [] := hthreads ▸ List.cons_ne_nil control calls
    cases hsteps with
    | exits hcode => exact .inr ⟨i, hbusy⟩
    | undefined hcode => exact .inr ⟨i, hbusy⟩
    | _ => exact .inl halive
  exact halive.resolve_right fun ⟨i, hi⟩ => hi (hdone i)

/-- Among threads that wait there would be one for a mutex of greatest rank, whose
holder waits for a mutex of still greater rank. -/
theorem exists_step (hordered : Ordered code held rank)
    (h : Owned held p.locked p.threads) (halive : p.ending = .running)
    (hcalls : ∃ i, p.threads i ≠ []) : ∃ i r, step code p i = some r := by
  by_contra hnone
  have hstuck (i : ι) : step code p i = none := by
    rw [Option.eq_none_iff_forall_ne_some]
    exact fun r hr => hnone ⟨i, r, hr⟩
  have hwaits {i : ι} (hi : p.threads i ≠ []) : ∃ mutex, p.locked mutex = true ∧
      ∀ m ∈ holding held (p.threads i), rank m < rank mutex := by
    obtain ⟨control, calls, hthreads⟩ := List.exists_cons_of_ne_nil hi
    obtain ⟨mutex, next, hcode, hlocked⟩ := locked_of_step_eq_none halive hthreads (hstuck i)
    have hkeeps := hordered p.state control
    rw [hcode] at hkeeps
    rw [hthreads]
    exact ⟨mutex, hlocked, hkeeps.1⟩
  have hgreater (mutex : μ) (hlocked : p.locked mutex = true) :
      ∃ mutex', p.locked mutex' = true ∧ rank mutex < rank mutex' := by
    obtain ⟨i, hi⟩ := (h.locked mutex).mp hlocked
    have hne : p.threads i ≠ [] := by
      intro hnil
      rw [hnil] at hi
      cases hi
    obtain ⟨mutex', hlocked', hrank⟩ := hwaits hne
    exact ⟨mutex', hlocked', hrank mutex hi⟩
  obtain ⟨i, hi⟩ := hcalls
  obtain ⟨mutex, hlocked, -⟩ := hwaits hi
  obtain ⟨_, ⟨top, htop, rfl⟩, hmax⟩ := Set.exists_max_image
    (Set.image rank {m | p.locked m = true}) id
    (Set.toFinite _) ⟨_, mutex, hlocked, rfl⟩
  obtain ⟨mutex', hlocked', hrank⟩ := hgreater top htop
  exact absurd (hmax _ ⟨mutex', hlocked', rfl⟩) (not_le.mpr hrank)

end Holding

section Guarded

/-- An action leads to a safe control point and has valid events. -/
def StaysSafe (safe : σ → κ → Prop) (valid : ε → Prop) (s : σ) : Action μ σ ε κ α → Prop
  | .lock _ next => safe s next
  | .unlock _ next => safe s next
  | .goes next => safe s next
  | .acts state events next => safe state next ∧ ∀ e ∈ events, valid e
  | .returns _ => True
  | .exits _ => True
  | .undefined => False

/-- What is safe for a thread stays so when another thread acts that holds none of its
mutexes. -/
structure Guarded (code : Code μ σ ε κ α) (held : κ → List μ) (sound : σ → Prop)
    (safe : σ → κ → Prop) (valid : ε → Prop) : Prop where
  sound : ∀ s l, safe s l → sound s
  stays : ∀ s l, safe s l → StaysSafe safe valid s (code s l)
  stable : ∀ s s' l events next, safe s l → code s l = .acts s' events next →
    ∀ l', (held l).Disjoint (held l') → safe s l' → safe s' l'

variable {held : κ → List μ} {locked : μ → Bool} {threads : ι → List κ} {sound : σ → Prop}
  {safe : σ → κ → Prop} {valid : ε → Prop}

theorem Owned.disjoint (h : Owned held locked threads) {i j : ι} {control l : κ}
    {calls : List κ} (hthreads : threads i = control :: calls) (hl : l ∈ threads j)
    (hne : j ≠ i ∨ l ∈ calls) : (held control).Disjoint (held l) := by
  intro m hcontrol hm
  have hi : m ∈ holding held (threads i) := by
    rw [hthreads]
    exact hcontrol
  cases hj : threads j with
  | nil =>
      rw [hj] at hl
      cases hl
  | cons first later =>
      have hlater := h.later j
      rw [hj] at hl hlater
      rcases List.mem_cons.mp hl with rfl | hmem
      · rcases hne with hne | hcalls
        · refine hne (h.unique m j i ?_ hi)
          rw [hj]
          exact hm
        · have hcall := h.later i
          rw [hthreads] at hcall
          rw [hcall l hcalls] at hm
          cases hm
      · rw [hlater l hmem] at hm
        cases hm

variable [DecidableEq ι] [DecidableEq μ] {code : Code μ σ ε κ α} {p : Process ι μ σ ε κ α}

/-- The state is sound and every thread is at a safe control point. -/
structure Secure (sound : σ → Prop) (safe : σ → κ → Prop) (p : Process ι μ σ ε κ α) : Prop where
  sound : sound p.state
  safe : ∀ i, ∀ l ∈ p.threads i, safe p.state l
  defined : p.ending ≠ .undefined

theorem secure_step (hguarded : Guarded code held sound safe valid)
    (howned : Owned held p.locked p.threads) (hsecure : Secure sound safe p) {i : ι}
    {r : Process ι μ σ ε κ α × List (ι × ε)} (hstep : step code p i = some r) :
    Secure sound safe r.1 ∧ ∀ x ∈ r.2, valid x.2 := by
  obtain ⟨halive, control, calls, hthreads, hsteps⟩ := step_cases hstep
  have hhere := hsecure.safe i
  rw [hthreads, List.forall_mem_cons] at hhere
  have hstays := hguarded.stays p.state control hhere.1
  have hmoves {q : Process ι μ σ ε κ α} {later : List κ}
      (hq : q.threads = Function.update p.threads i later) (hsound : sound q.state)
      (hlater : ∀ l ∈ later, safe q.state l)
      (hothers : ∀ j, j ≠ i → ∀ l ∈ p.threads j, safe q.state l)
      (hending : q.ending = p.ending) : Secure sound safe q := by
    refine ⟨hsound, fun j l hl => ?_, hending ▸ hsecure.defined⟩
    rw [hq, Function.update_apply] at hl
    split at hl
    · exact hlater l hl
    · next hj => exact hothers j hj l hl
  have hnone : ∀ x ∈ ([] : List (ι × ε)), valid x.2 := fun x hx => absurd hx List.not_mem_nil
  have hothers : ∀ j, j ≠ i → ∀ l ∈ p.threads j, safe p.state l := fun j _ => hsecure.safe j
  have hgoes {locked : μ → Bool} {next : κ} (hnext : safe p.state next) :
      Secure sound safe { p.goTo i (next :: calls) with locked := locked } ∧
        ∀ x ∈ ([] : List (ι × ε)), valid x.2 :=
    ⟨hmoves rfl hsecure.sound (List.forall_mem_cons.mpr ⟨hnext, hhere.2⟩) hothers rfl, hnone⟩
  cases hsteps with
  | lock hcode hfree =>
      rw [hcode] at hstays
      exact hgoes hstays
  | unlock hcode =>
      rw [hcode] at hstays
      exact hgoes hstays
  | goes hcode =>
      rw [hcode] at hstays
      exact hgoes hstays
  | @acts state events next hcode =>
      rw [hcode] at hstays
      have hkept {j : ι} {l : κ} (hl : l ∈ p.threads j) (hne : j ≠ i ∨ l ∈ calls) :
          safe state l :=
        hguarded.stable p.state state control events next hhere.1 hcode l
          (howned.disjoint hthreads hl hne) (hsecure.safe j l hl)
      refine ⟨hmoves rfl (hguarded.sound state next hstays.1)
        (List.forall_mem_cons.mpr ⟨hstays.1, fun l hl => ?_⟩)
        (fun j hj l hl => hkept hl (.inl hj)) rfl, fun x hx => ?_⟩
      · exact hkept (hthreads ▸ List.mem_cons_of_mem control hl) (.inr hl)
      · obtain ⟨e, he, rfl⟩ := List.mem_map.mp hx
        exact hstays.2 e he
  | returns hcode => exact ⟨hmoves rfl hsecure.sound hhere.2 hothers rfl, hnone⟩
  | exits hcode => exact ⟨⟨hsecure.sound, hsecure.safe, fun hending => by cases hending⟩, hnone⟩
  | undefined hcode =>
      rw [hcode] at hstays
      exact hstays.elim

/-- Mutexes that keep the control points safe keep every run of the threads safe. -/
theorem secure_run {n : Nat} {rank : μ → Fin n} (hordered : Ordered code held rank)
    (hguarded : Guarded code held sound safe valid) (howned : Owned held p.locked p.threads)
    (hsecure : Secure sound safe p) {schedule : List ι} {r : Process ι μ σ ε κ α × List (ι × ε)}
    (hrun : run (step code) p schedule = some r) :
    Secure sound safe r.1 ∧ ∀ x ∈ r.2, valid x.2 := by
  have hall : Owned held r.1.locked r.1.threads ∧ Secure sound safe r.1 ∧
      ∀ x ∈ r.2, valid x.2 := by
    refine run_events_induction (P := fun q trace => Owned held q.locked q.threads ∧
      Secure sound safe q ∧ ∀ x ∈ trace, valid x.2)
      ⟨howned, hsecure, fun x hx => absurd hx List.not_mem_nil⟩ ?_ hrun
    rintro q trace i r ⟨howned, hsecure, htrace⟩ hstep
    obtain ⟨hnext, hevents⟩ := secure_step hguarded howned hsecure hstep
    exact ⟨owned_step hordered howned hstep, hnext, List.forall_mem_append.mpr ⟨htrace, hevents⟩⟩
  exact hall.2

end Guarded

section Descent

/-- An action leads to a good control point of smaller rank. -/
def Falls (good : κ → Prop) (rank : κ → Nat) (before : Nat) : Action μ σ ε κ α → Prop
  | .lock _ next => good next ∧ rank next < before
  | .unlock _ next => good next ∧ rank next < before
  | .goes next => good next ∧ rank next < before
  | .acts _ _ next => good next ∧ rank next < before
  | .returns _ => True
  | .exits _ => True
  | .undefined => True

def Descends (code : Code μ σ ε κ α) (good : κ → Prop) (rank : κ → Nat) : Prop :=
  ∀ s l, good l → Falls good rank (rank l) (code s l)

/-- The number of steps that calls take at most. -/
def callSteps (rank : κ → Nat) (calls : List κ) : Nat := (calls.map fun l => rank l + 1).sum

variable {good : κ → Prop} {rank : κ → Nat}

@[simp]
theorem callSteps_cons (l : κ) (calls : List κ) :
    callSteps rank (l :: calls) = rank l + 1 + callSteps rank calls := by
  rw [callSteps, List.map_cons, List.sum_cons]
  rfl

variable [Fintype ι]

/-- The number of steps that a process takes at most. -/
def stepsLeft (rank : κ → Nat) (p : Process ι μ σ ε κ α) : Nat :=
  match p.ending with
  | .running => ∑ i, callSteps rank (p.threads i)
  | _ => 0

theorem stepsLeft_running {p : Process ι μ σ ε κ α} (halive : p.ending = .running) :
    stepsLeft rank p = ∑ i, callSteps rank (p.threads i) := by
  rw [stepsLeft, halive]

variable [DecidableEq ι]

theorem sum_callSteps_update (threads : ι → List κ) (i : ι) {calls : List κ}
    (h : callSteps rank calls < callSteps rank (threads i)) :
    ∑ j, callSteps rank (Function.update threads i calls j) <
      ∑ j, callSteps rank (threads j) := by
  refine Finset.sum_lt_sum (fun j _ => ?_) ⟨i, Finset.mem_univ i, ?_⟩
  · rcases eq_or_ne j i with rfl | hj
    · rw [Function.update_self]
      exact h.le
    · rw [Function.update_of_ne hj]
  · rw [Function.update_self]
    exact h

variable [DecidableEq μ] {code : Code μ σ ε κ α} {p : Process ι μ σ ε κ α}

theorem descends_step (hdescends : Descends code good rank)
    (hgood : ∀ i, ∀ l ∈ p.threads i, good l) {i : ι} {r : Process ι μ σ ε κ α × List (ι × ε)}
    (hstep : step code p i = some r) :
    (∀ j, ∀ l ∈ r.1.threads j, good l) ∧ stepsLeft rank r.1 < stepsLeft rank p := by
  obtain ⟨halive, control, calls, hthreads, hsteps⟩ := step_cases hstep
  have hhere := hgood i
  rw [hthreads, List.forall_mem_cons] at hhere
  have hfalls := hdescends p.state control hhere.1
  have hcalls : callSteps rank (p.threads i) = rank control + 1 + callSteps rank calls := by
    rw [hthreads, callSteps_cons]
  have hgoes {q : Process ι μ σ ε κ α} {later : List κ} (hlater : ∀ l ∈ later, good l)
      (hless : callSteps rank later < rank control + 1 + callSteps rank calls)
      (hq : q.threads = Function.update p.threads i later) (hending : q.ending = p.ending) :
      (∀ j, ∀ l ∈ q.threads j, good l) ∧ stepsLeft rank q < stepsLeft rank p := by
    constructor
    · intro j l hl
      rw [hq, Function.update_apply] at hl
      split at hl
      · exact hlater l hl
      · exact hgood j l hl
    · rw [stepsLeft_running halive, stepsLeft_running (hending.trans halive), hq]
      exact sum_callSteps_update p.threads i (hcalls ▸ hless)
  have hnext {q : Process ι μ σ ε κ α} {next : κ} (hfall : good next ∧ rank next < rank control)
      (hq : q.threads = Function.update p.threads i (next :: calls))
      (hending : q.ending = p.ending) :
      (∀ j, ∀ l ∈ q.threads j, good l) ∧ stepsLeft rank q < stepsLeft rank p := by
    refine hgoes (List.forall_mem_cons.mpr ⟨hfall.1, hhere.2⟩) ?_ hq hending
    rw [callSteps_cons]
    omega
  have hpositive : 0 < stepsLeft rank p := by
    rw [stepsLeft_running halive]
    refine Finset.sum_pos' (fun j _ => Nat.zero_le _) ⟨i, Finset.mem_univ i, ?_⟩
    omega
  cases hsteps with
  | lock hcode hfree =>
      rw [hcode] at hfalls
      exact hnext hfalls rfl rfl
  | unlock hcode =>
      rw [hcode] at hfalls
      exact hnext hfalls rfl rfl
  | goes hcode =>
      rw [hcode] at hfalls
      exact hnext hfalls rfl rfl
  | acts hcode =>
      rw [hcode] at hfalls
      exact hnext hfalls rfl rfl
  | returns hcode => exact hgoes hhere.2 (by omega) rfl rfl
  | exits hcode => exact ⟨hgood, hpositive⟩
  | undefined hcode => exact ⟨hgood, hpositive⟩

/-- However the steps of the threads are mixed, there are only so many. -/
theorem length_schedule_le (hdescends : Descends code good rank)
    (hgood : ∀ i, ∀ l ∈ p.threads i, good l) {schedule : List ι}
    {r : Process ι μ σ ε κ α × List (ι × ε)} (hrun : run (step code) p schedule = some r) :
    schedule.length ≤ stepsLeft rank p := by
  have hall : (∀ i, ∀ l ∈ r.1.threads i, good l) ∧
      schedule.length + stepsLeft rank r.1 ≤ stepsLeft rank p := by
    refine run_induction (P := fun past q => (∀ i, ∀ l ∈ q.threads i, good l) ∧
      past.length + stepsLeft rank q ≤ stepsLeft rank p) ⟨hgood, by simp⟩ ?_ hrun
    rintro past q i r ⟨hq, hlength⟩ hstep
    obtain ⟨hnext, hless⟩ := descends_step hdescends hq hstep
    refine ⟨hnext, ?_⟩
    rw [List.length_append, List.length_singleton]
    omega
  omega

end Descent

end DaapLog.Threads
