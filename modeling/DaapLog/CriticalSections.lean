import DaapLog.Threads

/-!
Calls whose only steps on the shared state lie between taking and giving back one mutex.
Any interleaving of them is a sequence of the calls, one behind the other, with a part of
one more.
-/

namespace DaapLog.CriticalSections

open DaapLog.Runs
open DaapLog.Threads
open DaapLog.TracedCalls

variable {ι μ σ ε κ α ρ : Type*}

section Alone

/-- A step of a call that no other thread disturbs: every mutex is free for it. A call
that is over stays. -/
def advance (code : Code μ σ ε κ α) (s : σ) (l : κ) : σ × List ε × κ :=
  match code s l with
  | .lock _ next => (s, [], next)
  | .unlock _ next => (s, [], next)
  | .goes next => (s, [], next)
  | .acts state events next => (state, events, next)
  | .returns _ => (s, [], l)
  | .exits _ => (s, [], l)
  | .undefined => (s, [], l)

def alone (code : Code μ σ ε κ α) : Nat → σ → κ → σ × List ε × κ
  | 0, s, l => (s, [], l)
  | n + 1, s, l =>
      let first := advance code s l
      let rest := alone code n first.1 first.2.2
      (rest.1, first.2.1 ++ rest.2.1, rest.2.2)

/-- A call leads to a state and a control point in `n` steps. -/
def Leads (code : Code μ σ ε κ α) (n : Nat) (s : σ) (l : κ) (events : List ε) (s' : σ) (l' : κ) :
    Prop :=
  alone code n s l = (s', events, l')

variable {code : Code μ σ ε κ α} {m n : Nat} {s s' s'' : σ} {l l' l'' : κ}
  {events events' : List ε}

theorem Leads.refl (code : Code μ σ ε κ α) (s : σ) (l : κ) : Leads code 0 s l [] s l := rfl

theorem Leads.trans (h : Leads code m s l events s' l') (h' : Leads code n s' l' events' s'' l'') :
    Leads code (m + n) s l (events ++ events') s'' l'' := by
  induction m generalizing s l events with
  | zero =>
      obtain ⟨rfl, rfl, rfl⟩ : s = s' ∧ [] = events ∧ l = l' := by simpa [Leads, alone] using h
      rw [Nat.zero_add]
      exact h'
  | succ m ih =>
      obtain ⟨hs, hevents, hl⟩ : (alone code (m + 1) s l).1 = s' ∧
          (alone code (m + 1) s l).2.1 = events ∧ (alone code (m + 1) s l).2.2 = l' := by
        rw [h]
        exact ⟨rfl, rfl, rfl⟩
      have hlater : Leads code m (advance code s l).1 (advance code s l).2.2
          (alone code m (advance code s l).1 (advance code s l).2.2).2.1 s' l' := by
        rw [Leads, ← hs, ← hl]
        rfl
      have hrest := ih hlater
      rw [Nat.add_right_comm, Leads, alone, hrest, ← hevents, alone, List.append_assoc]

theorem advance_of_goes (h : code s l = .goes l') : advance code s l = (s, [], l') := by
  rw [advance, h]

theorem advance_of_acts (h : code s l = .acts s' events l') :
    advance code s l = (s', events, l') := by
  rw [advance, h]

theorem advance_of_lock {mutex : μ} (h : code s l = .lock mutex l') :
    advance code s l = (s, [], l') := by
  rw [advance, h]

theorem advance_of_unlock {mutex : μ} (h : code s l = .unlock mutex l') :
    advance code s l = (s, [], l') := by
  rw [advance, h]

theorem Leads.one (h : advance code s l = (s', events, l')) : Leads code 1 s l events s' l' := by
  rw [Leads, alone, h]
  simp [alone]

theorem Leads.snoc (h : Leads code n s l events s' l')
    (hstep : advance code s' l' = (s'', events', l'')) :
    Leads code (n + 1) s l (events ++ events') s'' l'' :=
  h.trans (Leads.one hstep)

theorem advance_stays {safe : σ → κ → Prop} {valid : ε → Prop} (hsafe : safe s l)
    (h : StaysSafe safe valid s (code s l)) :
    safe (advance code s l).1 (advance code s l).2.2 ∧ ∀ e ∈ (advance code s l).2.1, valid e := by
  have hnone : ∀ e ∈ ([] : List ε), valid e := fun e he => absurd he List.not_mem_nil
  rw [advance]
  generalize code s l = action at h
  cases action with
  | lock mutex next => exact ⟨h, hnone⟩
  | unlock mutex next => exact ⟨h, hnone⟩
  | goes next => exact ⟨h, hnone⟩
  | acts state events next => exact h
  | returns value => exact ⟨hsafe, hnone⟩
  | exits status => exact ⟨hsafe, hnone⟩
  | undefined => exact h.elim

theorem Leads.stays {safe : σ → κ → Prop} {valid : ε → Prop}
    (hstays : ∀ s l, safe s l → StaysSafe safe valid s (code s l))
    (h : Leads code n s l events s' l') (hsafe : safe s l) :
    safe s' l' ∧ ∀ e ∈ events, valid e := by
  induction n generalizing s l events with
  | zero =>
      obtain ⟨rfl, rfl, rfl⟩ : s = s' ∧ [] = events ∧ l = l' := by simpa [Leads, alone] using h
      exact ⟨hsafe, fun e he => absurd he List.not_mem_nil⟩
  | succ n ih =>
      rw [Leads, alone] at h
      obtain ⟨hs, hevents, hl⟩ := by simpa only [Prod.mk.injEq] using h
      obtain ⟨hnext, hfirst⟩ := advance_stays hsafe (hstays s l hsafe)
      have hlater : Leads code n (advance code s l).1 (advance code s l).2.2
          (alone code n (advance code s l).1 (advance code s l).2.2).2.1 s' l' := by
        rw [Leads, ← hs, ← hl]
      obtain ⟨hrest, hvalid⟩ := ih hlater hnext
      rw [← hevents]
      exact ⟨hrest, List.forall_mem_append.mpr ⟨hfirst, hvalid⟩⟩

/-- A call that is over: it has returned, the process has exited, or the behaviour is
undefined. -/
def Final : Action μ σ ε κ α → Prop
  | .returns _ => True
  | .exits _ => True
  | .undefined => True
  | _ => False

theorem Leads.stay (h : Final (code s l)) (n : Nat) : Leads code n s l [] s l := by
  have hadvance : advance code s l = (s, [], l) := by
    rw [advance]
    generalize code s l = action at h
    cases action with
    | returns value => rfl
    | exits status => rfl
    | undefined => rfl
    | lock mutex next => cases h
    | unlock mutex next => cases h
    | goes next => cases h
    | acts state events next => cases h
  induction n with
  | zero => exact Leads.refl code s l
  | succ n ih =>
      rw [Nat.add_comm]
      exact (Leads.one hadvance).trans ih

/-- Where a call is over does not depend on the number of steps. -/
theorem Leads.final_unique (h : Leads code m s l events s' l') (hfinal : Final (code s' l'))
    (h' : Leads code n s l events' s'' l'') (hfinal' : Final (code s'' l'')) :
    s' = s'' ∧ events = events' ∧ l' = l'' := by
  have hlater := h.trans (Leads.stay hfinal n)
  have hlater' := h'.trans (Leads.stay hfinal' m)
  rw [Nat.add_comm] at hlater'
  have heq := hlater.symm.trans hlater'
  simpa using heq

end Alone

section Single

variable [DecidableEq ι] [DecidableEq μ] {code : Code μ σ ε κ α} {s : σ} {entry : κ} {i : ι}

/-- What a process has come to in which only thread `i` has a call. -/
inductive Single (code : Code μ σ ε κ α) (s : σ) (entry : κ) (i : ι)
    (p : Process ι μ σ ε κ α) (trace : List (ι × ε)) : Prop
  | within {n : Nat} {events : List ε} {control : κ}
      (hleads : Leads code n s entry events p.state control)
      (hthreads : p.threads = Function.update (fun _ => []) i [control])
      (htrace : trace = events.map fun e => (i, e))
  | behind {n : Nat} {events : List ε} {control : κ} {value : α}
      (hleads : Leads code n s entry events p.state control)
      (hcode : code p.state control = .returns value) (hthreads : p.threads = fun _ => [])
      (htrace : trace = events.map fun e => (i, e))

theorem single_step {p : Process ι μ σ ε κ α} {trace : List (ι × ε)}
    (h : Single code s entry i p trace) {j : ι} {r : Process ι μ σ ε κ α × List (ι × ε)}
    (hstep : step code p j = some r) : Single code s entry i r.1 (trace ++ r.2) := by
  obtain ⟨-, control', calls, hcalls, hsteps⟩ := step_cases hstep
  cases h with
  | behind hleads hcode hthreads htrace =>
      rw [hthreads] at hcalls
      cases hcalls
  | @within n events control hleads hthreads htrace =>
      obtain rfl : j = i := by
        by_contra hne
        rw [hthreads, Function.update_of_ne hne] at hcalls
        cases hcalls
      rw [hthreads, Function.update_self] at hcalls
      obtain ⟨rfl, rfl⟩ := List.cons.inj hcalls
      have hupdate (next : List κ) :
          Function.update p.threads j next = Function.update (fun _ => []) j next := by
        rw [hthreads, Function.update_idem]
      cases hsteps with
      | lock hcode hfree =>
          have hlater := hleads.snoc (advance_of_lock hcode)
          rw [List.append_nil] at hlater
          exact .within hlater (hupdate _) (by rw [List.append_nil, htrace])
      | unlock hcode =>
          have hlater := hleads.snoc (advance_of_unlock hcode)
          rw [List.append_nil] at hlater
          exact .within hlater (hupdate _) (by rw [List.append_nil, htrace])
      | goes hcode =>
          have hlater := hleads.snoc (advance_of_goes hcode)
          rw [List.append_nil] at hlater
          exact .within hlater (hupdate _) (by rw [List.append_nil, htrace])
      | acts hcode =>
          exact .within (hleads.snoc (advance_of_acts hcode)) (hupdate _)
            (by rw [htrace, List.map_append])
      | returns hcode =>
          refine .behind hleads hcode ?_ (by rw [List.append_nil, htrace])
          exact (hupdate []).trans (Function.update_eq_self j fun _ => [])
      | exits hcode => exact .within hleads hthreads (by rw [List.append_nil, htrace])
      | undefined hcode => exact .within hleads hthreads (by rw [List.append_nil, htrace])

theorem single_run {schedule : List ι} {r : Process ι μ σ ε κ α × List (ι × ε)}
    (hrun : run (step code) (Process.start s (Function.update (fun _ => []) i [entry])) schedule =
      some r) : Single code s entry i r.1 r.2 := by
  refine run_events_induction (P := Single code s entry i)
    (.within (Leads.refl code s entry) rfl rfl) ?_ hrun
  intro p trace j r h hstep
  exact single_step h hstep

/-- A call that is safe alone does nothing that is undefined or not valid. -/
theorem single_safe {safe : σ → κ → Prop} {valid : ε → Prop}
    (hstays : ∀ s l, safe s l → StaysSafe safe valid s (code s l)) (hentry : safe s entry)
    {schedule : List ι} {r : Process ι μ σ ε κ α × List (ι × ε)}
    (hrun : run (step code) (Process.start s (Function.update (fun _ => []) i [entry])) schedule =
      some r) : r.1.ending ≠ .undefined ∧ ∀ x ∈ r.2, valid x.2 := by
  have hall : Single code s entry i r.1 r.2 ∧ r.1.ending ≠ .undefined := by
    refine run_events_induction (P := fun q trace => Single code s entry i q trace ∧
      q.ending ≠ .undefined)
      ⟨.within (Leads.refl code s entry) rfl rfl, fun hending => by cases hending⟩ ?_ hrun
    rintro q trace j next ⟨hsingle, halive⟩ hstep
    refine ⟨single_step hsingle hstep, ?_⟩
    obtain ⟨-, control', calls, hcalls, hsteps⟩ := step_cases hstep
    cases hsteps with
    | exits hcode => exact fun hending => by cases hending
    | undefined hcode =>
        cases hsingle with
        | within hleads hthreads htrace =>
            obtain rfl : j = i := by
              by_contra hne
              rw [hthreads, Function.update_of_ne hne] at hcalls
              cases hcalls
            rw [hthreads, Function.update_self] at hcalls
            obtain ⟨rfl, rfl⟩ := List.cons.inj hcalls
            have hhere := hstays _ _ (hleads.stays hstays hentry).1
            rw [hcode] at hhere
            exact hhere.elim
        | behind hleads hcode' hthreads htrace =>
            rw [hthreads] at hcalls
            cases hcalls
    | _ => exact halive
  refine ⟨hall.2, ?_⟩
  obtain ⟨n, events, control, hleads, htrace⟩ : ∃ n events control,
      Leads code n s entry events r.1.state control ∧ r.2 = events.map fun e => (i, e) := by
    cases hall.1 with
    | within hleads hthreads htrace => exact ⟨_, _, _, hleads, htrace⟩
    | behind hleads hcode hthreads htrace => exact ⟨_, _, _, hleads, htrace⟩
  rw [htrace]
  intro x hx
  obtain ⟨e, he, rfl⟩ := List.mem_map.mp hx
  exact (hleads.stays hstays hentry).2 e he

end Single

/-- Where a control point lies with respect to the section of a mutex. -/
inductive Zone
  | before
  | inside
  | behind
  | elsewhere
  deriving DecidableEq, Repr

/-- In front of its section a call does not change the state and has no events. Where
nothing lies in a section, one step takes its place. -/
def InFront (zone : κ → Zone) (mutex : μ) (stable : σ → ρ) (s : σ) : Action μ σ ε κ α → Prop
  | .lock m next => m = mutex ∧ zone next = .inside ∨ m ≠ mutex ∧ zone next = .before
  | .unlock m next => m ≠ mutex ∧ zone next = .before
  | .goes next => zone next = .before
  | .acts state _ next =>
      (∀ l, zone l ≠ .inside) ∧ zone next = .behind ∧ stable state = stable s
  | .returns _ => True
  | .exits _ => True
  | .undefined => True

def Inside (zone : κ → Zone) (mutex : μ) (stable : σ → ρ) (s : σ) : Action μ σ ε κ α → Prop
  | .lock m next => m ≠ mutex ∧ zone next = .inside
  | .unlock m next => m = mutex ∧ zone next = .behind ∨ m ≠ mutex ∧ zone next = .inside
  | .goes next => zone next = .inside
  | .acts state _ next => zone next = .inside ∧ stable state = stable s
  | .returns _ => False
  | .exits _ => True
  | .undefined => True

/-- The calls have one section each. What they read in front of it no call changes, and
behind it they only return. -/
structure Sectioned (code : Code μ σ ε κ α) (mutex : μ) (stable : σ → ρ) (r : ρ)
    (zone : κ → Zone) : Prop where
  before : ∀ s l, stable s = r → zone l = .before → InFront zone mutex stable s (code s l)
  reads : ∀ s s' l, stable s = r → stable s' = r → zone l = .before →
    code s' l = code s l ∨ ∃ state events next, code s l = .acts state events next
  inside : ∀ s l, stable s = r → zone l = .inside → Inside zone mutex stable s (code s l)
  behind : ∀ l, zone l = .behind → ∃ value, ∀ s, stable s = r → code s l = .returns value

/-- The calls one behind the other, with the state and the events that they leave. -/
inductive Serial (code : Code μ σ ε κ α) (s : σ) :
    List (ι × κ × α) → σ → List (ι × ε) → Prop
  | nil : Serial code s [] s []
  | snoc {order : List (ι × κ × α)} {s₁ s₂ : σ} {trace : List (ι × ε)} {i : ι} {entry control : κ}
      {value : α} {n : Nat} {events : List ε} (hfront : Serial code s order s₁ trace)
      (hleads : Leads code n s₁ entry events s₂ control)
      (hreturns : code s₂ control = .returns value) :
      Serial code s (order ++ [(i, entry, value)]) s₂ (trace ++ events.map fun e => (i, e))

section Stages

variable (code : Code μ σ ε κ α) (stable : σ → ρ) (r : ρ) (zone : κ → Zone)

/-- The part of a call in front of its section. -/
def Reads (entry control : κ) : Prop :=
  ∃ n, ∀ s, stable s = r → Leads code n s entry [] s control

/-- Where a thread with the calls `calls₀` is, when the calls that are over have left
the state `s₁`. -/
inductive Stage (s₁ : σ) (trace₁ : List (ι × ε)) (p : Process ι μ σ ε κ α)
    (trace : List (ι × ε)) (i : ι) (calls₀ entries : List κ) (results : List α) : Prop
  | idle (hthreads : p.threads i = []) (hcalls : calls₀ = entries)
      (hresults : p.results i = results)
  | before {entry control : κ} {calls : List κ} (hthreads : p.threads i = control :: calls)
      (hcalls : calls₀ = entries ++ entry :: calls) (hresults : p.results i = results)
      (hzone : zone control = .before) (hreads : Reads code stable r entry control)
  | inside {entry control : κ} {calls : List κ} {n : Nat} {events : List ε}
      (hthreads : p.threads i = control :: calls) (hcalls : calls₀ = entries ++ entry :: calls)
      (hresults : p.results i = results) (hzone : zone control = .inside)
      (hleads : Leads code n s₁ entry events p.state control)
      (htrace : trace = trace₁ ++ events.map fun e => (i, e))
  | behind {control : κ} {calls : List κ} {value : α} (hthreads : p.threads i = control :: calls)
      (hcalls : calls₀ = entries ++ calls) (hresults : results = p.results i ++ [value])
      (hzone : zone control = .behind) (hreturns : ∀ s, stable s = r → code s control = .returns value)

end Stages

section Staging

variable {code : Code μ σ ε κ α} {stable : σ → ρ} {r : ρ} {zone : κ → Zone} {s₁ : σ}
  {p p' : Process ι μ σ ε κ α} {trace trace' trace₁ : List (ι × ε)} {i : ι} {control : κ}
  {calls calls₀ entries : List κ} {results : List α}

theorem Stage.other {s₂ : σ} {trace₂ : List (ι × ε)}
    (h : Stage code stable r zone s₁ trace₁ p trace i calls₀ entries results)
    (hthreads : p'.threads i = p.threads i) (hresults : p'.results i = p.results i)
    (hinside : (∀ control calls, p.threads i = control :: calls → zone control ≠ .inside) ∨
      s₂ = s₁ ∧ trace₂ = trace₁ ∧ p'.state = p.state ∧ trace' = trace) :
    Stage code stable r zone s₂ trace₂ p' trace' i calls₀ entries results := by
  cases h with
  | idle hcontrol hcalls hres =>
      exact .idle (hthreads.trans hcontrol) hcalls (hresults.trans hres)
  | before hcontrol hcalls hres hzone hreads =>
      exact .before (hthreads.trans hcontrol) hcalls (hresults.trans hres) hzone hreads
  | inside hcontrol hcalls hres hzone hleads htrace =>
      obtain ⟨rfl, rfl, hstate, rfl⟩ := hinside.resolve_left fun hne => hne _ _ hcontrol hzone
      exact .inside (hthreads.trans hcontrol) hcalls (hresults.trans hres) hzone
        (hstate ▸ hleads) htrace
  | behind hcontrol hcalls hres hzone hreturns =>
      exact .behind (hthreads.trans hcontrol) hcalls (hresults ▸ hres) hzone hreturns

/-- A thread whose call is over goes to its next one. -/
theorem Stage.later (hthreads : p.threads i = calls) (hcalls : calls₀ = entries ++ calls)
    (hresults : p.results i = results) (hzone : ∀ l ∈ calls₀, zone l = .before) :
    Stage code stable r zone s₁ trace₁ p trace i calls₀ entries results := by
  cases calls with
  | nil => exact .idle hthreads (hcalls.trans (List.append_nil _)) hresults
  | cons entry calls =>
      have hbefore : zone entry = .before := hzone entry (by simp [hcalls])
      exact .before hthreads hcalls hresults hbefore ⟨0, fun s _ => Leads.refl code s entry⟩

variable (h : Stage code stable r zone s₁ trace₁ p trace i calls₀ entries results)
  (hcontrol : p.threads i = control :: calls)

include h hcontrol

theorem Stage.of_before (hzone : zone control = .before) :
    ∃ entry, calls₀ = entries ++ entry :: calls ∧ p.results i = results ∧
      Reads code stable r entry control := by
  cases h with
  | idle hhere hcalls hresults => cases hcontrol.symm.trans hhere
  | before hhere hcalls hresults hbefore hreads =>
      obtain ⟨rfl, rfl⟩ := List.cons.inj (hcontrol.symm.trans hhere)
      exact ⟨_, hcalls, hresults, hreads⟩
  | inside hhere hcalls hresults hinside hleads htrace =>
      obtain ⟨rfl, rfl⟩ := List.cons.inj (hcontrol.symm.trans hhere)
      cases hzone.symm.trans hinside
  | behind hhere hcalls hresults hbehind hreturns =>
      obtain ⟨rfl, rfl⟩ := List.cons.inj (hcontrol.symm.trans hhere)
      cases hzone.symm.trans hbehind

theorem Stage.of_inside (hzone : zone control = .inside) :
    ∃ entry n events, calls₀ = entries ++ entry :: calls ∧ p.results i = results ∧
      Leads code n s₁ entry events p.state control ∧
      trace = trace₁ ++ events.map fun e => (i, e) := by
  cases h with
  | idle hhere hcalls hresults => cases hcontrol.symm.trans hhere
  | before hhere hcalls hresults hbefore hreads =>
      obtain ⟨rfl, rfl⟩ := List.cons.inj (hcontrol.symm.trans hhere)
      cases hzone.symm.trans hbefore
  | inside hhere hcalls hresults hinside hleads htrace =>
      obtain ⟨rfl, rfl⟩ := List.cons.inj (hcontrol.symm.trans hhere)
      exact ⟨_, _, _, hcalls, hresults, hleads, htrace⟩
  | behind hhere hcalls hresults hbehind hreturns =>
      obtain ⟨rfl, rfl⟩ := List.cons.inj (hcontrol.symm.trans hhere)
      cases hzone.symm.trans hbehind

theorem Stage.of_behind (hzone : zone control = .behind) :
    ∃ value, calls₀ = entries ++ calls ∧ results = p.results i ++ [value] ∧
      ∀ s, stable s = r → code s control = .returns value := by
  cases h with
  | idle hhere hcalls hresults => cases hcontrol.symm.trans hhere
  | before hhere hcalls hresults hbefore hreads =>
      obtain ⟨rfl, rfl⟩ := List.cons.inj (hcontrol.symm.trans hhere)
      cases hzone.symm.trans hbefore
  | inside hhere hcalls hresults hinside hleads htrace =>
      obtain ⟨rfl, rfl⟩ := List.cons.inj (hcontrol.symm.trans hhere)
      cases hzone.symm.trans hinside
  | behind hhere hcalls hresults hbehind hreturns =>
      obtain ⟨rfl, rfl⟩ := List.cons.inj (hcontrol.symm.trans hhere)
      exact ⟨_, hcalls, hresults, hreturns⟩

end Staging

variable [DecidableEq ι]

def entriesOf (order : List (ι × κ × α)) (i : ι) : List κ :=
  (order.filter fun call => call.1 = i).map (·.2.1)

def resultsOf (order : List (ι × κ × α)) (i : ι) : List α :=
  (order.filter fun call => call.1 = i).map (·.2.2)

@[simp]
theorem entriesOf_append (front back : List (ι × κ × α)) (i : ι) :
    entriesOf (front ++ back) i = entriesOf front i ++ entriesOf back i := by
  simp [entriesOf]

@[simp]
theorem resultsOf_append (front back : List (ι × κ × α)) (i : ι) :
    resultsOf (front ++ back) i = resultsOf front i ++ resultsOf back i := by
  simp [resultsOf]

@[simp]
theorem entriesOf_snoc_self (order : List (ι × κ × α)) (i : ι) (entry : κ) (value : α) :
    entriesOf (order ++ [(i, entry, value)]) i = entriesOf order i ++ [entry] := by
  simp [entriesOf]

@[simp]
theorem resultsOf_snoc_self (order : List (ι × κ × α)) (i : ι) (entry : κ) (value : α) :
    resultsOf (order ++ [(i, entry, value)]) i = resultsOf order i ++ [value] := by
  simp [resultsOf]

theorem of_snoc_ne (order : List (ι × κ × α)) {i j : ι} (h : i ≠ j) (entry : κ) (value : α) :
    entriesOf (order ++ [(j, entry, value)]) i = entriesOf order i ∧
      resultsOf (order ++ [(j, entry, value)]) i = resultsOf order i := by
  simp [entriesOf, resultsOf, h.symm]

/-- The calls `order` one behind the other and a part of the call of `holder`. -/
structure Serialised (code : Code μ σ ε κ α) (stable : σ → ρ) (r : ρ) (zone : κ → Zone)
    (mutex : μ) (s : σ) (threads : ι → List κ) (p : Process ι μ σ ε κ α)
    (trace : List (ι × ε)) (order : List (ι × κ × α)) (s₁ : σ) (trace₁ : List (ι × ε))
    (holder : Option ι) : Prop where
  serial : Serial code s order s₁ trace₁
  stable_serial : stable s₁ = r
  stable_state : stable p.state = r
  stages : ∀ i, Stage code stable r zone s₁ trace₁ p trace i (threads i) (entriesOf order i)
    (resultsOf order i)
  locked : p.locked mutex = holder.isSome
  inside : ∀ i control calls, p.threads i = control :: calls →
    (zone control = .inside ↔ holder = some i)
  occupied : ∀ i, holder = some i → p.threads i ≠ []
  free : holder = none → p.state = s₁ ∧ trace = trace₁

section Preservation

variable {code : Code μ σ ε κ α} {stable : σ → ρ} {r : ρ} {zone : κ → Zone} {mutex : μ} {s s₁ : σ}
  {threads : ι → List κ} {p p' : Process ι μ σ ε κ α} {trace trace₁ : List (ι × ε)}
  {order : List (ι × κ × α)} {holder : Option ι} {j : ι} {control next : κ} {calls : List κ}
  (h : Serialised code stable r zone mutex s threads p trace order s₁ trace₁ holder)
  (hcontrol : p.threads j = control :: calls)

include h

theorem Serialised.not_inside {i : ι} (hi : holder ≠ some i) (control : κ) (calls : List κ)
    (hthreads : p.threads i = control :: calls) : zone control ≠ .inside := by
  intro hzone
  exact hi ((h.inside i control calls hthreads).mp hzone)

theorem Serialised.occupied_update
    (hthreads : p'.threads = Function.update p.threads j (next :: calls)) (i : ι)
    (hi : holder = some i) : p'.threads i ≠ [] := by
  rw [hthreads, Function.update_apply]
  split
  · exact List.cons_ne_nil next calls
  · exact h.occupied i hi

/-- The thread `j` has done its part, and no other one is in its section. -/
theorem Serialised.finishes (p' : Process ι μ σ ε κ α) {trace' : List (ι × ε)} {entry : κ}
    {n : Nat} {events : List ε} {value : α} (hcalls : threads j = entriesOf order j ++ entry :: calls)
    (hres : p.results j = resultsOf order j) (hothers : ∀ i, i ≠ j → holder ≠ some i)
    (hleads : Leads code n s₁ entry events p'.state next)
    (htrace : trace' = trace₁ ++ events.map fun e => (j, e)) (hstable : stable p'.state = r)
    (hnext : zone next = .behind) (hreturns : ∀ s, stable s = r → code s next = .returns value)
    (hthreads : p'.threads = Function.update p.threads j (next :: calls))
    (hresults : p'.results = p.results) (hlocked : p'.locked mutex = false) :
    Serialised code stable r zone mutex s threads p' trace' (order ++ [(j, entry, value)]) p'.state
      trace' none := by
  refine ⟨?_, hstable, hstable, fun i => ?_, hlocked, ?_, ?_, fun _ => ⟨rfl, rfl⟩⟩
  · rw [htrace]
    exact .snoc h.serial hleads (hreturns p'.state hstable)
  · rcases eq_or_ne i j with rfl | hij
    · refine .behind (by rw [hthreads, Function.update_self]) ?_ ?_ hnext hreturns
      · rw [hcalls, entriesOf_snoc_self, List.append_assoc, List.singleton_append]
      · rw [resultsOf_snoc_self, hresults, hres]
    · obtain ⟨hentries, hvalues⟩ := of_snoc_ne order hij entry value
      rw [hentries, hvalues]
      refine (h.stages i).other ?_ (by rw [hresults]) (.inl (h.not_inside (hothers i hij)))
      rw [hthreads, Function.update_of_ne hij]
  · intro i control' calls' hi
    rw [hthreads, Function.update_apply] at hi
    split at hi
    · obtain ⟨rfl, rfl⟩ := List.cons.inj hi
      exact iff_of_false (by rw [hnext]; decide) (by simp)
    · next hij => exact iff_of_false (h.not_inside (hothers i hij) control' calls' hi) (by simp)
  · rintro i ⟨⟩

include hcontrol

theorem Serialised.occupied_later (hzone : zone control ≠ .inside)
    (hthreads : p'.threads = Function.update p.threads j calls) (i : ι)
    (hi : holder = some i) : p'.threads i ≠ [] := by
  rw [hthreads, Function.update_apply]
  split
  · next hij => exact absurd ((h.inside j control calls hcontrol).mpr (hij ▸ hi)) hzone
  · exact h.occupied i hi

/-- The holder stays the same when the thread `j` stays in or out of its section. -/
theorem Serialised.inside_update (hzone : zone next = .inside ↔ zone control = .inside)
    (hthreads : p'.threads = Function.update p.threads j (next :: calls)) (i : ι) (control' : κ)
    (calls' : List κ) (hi : p'.threads i = control' :: calls') :
    zone control' = .inside ↔ holder = some i := by
  rw [hthreads, Function.update_apply] at hi
  split at hi
  · next hij =>
      obtain ⟨rfl, rfl⟩ := List.cons.inj hi
      rw [hzone, hij]
      exact h.inside j control calls hcontrol
  · exact h.inside i control' calls' hi

theorem Serialised.goes_before (hzone : zone control = .before) (hnext : zone next = .before)
    (hadvance : ∀ s, stable s = r → advance code s control = (s, [], next))
    (hthreads : p'.threads = Function.update p.threads j (next :: calls))
    (hstate : p'.state = p.state) (hresults : p'.results = p.results)
    (hlocked : p'.locked mutex = p.locked mutex) :
    Serialised code stable r zone mutex s threads p' trace order s₁ trace₁ holder := by
  refine ⟨h.serial, h.stable_serial, hstate ▸ h.stable_state, fun i => ?_, hlocked ▸ h.locked,
    h.inside_update hcontrol (by rw [hzone, hnext]) hthreads, h.occupied_update hthreads,
    hstate ▸ h.free⟩
  rcases eq_or_ne i j with rfl | hij
  · obtain ⟨entry, hcalls, hres, n, hreads⟩ := (h.stages i).of_before hcontrol hzone
    refine .before (by rw [hthreads, Function.update_self]) hcalls (hresults ▸ hres) hnext
      ⟨n + 1, fun s hs => ?_⟩
    exact (hreads s hs).snoc (hadvance s hs)
  · refine (h.stages i).other ?_ (by rw [hresults]) (.inr ⟨rfl, rfl, hstate, rfl⟩)
    rw [hthreads, Function.update_of_ne hij]

theorem Serialised.enters (hzone : zone control = .before) (hnext : zone next = .inside)
    (hfree : p.locked mutex = false)
    (hadvance : ∀ s, stable s = r → advance code s control = (s, [], next))
    (hthreads : p'.threads = Function.update p.threads j (next :: calls))
    (hstate : p'.state = p.state) (hresults : p'.results = p.results)
    (hlocked : p'.locked mutex = true) :
    Serialised code stable r zone mutex s threads p' trace order s₁ trace₁ (some j) := by
  have hnone : holder = none := by
    rw [← Option.not_isSome_iff_eq_none, ← h.locked, hfree]
    exact Bool.false_ne_true
  obtain ⟨hserial, htrace⟩ := h.free hnone
  refine ⟨h.serial, h.stable_serial, hstate ▸ h.stable_state, fun i => ?_, hlocked, ?_, ?_, ?_⟩
  · rcases eq_or_ne i j with rfl | hij
    · obtain ⟨entry, hcalls, hres, n, hreads⟩ := (h.stages i).of_before hcontrol hzone
      have hleads : Leads code (n + 1) s₁ entry [] p'.state next := by
        rw [hstate, hserial]
        exact (hreads s₁ h.stable_serial).snoc (hadvance s₁ h.stable_serial)
      exact .inside (by rw [hthreads, Function.update_self]) hcalls (hresults ▸ hres) hnext hleads
        (by rw [htrace, List.map_nil, List.append_nil])
    · refine (h.stages i).other ?_ (by rw [hresults]) (.inr ⟨rfl, rfl, hstate, rfl⟩)
      rw [hthreads, Function.update_of_ne hij]
  · intro i control' calls' hi
    rw [hthreads, Function.update_apply] at hi
    split at hi
    · next hij =>
        obtain ⟨rfl, rfl⟩ := List.cons.inj hi
        exact iff_of_true hnext (congrArg some hij.symm)
    · next hij =>
        refine iff_of_false (h.not_inside (by simp [hnone]) control' calls' hi) ?_
        exact fun heq => hij (Option.some.inj heq).symm
  · intro i hi
    rw [← Option.some.inj hi, hthreads, Function.update_self]
    exact List.cons_ne_nil next calls
  · rintro ⟨⟩

theorem Serialised.goes_inside {state : σ} {events : List ε} (hzone : zone control = .inside)
    (hnext : zone next = .inside) (hadvance : advance code p.state control = (state, events, next))
    (hstable : stable state = r)
    (hthreads : p'.threads = Function.update p.threads j (next :: calls))
    (hstate : p'.state = state) (hresults : p'.results = p.results)
    (hlocked : p'.locked mutex = p.locked mutex) :
    Serialised code stable r zone mutex s threads p' (trace ++ events.map fun e => (j, e)) order s₁
      trace₁ holder := by
  have hholder : holder = some j := (h.inside j control calls hcontrol).mp hzone
  refine ⟨h.serial, h.stable_serial, hstate ▸ hstable, fun i => ?_, hlocked ▸ h.locked,
    h.inside_update hcontrol (by rw [hzone, hnext]) hthreads, h.occupied_update hthreads, ?_⟩
  · rcases eq_or_ne i j with rfl | hij
    · obtain ⟨entry, n, front, hcalls, hres, hleads, htrace⟩ := (h.stages i).of_inside hcontrol hzone
      have hlonger : Leads code (n + 1) s₁ entry (front ++ events) p'.state next := by
        rw [hstate]
        exact hleads.snoc hadvance
      exact .inside (by rw [hthreads, Function.update_self]) hcalls (hresults ▸ hres) hnext hlonger
        (by rw [htrace, List.map_append, List.append_assoc])
    · refine (h.stages i).other ?_ (by rw [hresults]) (.inl (h.not_inside ?_))
      · rw [hthreads, Function.update_of_ne hij]
      · rw [hholder]
        exact fun heq => hij (Option.some.inj heq).symm
  · rw [hholder]
    rintro ⟨⟩

theorem Serialised.leaves (p' : Process ι μ σ ε κ α) {value : α} (hzone : zone control = .inside)
    (hnext : zone next = .behind) (hadvance : advance code p.state control = (p.state, [], next))
    (hreturns : ∀ s, stable s = r → code s next = .returns value)
    (hthreads : p'.threads = Function.update p.threads j (next :: calls))
    (hstate : p'.state = p.state) (hresults : p'.results = p.results)
    (hlocked : p'.locked mutex = false) :
    ∃ entry, Serialised code stable r zone mutex s threads p' trace
      (order ++ [(j, entry, value)]) p'.state trace none := by
  have hholder : holder = some j := (h.inside j control calls hcontrol).mp hzone
  obtain ⟨entry, n, events, hcalls, hres, hleads, htrace⟩ := (h.stages j).of_inside hcontrol hzone
  have hwhole := hleads.snoc hadvance
  rw [List.append_nil, ← hstate] at hwhole
  refine ⟨entry, h.finishes p' hcalls hres (fun i hij => ?_) hwhole htrace
    (hstate ▸ h.stable_state) hnext hreturns hthreads hresults hlocked⟩
  rw [hholder]
  exact fun heq => hij (Option.some.inj heq).symm

/-- The one step of a call that has no section. -/
theorem Serialised.acts_alone (p' : Process ι μ σ ε κ α) {events : List ε} {value : α}
    (hempty : ∀ l, zone l ≠ .inside) (hzone : zone control = .before) (hnext : zone next = .behind)
    (hadvance : advance code p.state control = (p'.state, events, next))
    (hstable : stable p'.state = r)
    (hreturns : ∀ s, stable s = r → code s next = .returns value)
    (hthreads : p'.threads = Function.update p.threads j (next :: calls))
    (hresults : p'.results = p.results) (hlocked : p'.locked mutex = p.locked mutex) :
    ∃ entry, Serialised code stable r zone mutex s threads p' (trace ++ events.map fun e => (j, e))
      (order ++ [(j, entry, value)]) p'.state (trace ++ events.map fun e => (j, e)) none := by
  have hholder : holder = none := by
    refine Option.eq_none_iff_forall_ne_some.mpr fun i hi => ?_
    obtain ⟨control', calls', hthreads'⟩ := List.exists_cons_of_ne_nil (h.occupied i hi)
    exact hempty control' ((h.inside i control' calls' hthreads').mpr hi)
  obtain ⟨hserial, htrace⟩ := h.free hholder
  obtain ⟨entry, hcalls, hres, n, hreads⟩ := (h.stages j).of_before hcontrol hzone
  have hwhole := (hreads p.state h.stable_state).snoc hadvance
  rw [List.nil_append, hserial] at hwhole
  refine ⟨entry, h.finishes p' hcalls hres (fun i _ => ?_) hwhole (by rw [htrace]) hstable hnext
    hreturns hthreads hresults ?_⟩
  · rw [hholder]
    exact Option.some_ne_none i |>.symm
  · rw [hlocked, h.locked, hholder]
    rfl

/-- What holds of the threads when `j` goes to its next call from outside of its section. -/
theorem Serialised.inside_later (hentries : ∀ i, ∀ l ∈ threads i, zone l = .before)
    (hcalls : ∀ l ∈ calls, l ∈ threads j) (hzone : zone control ≠ .inside)
    (hthreads : p'.threads = Function.update p.threads j calls) (i : ι) (control' : κ)
    (calls' : List κ) (hi : p'.threads i = control' :: calls') :
    zone control' = .inside ↔ holder = some i := by
  rw [hthreads, Function.update_apply] at hi
  split at hi
  · next hij =>
      have hbefore := hentries j control' (hcalls control' (hi ▸ List.mem_cons_self))
      rw [hij, ← h.inside j control calls hcontrol]
      exact iff_of_false (by rw [hbefore]; decide) hzone
  · exact h.inside i control' calls' hi

theorem Serialised.returns_before (p' : Process ι μ σ ε κ α) {value : α}
    (hentries : ∀ i, ∀ l ∈ threads i, zone l = .before)
    (hzone : zone control = .before)
    (hreturns : ∀ s, stable s = r → code s control = .returns value)
    (hthreads : p'.threads = Function.update p.threads j calls) (hstate : p'.state = p.state)
    (hresults : p'.results = Function.update p.results j (p.results j ++ [value]))
    (hlocked : p'.locked mutex = p.locked mutex) :
    ∃ entry, Serialised code stable r zone mutex s threads p' trace
      (order ++ [(j, entry, value)]) s₁ trace₁ holder := by
  obtain ⟨entry, hcalls, hres, n, hreads⟩ := (h.stages j).of_before hcontrol hzone
  refine ⟨entry, ?_, h.stable_serial, hstate ▸ h.stable_state, fun i => ?_, hlocked ▸ h.locked,
    ?_, h.occupied_later hcontrol (by rw [hzone]; decide) hthreads, hstate ▸ h.free⟩
  · rw [← List.append_nil trace₁]
    exact .snoc h.serial (hreads s₁ h.stable_serial) (hreturns s₁ h.stable_serial)
  · rcases eq_or_ne i j with rfl | hij
    · refine .later (by rw [hthreads, Function.update_self]) ?_ ?_ (hentries i)
      · rw [hcalls, entriesOf_snoc_self, List.append_assoc, List.singleton_append]
      · rw [resultsOf_snoc_self, hresults, Function.update_self, hres]
    · obtain ⟨hentries, hvalues⟩ := of_snoc_ne order hij entry value
      rw [hentries, hvalues]
      refine (h.stages i).other ?_ ?_ (.inr ⟨rfl, rfl, hstate, rfl⟩)
      · rw [hthreads, Function.update_of_ne hij]
      · rw [hresults, Function.update_of_ne hij]
  · refine h.inside_later hcontrol hentries ?_ (by rw [hzone]; decide) hthreads
    intro l hl
    rw [hcalls]
    exact List.mem_append_right _ (List.mem_cons_of_mem _ hl)

theorem Serialised.returns_behind {value : α} (hentries : ∀ i, ∀ l ∈ threads i, zone l = .before)
    (hzone : zone control = .behind) (hreturns : code p.state control = .returns value)
    (hthreads : p'.threads = Function.update p.threads j calls) (hstate : p'.state = p.state)
    (hresults : p'.results = Function.update p.results j (p.results j ++ [value]))
    (hlocked : p'.locked mutex = p.locked mutex) :
    Serialised code stable r zone mutex s threads p' trace order s₁ trace₁ holder := by
  obtain ⟨value', hcalls, hres, hreturns'⟩ := (h.stages j).of_behind hcontrol hzone
  obtain rfl : value = value' :=
    Action.returns.inj (hreturns.symm.trans (hreturns' p.state h.stable_state))
  refine ⟨h.serial, h.stable_serial, hstate ▸ h.stable_state, fun i => ?_, hlocked ▸ h.locked,
    ?_, h.occupied_later hcontrol (by rw [hzone]; decide) hthreads, hstate ▸ h.free⟩
  · rcases eq_or_ne i j with rfl | hij
    · refine .later (by rw [hthreads, Function.update_self]) hcalls ?_ (hentries i)
      rw [hresults, Function.update_self, hres]
    · refine (h.stages i).other ?_ ?_ (.inr ⟨rfl, rfl, hstate, rfl⟩)
      · rw [hthreads, Function.update_of_ne hij]
      · rw [hresults, Function.update_of_ne hij]
  · refine h.inside_later hcontrol hentries ?_ (by rw [hzone]; decide) hthreads
    intro l hl
    rw [hcalls]
    exact List.mem_append_right _ hl

end Preservation

section Runs

variable {code : Code μ σ ε κ α} {stable : σ → ρ} {r : ρ} {zone : κ → Zone} {mutex : μ}
  {s s₁ : σ} {threads : ι → List κ} {p : Process ι μ σ ε κ α} {trace trace₁ : List (ι × ε)}
  {order : List (ι × κ × α)} {holder : Option ι} {j : ι}
  {control : κ} {calls : List κ} {q : Process ι μ σ ε κ α × List (ι × ε)}

/-- A run so far is a sequence of calls that goes on `past`, with a part of one more. -/
def SerialisedFrom (past : List (ι × κ × α)) (code : Code μ σ ε κ α) (stable : σ → ρ) (r : ρ)
    (zone : κ → Zone) (mutex : μ) (s : σ) (threads : ι → List κ) (p : Process ι μ σ ε κ α)
    (trace : List (ι × ε)) : Prop :=
  ∃ order s₁ trace₁ holder, past <+: order ∧
    Serialised code stable r zone mutex s threads p trace order s₁ trace₁ holder

theorem Serialised.ends (ending : Ending Empty)
    (h : Serialised code stable r zone mutex s threads p trace order s₁ trace₁ holder) :
    SerialisedFrom order code stable r zone mutex s threads { p with ending := ending }
      (trace ++ []) := by
  rw [List.append_nil]
  exact ⟨order, s₁, trace₁, holder, List.prefix_rfl, h.serial, h.stable_serial, h.stable_state,
    fun i => (h.stages i).other rfl rfl (.inr ⟨rfl, rfl, rfl, rfl⟩), h.locked, h.inside,
    h.occupied, h.free⟩

theorem zone_ne_elsewhere
    (h : Serialised code stable r zone mutex s threads p trace order s₁ trace₁ holder)
    (hcontrol : p.threads j = control :: calls) : zone control ≠ .elsewhere := by
  intro hzone
  cases h.stages j with
  | idle hhere hcalls hresults => cases hcontrol.symm.trans hhere
  | before hhere hcalls hresults hbefore hreads =>
      obtain ⟨rfl, rfl⟩ := List.cons.inj (hcontrol.symm.trans hhere)
      cases hzone.symm.trans hbefore
  | inside hhere hcalls hresults hinside hleads htrace =>
      obtain ⟨rfl, rfl⟩ := List.cons.inj (hcontrol.symm.trans hhere)
      cases hzone.symm.trans hinside
  | behind hhere hcalls hresults hbehind hreturns =>
      obtain ⟨rfl, rfl⟩ := List.cons.inj (hcontrol.symm.trans hhere)
      cases hzone.symm.trans hbehind

theorem serialised_start (hs : stable s = r) (hentries : ∀ i, ∀ l ∈ threads i, zone l = .before) :
    Serialised code stable r zone mutex s threads (Process.start s threads) [] [] s [] none := by
  refine ⟨.nil, hs, hs, fun i => ?_, rfl, ?_, ?_, fun _ => ⟨rfl, rfl⟩⟩
  · have hall : (Process.start s threads : Process ι μ σ ε κ α).threads i = threads i := rfl
    exact .later hall rfl rfl (hentries i)
  · intro i control calls hi
    have hmem : control ∈ threads i := by
      rw [show threads i = control :: calls from hi]
      exact List.mem_cons_self
    exact iff_of_false (by rw [hentries i control hmem]; decide) (by simp)
  · rintro i ⟨⟩

variable [DecidableEq μ]

theorem serialised_step_before (hsections : Sectioned code mutex stable r zone)
    (hentries : ∀ i, ∀ l ∈ threads i, zone l = .before)
    (h : Serialised code stable r zone mutex s threads p trace order s₁ trace₁ holder)
    (hcontrol : p.threads j = control :: calls) (hzone : zone control = .before)
    (hsteps : Steps code p j control calls q) :
    SerialisedFrom order code stable r zone mutex s threads q.1 (trace ++ q.2) := by
  have hfront := hsections.before p.state control h.stable_state hzone
  have hsame {action : Action μ σ ε κ α} (hcode : code p.state control = action)
      (hacts : ∀ state events next, action ≠ .acts state events next) (s : σ) (hs : stable s = r) :
      code s control = action := by
    rcases hsections.reads p.state s control h.stable_state hs hzone with hreads |
      ⟨state, events, next, hread⟩
    · exact hreads.trans hcode
    · exact absurd (hcode.symm.trans hread) (hacts state events next)
  cases hsteps with
  | @lock m next hcode hfree =>
      rw [hcode] at hfront
      have hadvance (s : σ) (hs : stable s = r) : advance code s control = (s, [], next) :=
        advance_of_lock (hsame hcode (by simp) s hs)
      rw [List.append_nil]
      rcases hfront with ⟨rfl, hnext⟩ | ⟨hne, hnext⟩
      · exact ⟨_, _, _, _, List.prefix_rfl, h.enters hcontrol hzone hnext hfree hadvance rfl rfl rfl
          (Function.update_self _ _ _)⟩
      · exact ⟨_, _, _, _, List.prefix_rfl, h.goes_before hcontrol hzone hnext hadvance rfl rfl rfl
          (Function.update_of_ne hne.symm _ _)⟩
  | @unlock m next hcode =>
      rw [hcode] at hfront
      have hadvance (s : σ) (hs : stable s = r) : advance code s control = (s, [], next) :=
        advance_of_unlock (hsame hcode (by simp) s hs)
      rw [List.append_nil]
      exact ⟨_, _, _, _, List.prefix_rfl, h.goes_before hcontrol hzone hfront.2 hadvance rfl rfl rfl
        (Function.update_of_ne hfront.1.symm _ _)⟩
  | @goes next hcode =>
      rw [hcode] at hfront
      have hadvance (s : σ) (hs : stable s = r) : advance code s control = (s, [], next) :=
        advance_of_goes (hsame hcode (by simp) s hs)
      rw [List.append_nil]
      exact ⟨_, _, _, _, List.prefix_rfl, h.goes_before hcontrol hzone hfront hadvance rfl rfl rfl rfl⟩
  | @acts state events next hcode =>
      rw [hcode] at hfront
      obtain ⟨hempty, hnext, hstable⟩ := hfront
      obtain ⟨value, hreturns⟩ := hsections.behind next hnext
      obtain ⟨entry, hserialised⟩ := h.acts_alone hcontrol { p.goTo j (next :: calls) with
        state := state } hempty hzone hnext (advance_of_acts hcode) (hstable.trans h.stable_state)
        hreturns rfl rfl rfl
      exact ⟨_, _, _, _, List.prefix_append _ _, hserialised⟩
  | @returns value hcode =>
      rw [List.append_nil]
      obtain ⟨entry, hserialised⟩ := h.returns_before hcontrol { p.goTo j calls with
        results := Function.update p.results j (p.results j ++ [value]) } hentries hzone
        (hsame hcode (by simp)) rfl rfl rfl rfl
      exact ⟨_, _, _, _, List.prefix_append _ _, hserialised⟩
  | exits hcode => exact h.ends _
  | undefined hcode => exact h.ends _

theorem serialised_step_inside (hsections : Sectioned code mutex stable r zone)
    (h : Serialised code stable r zone mutex s threads p trace order s₁ trace₁ holder)
    (hcontrol : p.threads j = control :: calls) (hzone : zone control = .inside)
    (hsteps : Steps code p j control calls q) :
    SerialisedFrom order code stable r zone mutex s threads q.1 (trace ++ q.2) := by
  have hinside := hsections.inside p.state control h.stable_state hzone
  have hgoes {next : κ} (hnext : zone next = .inside)
      (hadvance : advance code p.state control = (p.state, [], next)) (p' : Process ι μ σ ε κ α)
      (hthreads : p'.threads = Function.update p.threads j (next :: calls))
      (hstate : p'.state = p.state) (hresults : p'.results = p.results)
      (hlocked : p'.locked mutex = p.locked mutex) :
      SerialisedFrom order code stable r zone mutex s threads p' (trace ++ []) :=
    ⟨_, _, _, _, List.prefix_rfl, h.goes_inside hcontrol hzone hnext hadvance h.stable_state hthreads
      hstate hresults hlocked⟩
  cases hsteps with
  | @lock m next hcode hfree =>
      rw [hcode] at hinside
      exact hgoes hinside.2 (advance_of_lock hcode) _ rfl rfl rfl
        (Function.update_of_ne hinside.1.symm _ _)
  | @unlock m next hcode =>
      rw [hcode] at hinside
      rcases hinside with ⟨rfl, hnext⟩ | ⟨hne, hnext⟩
      · obtain ⟨value, hreturns⟩ := hsections.behind next hnext
        obtain ⟨entry, hserialised⟩ := h.leaves hcontrol { p.goTo j (next :: calls) with
          locked := Function.update p.locked m false } hzone hnext (advance_of_unlock hcode)
          hreturns rfl rfl rfl (Function.update_self _ _ _)
        rw [List.append_nil]
        exact ⟨_, _, _, _, List.prefix_append _ _, hserialised⟩
      · exact hgoes hnext (advance_of_unlock hcode) _ rfl rfl rfl
          (Function.update_of_ne hne.symm _ _)
  | goes hcode =>
      rw [hcode] at hinside
      exact hgoes hinside (advance_of_goes hcode) _ rfl rfl rfl rfl
  | @acts state events next hcode =>
      rw [hcode] at hinside
      exact ⟨_, _, _, _, List.prefix_rfl, h.goes_inside hcontrol hzone hinside.1 (advance_of_acts hcode)
        (hinside.2.trans h.stable_state) rfl rfl rfl rfl⟩
  | returns hcode =>
      rw [hcode] at hinside
      cases hinside
  | exits hcode => exact h.ends _
  | undefined hcode => exact h.ends _

theorem serialised_step_behind (hsections : Sectioned code mutex stable r zone)
    (hentries : ∀ i, ∀ l ∈ threads i, zone l = .before)
    (h : Serialised code stable r zone mutex s threads p trace order s₁ trace₁ holder)
    (hcontrol : p.threads j = control :: calls) (hzone : zone control = .behind)
    (hsteps : Steps code p j control calls q) :
    SerialisedFrom order code stable r zone mutex s threads q.1 (trace ++ q.2) := by
  obtain ⟨value, hreturns⟩ := hsections.behind control hzone
  have hcode := hreturns p.state h.stable_state
  obtain rfl := hsteps.of_returns hcode
  rw [List.append_nil]
  exact ⟨_, _, _, _, List.prefix_rfl, h.returns_behind hcontrol hentries hzone hcode rfl rfl rfl rfl⟩

theorem serialised_step (hsections : Sectioned code mutex stable r zone)
    (hentries : ∀ i, ∀ l ∈ threads i, zone l = .before)
    (h : Serialised code stable r zone mutex s threads p trace order s₁ trace₁ holder)
    (hstep : step code p j = some q) :
    SerialisedFrom order code stable r zone mutex s threads q.1 (trace ++ q.2) := by
  obtain ⟨-, control, calls, hcontrol, hsteps⟩ := step_cases hstep
  cases hzone : zone control with
  | before => exact serialised_step_before hsections hentries h hcontrol hzone hsteps
  | inside => exact serialised_step_inside hsections h hcontrol hzone hsteps
  | behind => exact serialised_step_behind hsections hentries h hcontrol hzone hsteps
  | elsewhere => exact absurd hzone (zone_ne_elsewhere h hcontrol)

/-- A schedule only adds calls at the end of the order. -/
theorem serialised_later (hsections : Sectioned code mutex stable r zone)
    (hentries : ∀ i, ∀ l ∈ threads i, zone l = .before)
    (h : Serialised code stable r zone mutex s threads p trace order s₁ trace₁ holder)
    {schedule : List ι} (hrun : run (step code) p schedule = some q) :
    SerialisedFrom order code stable r zone mutex s threads q.1 (trace ++ q.2) := by
  refine run_events_induction (P := fun p events =>
    SerialisedFrom order code stable r zone mutex s threads p (trace ++ events)) ?_ ?_ hrun
  · rw [List.append_nil]
    exact ⟨order, s₁, trace₁, holder, List.prefix_rfl, h⟩
  · rintro p events j q ⟨order₁, s₂, trace₂, holder₁, hprefix, h⟩ hstep
    obtain ⟨order₂, s₃, trace₃, holder₂, hprefix', h'⟩ := serialised_step hsections hentries h hstep
    rw [List.append_assoc] at h'
    exact ⟨order₂, s₃, trace₃, holder₂, hprefix.trans hprefix', h'⟩

/-- Any schedule of calls with one section each comes to the calls one behind the other,
in the order of their sections, and a part of the call that is in its section. -/
theorem serialised_run (hsections : Sectioned code mutex stable r zone) (hs : stable s = r)
    (hentries : ∀ i, ∀ l ∈ threads i, zone l = .before) {schedule : List ι}
    (hrun : run (step code) (Process.start s threads) schedule = some q) :
    ∃ order s₁ trace₁ holder,
      Serialised code stable r zone mutex s threads q.1 q.2 order s₁ trace₁ holder := by
  obtain ⟨order, s₁, trace₁, holder, -, h⟩ :=
    serialised_later hsections hentries (serialised_start hs hentries) hrun
  exact ⟨order, s₁, trace₁, holder, h⟩

end Runs

end DaapLog.CriticalSections
