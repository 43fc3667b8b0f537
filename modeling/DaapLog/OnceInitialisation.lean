import DaapLog.CriticalSections

/-!
Calls that test a flag under a mutex. The first one that gets through sets the flag and
may go on behind the mutex; the ones that find the flag return at once. Any interleaving
of such calls is a sequence of them.
-/

namespace DaapLog.OnceInitialisation

open DaapLog.CriticalSections
open DaapLog.Runs
open DaapLog.Threads
open DaapLog.TracedCalls

variable {ι μ σ ε κ α : Type*}

/-- What a control point is for: between `testing` and `raised` the mutex is held, and
behind `raised` the flag is set. -/
inductive Part
  | entry
  | testing
  | skipping
  | working
  | raised
  | finishing
  | done
  | elsewhere
  deriving DecidableEq, Repr

def Part.holds : Part → Bool
  | .testing => true
  | .skipping => true
  | .working => true
  | .raised => true
  | _ => false

/-- Under the mutex a call may fail, which gives the mutex back without the flag. -/
def Working (part : κ → Part) (mutex : μ) (flag : σ → Bool) : Action μ σ ε κ α → Prop
  | .lock m next => m ≠ mutex ∧ part next = .working
  | .unlock m next => m = mutex ∧ part next = .done ∨ m ≠ mutex ∧ part next = .working
  | .goes next => part next = .working
  | .acts state _ next => part next = if flag state then .raised else .working
  | .returns _ => False
  | .exits _ => True
  | .undefined => True

def Finishing (part : κ → Part) (mutex : μ) (flag : σ → Bool) : Action μ σ ε κ α → Prop
  | .lock m next => m ≠ mutex ∧ (part next = .finishing ∨ part next = .done)
  | .unlock m next => m ≠ mutex ∧ (part next = .finishing ∨ part next = .done)
  | .goes next => part next = .finishing ∨ part next = .done
  | .acts state _ next => flag state = true ∧ (part next = .finishing ∨ part next = .done)
  | .returns _ => False
  | .exits _ => True
  | .undefined => True

structure Once (code : Code μ σ ε κ α) (mutex : μ) (flag : σ → Bool) (part : κ → Part) :
    Prop where
  entry : ∀ l, part l = .entry → ∃ next, part next = .testing ∧ ∀ s, code s l = .lock mutex next
  found : ∀ l, part l = .testing →
    ∃ next, part next = .skipping ∧ ∀ s, flag s = true → code s l = .goes next
  testing : ∀ s l, part l = .testing → flag s = false → Working part mutex flag (code s l)
  skipping : ∀ l, part l = .skipping →
    ∃ next, part next = .done ∧ ∀ s, code s l = .unlock mutex next
  working : ∀ s l, part l = .working → flag s = false → Working part mutex flag (code s l)
  raised : ∀ l, part l = .raised →
    ∃ next, part next = .finishing ∧ ∀ s, code s l = .unlock mutex next
  finishing : ∀ s l, part l = .finishing → flag s = true → Finishing part mutex flag (code s l)
  done : ∀ l, part l = .done → ∃ value, ∀ s, code s l = .returns value

/-- A call that does nothing once the flag is set. -/
def Skips (code : Code μ σ ε κ α) (flag : σ → Bool) (entry : κ) (value : α) : Prop :=
  ∀ s, flag s = true → ∃ n l, Leads code n s entry [] s l ∧ code s l = .returns value

/-- The call that has work to do, or has had it, in the middle of it. -/
structure Active (code : Code μ σ ε κ α) (flag : σ → Bool) (part : κ → Part) (base : σ)
    (trace₁ : List (ι × ε)) (p : Process ι μ σ ε κ α) (trace : List (ι × ε)) (w : ι)
    (calls₀ entries : List κ) (results : List α) (entry : κ) (n : Nat) (events : List ε) (l : κ)
    (calls : List κ) : Prop where
  threads : p.threads w = l :: calls
  calls : calls₀ = entries ++ entry :: calls
  results : p.results w = results
  leads : Leads code n base entry events p.state l
  trace : trace = trace₁ ++ events.map fun e => (w, e)
  unset : part l = .testing ∨ part l = .working → flag p.state = false
  set : part l = .raised ∨ part l = .finishing → flag p.state = true
  inside : part l = .testing ∨ part l = .working ∨ part l = .raised ∨ part l = .finishing

/-- Where a thread is whose call has no work to do. -/
inductive Other (code : Code μ σ ε κ α) (mutex : μ) (flag : σ → Bool) (part : κ → Part)
    (p : Process ι μ σ ε κ α) (i : ι) (calls₀ entries : List κ) (results : List α) : Prop
  | between (hcalls : calls₀ = entries ++ p.threads i) (hresults : p.results i = results)
  | testing {entry l : κ} {calls : List κ} (hthreads : p.threads i = l :: calls)
      (hcalls : calls₀ = entries ++ entry :: calls) (hresults : p.results i = results)
      (hpart : part l = .testing) (hlock : ∀ s, code s entry = .lock mutex l)
  | skipping {entry l : κ} {calls : List κ} {n : Nat} (hthreads : p.threads i = l :: calls)
      (hcalls : calls₀ = entries ++ entry :: calls) (hresults : p.results i = results)
      (hpart : part l = .skipping) (hset : flag p.state = true)
      (hleads : ∀ s, flag s = true → Leads code n s entry [] s l)
  | done {l : κ} {calls : List κ} {value : α} (hthreads : p.threads i = l :: calls)
      (hcalls : calls₀ = entries ++ calls) (hresults : results = p.results i ++ [value])
      (hpart : part l = .done) (hreturns : ∀ s, code s l = .returns value)

section Staging

variable {code : Code μ σ ε κ α} {mutex : μ} {flag : σ → Bool} {part : κ → Part}
  {p p' : Process ι μ σ ε κ α} {i : ι} {l : κ} {calls calls₀ entries : List κ} {results : List α}
  (h : Other code mutex flag part p i calls₀ entries results)

include h

theorem Other.frame (hthreads : p'.threads i = p.threads i) (hresults : p'.results i = p.results i)
    (hflag : flag p.state = true → flag p'.state = true) :
    Other code mutex flag part p' i calls₀ entries results := by
  cases h with
  | between hcalls hres => exact .between (hthreads ▸ hcalls) (hresults.trans hres)
  | testing hhere hcalls hres hpart hlock =>
      exact .testing (hthreads.trans hhere) hcalls (hresults.trans hres) hpart hlock
  | skipping hhere hcalls hres hpart hset hleads =>
      exact .skipping (hthreads.trans hhere) hcalls (hresults.trans hres) hpart (hflag hset) hleads
  | done hhere hcalls hres hpart hreturns =>
      exact .done (hthreads.trans hhere) hcalls (hresults ▸ hres) hpart hreturns

variable (hcontrol : p.threads i = l :: calls)

include hcontrol

theorem Other.of_entry (hpart : part l = .entry) :
    calls₀ = entries ++ l :: calls ∧ p.results i = results := by
  cases h with
  | between hcalls hres => exact ⟨hcontrol ▸ hcalls, hres⟩
  | testing hhere hcalls hres htesting hlock =>
      obtain ⟨rfl, rfl⟩ := List.cons.inj (hcontrol.symm.trans hhere)
      cases hpart.symm.trans htesting
  | skipping hhere hcalls hres hskipping hset hleads =>
      obtain ⟨rfl, rfl⟩ := List.cons.inj (hcontrol.symm.trans hhere)
      cases hpart.symm.trans hskipping
  | done hhere hcalls hres hdone hreturns =>
      obtain ⟨rfl, rfl⟩ := List.cons.inj (hcontrol.symm.trans hhere)
      cases hpart.symm.trans hdone

variable (hentries : ∀ l ∈ calls₀, part l = .entry)

include hentries

theorem Other.of_testing (hpart : part l = .testing) :
    ∃ entry, calls₀ = entries ++ entry :: calls ∧ p.results i = results ∧
      ∀ s, code s entry = .lock mutex l := by
  cases h with
  | between hcalls hres =>
      have hmem : l ∈ calls₀ := by
        rw [hcalls, hcontrol]
        exact List.mem_append_right _ List.mem_cons_self
      cases hpart.symm.trans (hentries l hmem)
  | testing hhere hcalls hres htesting hlock =>
      obtain ⟨rfl, rfl⟩ := List.cons.inj (hcontrol.symm.trans hhere)
      exact ⟨_, hcalls, hres, hlock⟩
  | skipping hhere hcalls hres hskipping hset hleads =>
      obtain ⟨rfl, rfl⟩ := List.cons.inj (hcontrol.symm.trans hhere)
      cases hpart.symm.trans hskipping
  | done hhere hcalls hres hdone hreturns =>
      obtain ⟨rfl, rfl⟩ := List.cons.inj (hcontrol.symm.trans hhere)
      cases hpart.symm.trans hdone

theorem Other.of_skipping (hpart : part l = .skipping) :
    ∃ entry n, calls₀ = entries ++ entry :: calls ∧ p.results i = results ∧
      flag p.state = true ∧ ∀ s, flag s = true → Leads code n s entry [] s l := by
  cases h with
  | between hcalls hres =>
      have hmem : l ∈ calls₀ := by
        rw [hcalls, hcontrol]
        exact List.mem_append_right _ List.mem_cons_self
      cases hpart.symm.trans (hentries l hmem)
  | testing hhere hcalls hres htesting hlock =>
      obtain ⟨rfl, rfl⟩ := List.cons.inj (hcontrol.symm.trans hhere)
      cases hpart.symm.trans htesting
  | skipping hhere hcalls hres hskipping hset hleads =>
      obtain ⟨rfl, rfl⟩ := List.cons.inj (hcontrol.symm.trans hhere)
      exact ⟨_, _, hcalls, hres, hset, hleads⟩
  | done hhere hcalls hres hdone hreturns =>
      obtain ⟨rfl, rfl⟩ := List.cons.inj (hcontrol.symm.trans hhere)
      cases hpart.symm.trans hdone

theorem Other.of_done (hpart : part l = .done) :
    ∃ value, calls₀ = entries ++ calls ∧ results = p.results i ++ [value] ∧
      ∀ s, code s l = .returns value := by
  cases h with
  | between hcalls hres =>
      have hmem : l ∈ calls₀ := by
        rw [hcalls, hcontrol]
        exact List.mem_append_right _ List.mem_cons_self
      cases hpart.symm.trans (hentries l hmem)
  | testing hhere hcalls hres htesting hlock =>
      obtain ⟨rfl, rfl⟩ := List.cons.inj (hcontrol.symm.trans hhere)
      cases hpart.symm.trans htesting
  | skipping hhere hcalls hres hskipping hset hleads =>
      obtain ⟨rfl, rfl⟩ := List.cons.inj (hcontrol.symm.trans hhere)
      cases hpart.symm.trans hskipping
  | done hhere hcalls hres hdone hreturns =>
      obtain ⟨rfl, rfl⟩ := List.cons.inj (hcontrol.symm.trans hhere)
      exact ⟨_, hcalls, hres, hreturns⟩

theorem Other.part_cases :
    part l = .entry ∨ part l = .testing ∨ part l = .skipping ∨ part l = .done := by
  cases h with
  | between hcalls hres =>
      have hmem : l ∈ calls₀ := by
        rw [hcalls, hcontrol]
        exact List.mem_append_right _ List.mem_cons_self
      exact .inl (hentries l hmem)
  | testing hhere hcalls hres htesting hlock =>
      obtain ⟨rfl, rfl⟩ := List.cons.inj (hcontrol.symm.trans hhere)
      exact .inr (.inl htesting)
  | skipping hhere hcalls hres hskipping hset hleads =>
      obtain ⟨rfl, rfl⟩ := List.cons.inj (hcontrol.symm.trans hhere)
      exact .inr (.inr (.inl hskipping))
  | done hhere hcalls hres hdone hreturns =>
      obtain ⟨rfl, rfl⟩ := List.cons.inj (hcontrol.symm.trans hhere)
      exact .inr (.inr (.inr hdone))

end Staging

theorem Active.frame {code : Code μ σ ε κ α} {flag : σ → Bool} {part : κ → Part} {base : σ}
    {trace₁ trace : List (ι × ε)} {p p' : Process ι μ σ ε κ α} {w : ι} {calls₀ entries : List κ}
    {results : List α} {entry : κ} {n : Nat} {events : List ε} {l : κ} {calls : List κ}
    (h : Active code flag part base trace₁ p trace w calls₀ entries results entry n events l calls)
    (hthreads : p'.threads w = p.threads w) (hresults : p'.results w = p.results w)
    (hstate : p'.state = p.state) :
    Active code flag part base trace₁ p' trace w calls₀ entries results entry n events l calls :=
  ⟨hthreads.trans h.threads, h.calls, hresults.trans h.results, hstate ▸ h.leads, h.trace,
    hstate ▸ h.unset, hstate ▸ h.set, h.inside⟩

theorem serial_skips {code : Code μ σ ε κ α} {flag : σ → Bool} {s base : σ}
    {order skipped : List (ι × κ × α)} {trace : List (ι × ε)}
    (h : Serial code s order base trace) (hset : flag base = true)
    (hskipped : ∀ x ∈ skipped, Skips code flag x.2.1 x.2.2) :
    Serial code s (order ++ skipped) base trace := by
  induction skipped using List.reverseRecOn with
  | nil => rwa [List.append_nil]
  | append_singleton skipped x ih =>
      obtain ⟨hbefore, hlast⟩ := List.forall_mem_append.mp hskipped
      obtain ⟨n, l, hleads, hreturns⟩ := hlast x (List.mem_singleton_self x) base hset
      have hsnoc := (ih hbefore).snoc (i := x.1) hleads hreturns
      rwa [List.map_nil, List.append_nil, List.append_assoc] at hsnoc

variable [DecidableEq ι]

/-- The calls `order` one behind the other, a part of the call of the thread `busy`,
and calls that have found the flag in the meantime. -/
structure OnceState (code : Code μ σ ε κ α) (mutex : μ) (flag : σ → Bool) (part : κ → Part)
    (s : σ) (threads : ι → List κ) (p : Process ι μ σ ε κ α) (trace : List (ι × ε))
    (order : List (ι × κ × α)) (base : σ) (trace₁ : List (ι × ε)) (busy : Option ι)
    (skipped : List (ι × κ × α)) (holder : Option ι) : Prop where
  serial : Serial code s order base trace₁
  active : ∀ w, busy = some w → ∃ entry n events l calls,
    Active code flag part base trace₁ p trace w (threads w) (entriesOf order w)
      (resultsOf order w) entry n events l calls
  others : ∀ i, busy ≠ some i → Other code mutex flag part p i (threads i)
    (entriesOf (order ++ skipped) i) (resultsOf (order ++ skipped) i)
  idle : busy = none → p.state = base ∧ trace = trace₁ ∧ skipped = []
  skipped : ∀ x ∈ skipped, busy ≠ some x.1 ∧ flag p.state = true ∧ Skips code flag x.2.1 x.2.2
  locked : p.locked mutex = holder.isSome
  holder : ∀ i l calls, p.threads i = l :: calls → ((part l).holds = true ↔ holder = some i)

section Preservation

variable {code : Code μ σ ε κ α} {mutex : μ} {flag : σ → Bool} {part : κ → Part} {s : σ}
  {threads : ι → List κ} {p p' : Process ι μ σ ε κ α} {trace : List (ι × ε)}
  {order : List (ι × κ × α)} {base : σ} {trace₁ : List (ι × ε)} {busy : Option ι}
  {skipped : List (ι × κ × α)} {holder : Option ι} {j : ι} {l next : κ} {calls : List κ}
  (h : OnceState code mutex flag part s threads p trace order base trace₁ busy skipped holder)

include h

theorem OnceState.not_busy_of_skipped : busy = some j → entriesOf skipped j = [] ∧
    resultsOf skipped j = [] := by
  intro hbusy
  have hnone : skipped.filter (fun call => call.1 = j) = [] := by
    refine List.filter_eq_nil_iff.mpr fun x hx hj => ?_
    rw [decide_eq_true_eq] at hj
    exact (h.skipped x hx).1 (hj ▸ hbusy)
  rw [entriesOf, resultsOf, hnone]
  exact ⟨rfl, rfl⟩

theorem OnceState.active_frame {calls' : List κ} (hbusy : busy ≠ some j)
    (hthreads : p'.threads = Function.update p.threads j calls') (hstate : p'.state = p.state)
    (hresults : ∀ i, i ≠ j → p'.results i = p.results i) (w : ι) (hw : busy = some w) :
    ∃ entry n events l calls, Active code flag part base trace₁ p' trace w (threads w)
      (entriesOf order w) (resultsOf order w) entry n events l calls := by
  obtain ⟨entry, n, events, l, calls, hactive⟩ := h.active w hw
  have hwj : w ≠ j := fun heq => hbusy (heq ▸ hw)
  refine ⟨entry, n, events, l, calls, hactive.frame ?_ (hresults w hwj) hstate⟩
  rw [hthreads, Function.update_of_ne hwj]

variable (hcontrol : p.threads j = l :: calls)

include hcontrol

theorem OnceState.busy_part (hbusy : busy = some j) :
    part l = .testing ∨ part l = .working ∨ part l = .raised ∨ part l = .finishing := by
  obtain ⟨entry, n, events, l', calls', hactive⟩ := h.active j hbusy
  obtain ⟨rfl, rfl⟩ := List.cons.inj (hcontrol.symm.trans hactive.threads)
  exact hactive.inside

theorem OnceState.active_of_busy (hbusy : busy = some j) : ∃ entry n events,
    Active code flag part base trace₁ p trace j (threads j) (entriesOf order j)
      (resultsOf order j) entry n events l calls := by
  obtain ⟨entry, n, events, l', calls', hactive⟩ := h.active j hbusy
  obtain ⟨rfl, rfl⟩ := List.cons.inj (hcontrol.symm.trans hactive.threads)
  exact ⟨entry, n, events, hactive⟩

/-- The holder stays the same when the thread `j` keeps or does not have the mutex. -/
theorem OnceState.holder_update (hholds : (part next).holds = (part l).holds)
    (hthreads : p'.threads = Function.update p.threads j (next :: calls)) (i : ι) (l' : κ)
    (calls' : List κ) (hi : p'.threads i = l' :: calls') :
    (part l').holds = true ↔ holder = some i := by
  rw [hthreads, Function.update_apply] at hi
  split at hi
  · next hij =>
      obtain ⟨rfl, rfl⟩ := List.cons.inj hi
      rw [hholds, hij]
      exact h.holder j l calls hcontrol
  · exact h.holder i l' calls' hi

/-- The mutex is free once the thread `j` has given it back. -/
theorem OnceState.holder_released (hheld : (part l).holds = true)
    (hholds : (part next).holds = false)
    (hthreads : p'.threads = Function.update p.threads j (next :: calls)) (i : ι) (l' : κ)
    (calls' : List κ) (hi : p'.threads i = l' :: calls') :
    (part l').holds = true ↔ none = some i := by
  rw [hthreads, Function.update_apply] at hi
  split at hi
  · obtain ⟨rfl, rfl⟩ := List.cons.inj hi
    simp [hholds]
  · next hij =>
      have hother := h.holder i l' calls' hi
      rw [(h.holder j l calls hcontrol).mp hheld] at hother
      rw [hother]
      simp [Ne.symm hij]

theorem OnceState.enters (hpart : part l = .entry) (hnext : part next = .testing)
    (hlock : ∀ s, code s l = .lock mutex next) (hfree : p.locked mutex = false)
    (hthreads : p'.threads = Function.update p.threads j (next :: calls))
    (hstate : p'.state = p.state) (hresults : p'.results = p.results)
    (hlocked : p'.locked mutex = true) :
    OnceState code mutex flag part s threads p' trace order base trace₁ busy skipped (some j) := by
  have hnone : holder = none := by
    rw [← Option.not_isSome_iff_eq_none, ← h.locked, hfree]
    exact Bool.false_ne_true
  have hbusy : busy ≠ some j := by
    intro hbusy
    rcases h.busy_part hcontrol hbusy with hl | hl | hl | hl <;> cases hpart.symm.trans hl
  refine ⟨h.serial, fun w hw => ?_, fun i hi => ?_, hstate ▸ h.idle, hstate ▸ h.skipped, hlocked, ?_⟩
  · exact h.active_frame hbusy hthreads hstate (fun i _ => by rw [hresults]) w hw
  · rcases eq_or_ne i j with rfl | hij
    · obtain ⟨hcalls, hres⟩ := (h.others i hi).of_entry hcontrol hpart
      exact .testing (by rw [hthreads, Function.update_self]) hcalls (hresults ▸ hres) hnext hlock
    · refine (h.others i hi).frame ?_ (by rw [hresults]) (hstate ▸ id)
      rw [hthreads, Function.update_of_ne hij]
  · intro i l' calls' hi
    rw [hthreads, Function.update_apply] at hi
    split at hi
    · next hij =>
        obtain ⟨rfl, rfl⟩ := List.cons.inj hi
        rw [hnext]
        exact iff_of_true rfl (congrArg some hij.symm)
    · next hij =>
        rw [h.holder i l' calls' hi, hnone]
        simp [Ne.symm hij]

theorem OnceState.finds (hentries : ∀ i, ∀ l ∈ threads i, part l = .entry)
    (hpart : part l = .testing) (hnext : part next = .skipping) (hbusy : busy ≠ some j)
    (hset : flag p.state = true) (hgoes : ∀ s, flag s = true → code s l = .goes next)
    (hthreads : p'.threads = Function.update p.threads j (next :: calls))
    (hstate : p'.state = p.state) (hresults : p'.results = p.results)
    (hlocked : p'.locked mutex = p.locked mutex) :
    OnceState code mutex flag part s threads p' trace order base trace₁ busy skipped holder := by
  refine ⟨h.serial, h.active_frame hbusy hthreads hstate (fun i _ => by rw [hresults]),
    fun i hi => ?_, hstate ▸ h.idle, hstate ▸ h.skipped, hlocked ▸ h.locked,
    h.holder_update hcontrol (by rw [hpart, hnext]; rfl) hthreads⟩
  rcases eq_or_ne i j with rfl | hij
  · obtain ⟨entry, hcalls, hres, hlock⟩ := (h.others i hi).of_testing hcontrol (hentries i) hpart
    refine .skipping (n := 2) (by rw [hthreads, Function.update_self]) hcalls (hresults ▸ hres)
      hnext (hstate ▸ hset) fun s hs => ?_
    exact (Leads.one (advance_of_lock (hlock s))).snoc (advance_of_goes (hgoes s hs))
  · refine (h.others i hi).frame ?_ (by rw [hresults]) (hstate ▸ id)
    rw [hthreads, Function.update_of_ne hij]

/-- A call that does not find the flag is the one with work to do. -/
theorem OnceState.begins (hentries : ∀ i, ∀ l ∈ threads i, part l = .entry)
    (hpart : part l = .testing) (hbusy : busy ≠ some j) (hunset : flag p.state = false) :
    OnceState code mutex flag part s threads p trace order base trace₁ (some j) [] holder := by
  have hholder : holder = some j := (h.holder j l calls hcontrol).mp (by rw [hpart]; rfl)
  have hnone : busy = none := by
    cases hw : busy with
    | none => rfl
    | some w =>
        obtain ⟨entry, n, events, l', calls', hactive⟩ := h.active w hw
        have hheld : (part l').holds = true := by
          rcases hactive.inside with hl | hl | hl | hl
          · rw [hl]; rfl
          · rw [hl]; rfl
          · rw [hl]; rfl
          · cases hunset.symm.trans (hactive.set (.inr hl))
        have hw' := (h.holder w l' calls' hactive.threads).mp hheld
        rw [hholder] at hw'
        exact absurd (hw.trans hw'.symm) hbusy
  obtain ⟨hstate, htrace, rfl⟩ := h.idle hnone
  have hother := h.others j hbusy
  rw [List.append_nil] at hother
  obtain ⟨entry, hcalls, hres, hlock⟩ := hother.of_testing hcontrol (hentries j) hpart
  refine ⟨h.serial, fun w hw => ?_, fun i hi => ?_, ?_, fun x hx => absurd hx List.not_mem_nil,
    h.locked, h.holder⟩
  · obtain rfl := Option.some.inj hw
    refine ⟨entry, 1, [], l, calls, hcontrol, hcalls, hres, ?_,
      by rw [htrace, List.map_nil, List.append_nil], fun _ => hunset, fun hl => ?_, .inl hpart⟩
    · rw [hstate]
      exact Leads.one (advance_of_lock (hlock base))
    · rcases hl with hl | hl <;> cases hpart.symm.trans hl
  · exact h.others i (by simp [hnone])
  · rintro ⟨⟩

theorem OnceState.skips (p' : Process ι μ σ ε κ α) {value : α}
    (hentries : ∀ i, ∀ l ∈ threads i, part l = .entry)
    (hpart : part l = .skipping) (hnext : part next = .done)
    (hunlock : ∀ s, code s l = .unlock mutex next) (hreturns : ∀ s, code s next = .returns value)
    (hthreads : p'.threads = Function.update p.threads j (next :: calls))
    (hstate : p'.state = p.state) (hresults : p'.results = p.results)
    (hlocked : p'.locked mutex = false) :
    ∃ order' skipped',
      OnceState code mutex flag part s threads p' trace order' base trace₁ busy skipped' none := by
  have hbusy : busy ≠ some j := by
    intro hbusy
    rcases h.busy_part hcontrol hbusy with hl | hl | hl | hl <;> cases hpart.symm.trans hl
  obtain ⟨entry, n, hcalls, hres, hset, hleads⟩ :=
    (h.others j hbusy).of_skipping hcontrol (hentries j) hpart
  have hskips : Skips code flag entry value := fun s hs =>
    ⟨n + 1, next, (hleads s hs).snoc (advance_of_unlock (hunlock s)), hreturns s⟩
  have hreleased := h.holder_released hcontrol (by rw [hpart]; rfl) (by rw [hnext]; rfl) hthreads
  have hothers (order' : List (ι × κ × α))
      (horder : order' = order ++ skipped ++ [(j, entry, value)]) (i : ι) (hi : busy ≠ some i) :
      Other code mutex flag part p' i (threads i) (entriesOf order' i) (resultsOf order' i) := by
    rw [horder]
    rcases eq_or_ne i j with rfl | hij
    · rw [entriesOf_snoc_self, resultsOf_snoc_self]
      refine .done (by rw [hthreads, Function.update_self]) ?_ (by rw [hresults, hres]) hnext hreturns
      rw [hcalls, List.append_assoc, List.singleton_append]
    · obtain ⟨hentries, hvalues⟩ := of_snoc_ne (order ++ skipped) hij entry value
      rw [hentries, hvalues]
      refine (h.others i hi).frame ?_ (by rw [hresults]) (hstate ▸ id)
      rw [hthreads, Function.update_of_ne hij]
  cases hw : busy with
  | none =>
      obtain ⟨hbase, htrace, rfl⟩ := h.idle hw
      refine ⟨order ++ [(j, entry, value)], [], ?_, ?_, fun i hi => ?_,
        fun _ => ⟨hstate.trans hbase, htrace, rfl⟩, fun x hx => absurd hx List.not_mem_nil,
        hlocked, hreleased⟩
      · refine serial_skips h.serial (hbase ▸ hset) fun x hx => ?_
        rw [List.mem_singleton.mp hx]
        exact hskips
      · rintro w ⟨⟩
      · rw [List.append_nil]
        exact hothers _ (by rw [List.append_nil]) i (hw ▸ hi)
  | some w =>
      refine ⟨order, skipped ++ [(j, entry, value)], h.serial, ?_,
        fun i hi => ?_, ?_, fun x hx => ?_, hlocked, hreleased⟩
      · exact hw ▸ h.active_frame hbusy hthreads hstate fun i _ => by rw [hresults]
      · exact hothers _ (List.append_assoc _ _ _).symm i (hw ▸ hi)
      · rintro ⟨⟩
      · rcases List.mem_append.mp hx with hx | hx
        · obtain ⟨hother, hset', hskips'⟩ := h.skipped x hx
          exact ⟨hw ▸ hother, hstate ▸ hset', hskips'⟩
        · rw [List.mem_singleton.mp hx]
          exact ⟨hw ▸ hbusy, hstate ▸ hset, hskips⟩

/-- The busy thread does a step and stays busy. -/
theorem OnceState.goes_on (p' : Process ι μ σ ε κ α) (holder' : Option ι) {state : σ}
    {events : List ε} (hbusy : busy = some j)
    (hadvance : advance code p.state l = (state, events, next))
    (hunset : part next = .testing ∨ part next = .working → flag state = false)
    (hset : part next = .raised ∨ part next = .finishing → flag state = true)
    (hinside : part next = .testing ∨ part next = .working ∨ part next = .raised ∨
      part next = .finishing)
    (hflag : flag p.state = true → flag state = true)
    (hthreads : p'.threads = Function.update p.threads j (next :: calls))
    (hstate : p'.state = state) (hresults : p'.results = p.results)
    (hlocked : p'.locked mutex = holder'.isSome)
    (hholder : ∀ i l calls, p'.threads i = l :: calls → ((part l).holds = true ↔ holder' = some i)) :
    OnceState code mutex flag part s threads p' (trace ++ events.map fun e => (j, e)) order base
      trace₁ busy skipped holder' := by
  obtain ⟨entry, n, front, hactive⟩ := h.active_of_busy hcontrol hbusy
  refine ⟨h.serial, fun w hw => ?_, fun i hi => ?_, ?_, fun x hx => ?_, hlocked, hholder⟩
  · obtain rfl := Option.some.inj (hbusy.symm.trans hw)
    refine ⟨entry, n + 1, front ++ events, next, calls, by rw [hthreads, Function.update_self],
      hactive.calls, hresults ▸ hactive.results, ?_, ?_, hstate ▸ hunset, hstate ▸ hset, hinside⟩
    · rw [hstate]
      exact hactive.leads.snoc hadvance
    · rw [hactive.trace, List.map_append, List.append_assoc]
  · have hij : i ≠ j := fun heq => hi (heq ▸ hbusy)
    refine (h.others i hi).frame ?_ (by rw [hresults]) (hstate ▸ hflag)
    rw [hthreads, Function.update_of_ne hij]
  · rw [hbusy]
    rintro ⟨⟩
  · obtain ⟨hother, hset', hskips⟩ := h.skipped x hx
    exact ⟨hother, hstate ▸ hflag hset', hskips⟩

/-- The busy thread is done: its call stands behind the earlier ones, and the calls that
have found its flag stand behind it. -/
theorem OnceState.completes (p' : Process ι μ σ ε κ α) (holder' : Option ι) {state : σ}
    {events : List ε} {value : α} (hbusy : busy = some j)
    (hadvance : advance code p.state l = (state, events, next)) (hnext : part next = .done)
    (hreturns : ∀ s, code s next = .returns value) (hflag : flag p.state = true → flag state = true)
    (hthreads : p'.threads = Function.update p.threads j (next :: calls))
    (hstate : p'.state = state) (hresults : p'.results = p.results)
    (hlocked : p'.locked mutex = holder'.isSome)
    (hholder : ∀ i l calls, p'.threads i = l :: calls → ((part l).holds = true ↔ holder' = some i)) :
    ∃ order', OnceState code mutex flag part s threads p' (trace ++ events.map fun e => (j, e)) order'
      state (trace ++ events.map fun e => (j, e)) none [] holder' := by
  obtain ⟨entry, n, front, hactive⟩ := h.active_of_busy hcontrol hbusy
  obtain ⟨hnoEntries, hnoResults⟩ := h.not_busy_of_skipped hbusy
  refine ⟨order ++ [(j, entry, value)] ++ skipped, ?_, ?_, fun i _ => ?_,
    fun _ => ⟨hstate, rfl, rfl⟩, fun x hx => absurd hx List.not_mem_nil, hlocked, hholder⟩
  · have hserial : Serial code s (order ++ [(j, entry, value)]) state
        (trace₁ ++ (front ++ events).map fun e => (j, e)) :=
      h.serial.snoc (hactive.leads.snoc hadvance) (hreturns state)
    have htrace : trace₁ ++ (front ++ events).map (fun e => (j, e)) =
        trace ++ events.map fun e => (j, e) := by
      rw [hactive.trace, List.map_append, List.append_assoc]
    rw [htrace] at hserial
    cases hskipped : skipped with
    | nil => rwa [List.append_nil]
    | cons x rest =>
        rw [← hskipped]
        have hset := (h.skipped x (hskipped ▸ List.mem_cons_self)).2.1
        exact serial_skips hserial (hflag hset) fun x hx => (h.skipped x hx).2.2
  · rintro w ⟨⟩
  · rw [List.append_nil]
    rcases eq_or_ne i j with rfl | hij
    · rw [entriesOf_append, resultsOf_append, hnoEntries, hnoResults, List.append_nil,
        List.append_nil, entriesOf_snoc_self, resultsOf_snoc_self]
      refine .done (by rw [hthreads, Function.update_self]) ?_ ?_ hnext hreturns
      · rw [hactive.calls, List.append_assoc, List.singleton_append]
      · rw [hresults, hactive.results]
    · obtain ⟨hentries, hvalues⟩ := of_snoc_ne order hij entry value
      rw [entriesOf_append, resultsOf_append, hentries, hvalues, ← entriesOf_append,
        ← resultsOf_append]
      have hi : busy ≠ some i := by
        rw [hbusy]
        exact fun heq => hij (Option.some.inj heq).symm
      refine (h.others i hi).frame ?_ (by rw [hresults]) (hstate ▸ hflag)
      rw [hthreads, Function.update_of_ne hij]

theorem OnceState.returns {value : α} (hentries : ∀ i, ∀ l ∈ threads i, part l = .entry)
    (hpart : part l = .done) (hreturns : code p.state l = .returns value)
    (hthreads : p'.threads = Function.update p.threads j calls) (hstate : p'.state = p.state)
    (hresults : p'.results = Function.update p.results j (p.results j ++ [value]))
    (hlocked : p'.locked mutex = p.locked mutex) :
    OnceState code mutex flag part s threads p' trace order base trace₁ busy skipped holder := by
  have hbusy : busy ≠ some j := by
    intro hbusy
    rcases h.busy_part hcontrol hbusy with hl | hl | hl | hl <;> cases hpart.symm.trans hl
  obtain ⟨value', hcalls, hres, hreturns'⟩ :=
    (h.others j hbusy).of_done hcontrol (hentries j) hpart
  obtain rfl : value = value' := Action.returns.inj (hreturns.symm.trans (hreturns' p.state))
  refine ⟨h.serial, h.active_frame hbusy hthreads hstate ?_, fun i hi => ?_, hstate ▸ h.idle,
    hstate ▸ h.skipped, hlocked ▸ h.locked, ?_⟩
  · intro i hij
    rw [hresults, Function.update_of_ne hij]
  · rcases eq_or_ne i j with rfl | hij
    · refine .between ?_ ?_
      · rw [hthreads, Function.update_self, hcalls]
      · rw [hresults, Function.update_self, hres]
    · refine (h.others i hi).frame ?_ ?_ (hstate ▸ id)
      · rw [hthreads, Function.update_of_ne hij]
      · rw [hresults, Function.update_of_ne hij]
  · intro i l' calls' hi
    rw [hthreads, Function.update_apply] at hi
    split at hi
    · next hij =>
        have hentry : part l' = .entry := by
          refine hentries j l' ?_
          rw [hcalls, hi]
          exact List.mem_append_right _ List.mem_cons_self
        rw [hij, ← h.holder j l calls hcontrol, hentry, hpart]
        rfl
    · exact h.holder i l' calls' hi

end Preservation

section Runs

variable {code : Code μ σ ε κ α} {mutex : μ} {flag : σ → Bool} {part : κ → Part} {s : σ}
  {threads : ι → List κ} {p p' : Process ι μ σ ε κ α} {trace : List (ι × ε)}
  {order : List (ι × κ × α)} {base : σ} {trace₁ : List (ι × ε)} {busy : Option ι}
  {skipped : List (ι × κ × α)} {holder : Option ι} {j : ι} {l next : κ} {calls : List κ}
  {q : Process ι μ σ ε κ α × List (ι × ε)}

def OnceFrom (code : Code μ σ ε κ α) (mutex : μ) (flag : σ → Bool) (part : κ → Part) (s : σ)
    (threads : ι → List κ) (p : Process ι μ σ ε κ α) (trace : List (ι × ε)) : Prop :=
  ∃ order base trace₁ busy skipped holder,
    OnceState code mutex flag part s threads p trace order base trace₁ busy skipped holder

theorem OnceState.ends (ending : Ending Empty)
    (h : OnceState code mutex flag part s threads p trace order base trace₁ busy skipped holder) :
    OnceFrom code mutex flag part s threads { p with ending := ending } (trace ++ []) := by
  rw [List.append_nil]
  refine ⟨order, base, trace₁, busy, skipped, holder, h.serial, fun w hw => ?_, fun i hi => ?_,
    h.idle, h.skipped, h.locked, h.holder⟩
  · obtain ⟨entry, n, events, l, calls, hactive⟩ := h.active w hw
    exact ⟨entry, n, events, l, calls, hactive.frame rfl rfl rfl⟩
  · exact (h.others i hi).frame rfl rfl id

theorem once_start (hentries : ∀ i, ∀ l ∈ threads i, part l = .entry) :
    OnceState code mutex flag part s threads (Process.start s threads) [] [] s [] none [] none := by
  refine ⟨.nil, ?_, fun i _ => .between rfl rfl, fun _ => ⟨rfl, rfl, rfl⟩,
    fun x hx => absurd hx List.not_mem_nil, rfl, ?_⟩
  · rintro w ⟨⟩
  · intro i l calls hi
    have hmem : l ∈ threads i := by
      rw [show threads i = l :: calls from hi]
      exact List.mem_cons_self
    exact iff_of_false (by rw [hentries i l hmem]; decide) (by simp)

/-- When no thread has anything left to do, the calls stand one behind the other. -/
theorem once_done (h : OnceFrom code mutex flag part s threads p trace)
    (hdone : ∀ i, p.threads i = []) : ∃ order, Serial code s order p.state trace ∧
      ∀ i, entriesOf order i = threads i ∧ resultsOf order i = p.results i := by
  obtain ⟨order, base, trace₁, busy, skipped, holder, h⟩ := h
  have hidle : busy = none := by
    cases hw : busy with
    | none => rfl
    | some w =>
        obtain ⟨entry, n, events, l, calls, hactive⟩ := h.active w hw
        cases (hdone w).symm.trans hactive.threads
  obtain ⟨rfl, rfl, rfl⟩ := h.idle hidle
  refine ⟨order, h.serial, fun i => ?_⟩
  have hother := h.others i (by rw [hidle]; simp)
  rw [List.append_nil] at hother
  cases hother with
  | between hcalls hresults =>
      rw [hdone i, List.append_nil] at hcalls
      exact ⟨hcalls.symm, hresults.symm⟩
  | testing hthreads hcalls hresults hpart hlock => cases (hdone i).symm.trans hthreads
  | skipping hthreads hcalls hresults hpart hset hleads => cases (hdone i).symm.trans hthreads
  | done hthreads hcalls hresults hpart hreturns => cases (hdone i).symm.trans hthreads

variable [DecidableEq μ]

/-- Steps of the busy thread under the mutex, in front of the flag. -/
theorem once_step_working (honce : Once code mutex flag part)
    (h : OnceState code mutex flag part s threads p trace order base trace₁ (some j) skipped holder)
    (hcontrol : p.threads j = l :: calls) (hheld : (part l).holds = true)
    (hunset : flag p.state = false) (hworking : Working part mutex flag (code p.state l))
    (hsteps : Steps code p j l calls q) :
    OnceFrom code mutex flag part s threads q.1 (trace ++ q.2) := by
  have hgoes {state : σ} {events : List ε} {next : κ}
      (hnext : part next = if flag state then .raised else .working)
      (hadvance : advance code p.state l = (state, events, next)) (p' : Process ι μ σ ε κ α)
      (hthreads : p'.threads = Function.update p.threads j (next :: calls))
      (hstate : p'.state = state) (hresults : p'.results = p.results)
      (hlocked : p'.locked mutex = p.locked mutex) :
      OnceFrom code mutex flag part s threads p' (trace ++ events.map fun e => (j, e)) := by
    cases hflag : flag state with
    | true =>
        rw [hflag, if_pos rfl] at hnext
        have hholder := h.holder_update hcontrol (by rw [hheld, hnext]; rfl) hthreads
        refine ⟨_, _, _, _, _, _, h.goes_on hcontrol p' holder rfl hadvance ?_ (fun _ => hflag)
          (.inr (.inr (.inl hnext))) (fun _ => hflag) hthreads hstate hresults
          (hlocked.trans h.locked) hholder⟩
        rintro (hl | hl) <;> cases hnext.symm.trans hl
    | false =>
        rw [hflag, if_neg Bool.false_ne_true] at hnext
        have hholder := h.holder_update hcontrol (by rw [hheld, hnext]; rfl) hthreads
        refine ⟨_, _, _, _, _, _, h.goes_on hcontrol p' holder rfl hadvance (fun _ => hflag) ?_
          (.inr (.inl hnext)) ?_ hthreads hstate hresults (hlocked.trans h.locked) hholder⟩
        · rintro (hl | hl) <;> cases hnext.symm.trans hl
        · intro hset
          cases hunset.symm.trans hset
  have hworks {next : κ} (hnext : part next = .working) :
      part next = if flag p.state then .raised else .working := by
    rw [hunset, if_neg Bool.false_ne_true, hnext]
  cases hsteps with
  | @lock m next hcode hlockable =>
      rw [hcode] at hworking
      exact hgoes (hworks hworking.2) (advance_of_lock hcode) _ rfl rfl rfl
        (Function.update_of_ne hworking.1.symm _ _)
  | @unlock m next hcode =>
      rw [hcode] at hworking
      rcases hworking with ⟨rfl, hnext⟩ | ⟨hne, hnext⟩
      · obtain ⟨value, hreturns⟩ := honce.done next hnext
        obtain ⟨order', h'⟩ := h.completes hcontrol { p.goTo j (next :: calls) with
          locked := Function.update p.locked m false } none rfl (advance_of_unlock hcode) hnext
          hreturns id rfl rfl rfl (Function.update_self _ _ _)
          (h.holder_released hcontrol hheld (by rw [hnext]; rfl) rfl)
        exact ⟨_, _, _, _, _, _, h'⟩
      · exact hgoes (hworks hnext) (advance_of_unlock hcode) _ rfl rfl rfl
          (Function.update_of_ne hne.symm _ _)
  | goes hcode =>
      rw [hcode] at hworking
      exact hgoes (hworks hworking) (advance_of_goes hcode) _ rfl rfl rfl rfl
  | acts hcode =>
      rw [hcode] at hworking
      exact hgoes hworking (advance_of_acts hcode) _ rfl rfl rfl rfl
  | returns hcode =>
      rw [hcode] at hworking
      cases hworking
  | exits hcode => exact h.ends _
  | undefined hcode => exact h.ends _

/-- Steps of the busy thread behind the mutex. -/
theorem once_step_finishing (honce : Once code mutex flag part)
    (h : OnceState code mutex flag part s threads p trace order base trace₁ (some j) skipped holder)
    (hcontrol : p.threads j = l :: calls) (hpart : part l = .finishing)
    (hset : flag p.state = true) (hsteps : Steps code p j l calls q) :
    OnceFrom code mutex flag part s threads q.1 (trace ++ q.2) := by
  have hfinishing := honce.finishing p.state l hpart hset
  have hgoes {state : σ} {events : List ε} {next : κ}
      (hnext : part next = .finishing ∨ part next = .done) (hflag : flag state = true)
      (hadvance : advance code p.state l = (state, events, next)) (p' : Process ι μ σ ε κ α)
      (hthreads : p'.threads = Function.update p.threads j (next :: calls))
      (hstate : p'.state = state) (hresults : p'.results = p.results)
      (hlocked : p'.locked mutex = p.locked mutex) :
      OnceFrom code mutex flag part s threads p' (trace ++ events.map fun e => (j, e)) := by
    have hholds : (part next).holds = (part l).holds := by
      rcases hnext with hl | hl
      · rw [hl, hpart]
      · rw [hl, hpart]; rfl
    have hholder := h.holder_update hcontrol hholds hthreads
    rcases hnext with hnext | hnext
    · refine ⟨_, _, _, _, _, _, h.goes_on hcontrol p' holder rfl hadvance ?_ (fun _ => hflag)
        (.inr (.inr (.inr hnext))) (fun _ => hflag) hthreads hstate hresults
        (hlocked.trans h.locked) hholder⟩
      rintro (hl | hl) <;> cases hnext.symm.trans hl
    · obtain ⟨value, hreturns⟩ := honce.done next hnext
      obtain ⟨order', h'⟩ := h.completes hcontrol p' holder rfl hadvance hnext hreturns
        (fun _ => hflag) hthreads hstate hresults (hlocked.trans h.locked) hholder
      exact ⟨_, _, _, _, _, _, h'⟩
  cases hsteps with
  | @lock m next hcode hlockable =>
      rw [hcode] at hfinishing
      exact hgoes hfinishing.2 hset (advance_of_lock hcode) _ rfl rfl rfl
        (Function.update_of_ne hfinishing.1.symm _ _)
  | @unlock m next hcode =>
      rw [hcode] at hfinishing
      exact hgoes hfinishing.2 hset (advance_of_unlock hcode) _ rfl rfl rfl
        (Function.update_of_ne hfinishing.1.symm _ _)
  | goes hcode =>
      rw [hcode] at hfinishing
      exact hgoes hfinishing hset (advance_of_goes hcode) _ rfl rfl rfl rfl
  | acts hcode =>
      rw [hcode] at hfinishing
      exact hgoes hfinishing.2 hfinishing.1 (advance_of_acts hcode) _ rfl rfl rfl rfl
  | returns hcode =>
      rw [hcode] at hfinishing
      cases hfinishing
  | exits hcode => exact h.ends _
  | undefined hcode => exact h.ends _

theorem once_step_raised (honce : Once code mutex flag part)
    (h : OnceState code mutex flag part s threads p trace order base trace₁ (some j) skipped holder)
    (hcontrol : p.threads j = l :: calls) (hpart : part l = .raised) (hset : flag p.state = true)
    (hsteps : Steps code p j l calls q) :
    OnceFrom code mutex flag part s threads q.1 (trace ++ q.2) := by
  obtain ⟨next, hnext, hunlock⟩ := honce.raised l hpart
  obtain rfl := hsteps.of_unlock (hunlock p.state)
  refine ⟨order, base, trace₁, some j, skipped, none, h.goes_on hcontrol
    { p.goTo j (next :: calls) with locked := Function.update p.locked mutex false } none rfl
    (advance_of_unlock (hunlock p.state)) ?_ (fun _ => hset) (.inr (.inr (.inr hnext))) id rfl rfl rfl
    (Function.update_self _ _ _)
    (h.holder_released hcontrol (by rw [hpart]; rfl) (by rw [hnext]; rfl) rfl)⟩
  rintro (hl | hl) <;> cases hnext.symm.trans hl

/-- Steps of a thread whose call has no work to do, or may have some. -/
theorem once_step_other (honce : Once code mutex flag part)
    (hentries : ∀ i, ∀ l ∈ threads i, part l = .entry)
    (h : OnceState code mutex flag part s threads p trace order base trace₁ busy skipped holder)
    (hcontrol : p.threads j = l :: calls) (hbusy : busy ≠ some j)
    (hsteps : Steps code p j l calls q) :
    OnceFrom code mutex flag part s threads q.1 (trace ++ q.2) := by
  rcases (h.others j hbusy).part_cases hcontrol (hentries j) with hpart | hpart | hpart | hpart
  · obtain ⟨next, hnext, hlock⟩ := honce.entry l hpart
    obtain ⟨hfree, rfl⟩ := hsteps.of_lock (hlock p.state)
    rw [List.append_nil]
    exact ⟨_, _, _, _, _, _, h.enters hcontrol hpart hnext hlock hfree rfl rfl rfl
      (Function.update_self _ _ _)⟩
  · cases hflag : flag p.state with
    | true =>
        obtain ⟨next, hnext, hgoes⟩ := honce.found l hpart
        obtain rfl := hsteps.of_goes (hgoes p.state hflag)
        rw [List.append_nil]
        exact ⟨_, _, _, _, _, _, h.finds hcontrol hentries hpart hnext hbusy hflag hgoes rfl rfl rfl
          rfl⟩
    | false =>
        have hbegins := h.begins hcontrol hentries hpart hbusy hflag
        exact once_step_working honce hbegins hcontrol (by rw [hpart]; rfl) hflag
          (honce.testing p.state l hpart hflag) hsteps
  · obtain ⟨next, hnext, hunlock⟩ := honce.skipping l hpart
    obtain ⟨value, hreturns⟩ := honce.done next hnext
    obtain rfl := hsteps.of_unlock (hunlock p.state)
    obtain ⟨order', skipped', h'⟩ := h.skips hcontrol { p.goTo j (next :: calls) with
      locked := Function.update p.locked mutex false } hentries hpart hnext hunlock hreturns rfl rfl
      rfl (Function.update_self _ _ _)
    rw [List.append_nil]
    exact ⟨_, _, _, _, _, _, h'⟩
  · obtain ⟨value, hreturns⟩ := honce.done l hpart
    obtain rfl := hsteps.of_returns (hreturns p.state)
    rw [List.append_nil]
    exact ⟨_, _, _, _, _, _, h.returns hcontrol hentries hpart (hreturns p.state) rfl rfl rfl rfl⟩

theorem once_step (honce : Once code mutex flag part)
    (hentries : ∀ i, ∀ l ∈ threads i, part l = .entry)
    (h : OnceFrom code mutex flag part s threads p trace) (hstep : step code p j = some q) :
    OnceFrom code mutex flag part s threads q.1 (trace ++ q.2) := by
  obtain ⟨order, base, trace₁, busy, skipped, holder, h⟩ := h
  obtain ⟨-, l, calls, hcontrol, hsteps⟩ := step_cases hstep
  by_cases hbusy : busy = some j
  · subst hbusy
    obtain ⟨entry, n, events, hactive⟩ := h.active_of_busy hcontrol rfl
    rcases hactive.inside with hpart | hpart | hpart | hpart
    · have hunset := hactive.unset (.inl hpart)
      exact once_step_working honce h hcontrol (by rw [hpart]; rfl) hunset
        (honce.testing p.state l hpart hunset) hsteps
    · have hunset := hactive.unset (.inr hpart)
      exact once_step_working honce h hcontrol (by rw [hpart]; rfl) hunset
        (honce.working p.state l hpart hunset) hsteps
    · exact once_step_raised honce h hcontrol hpart (hactive.set (.inl hpart)) hsteps
    · exact once_step_finishing honce h hcontrol hpart (hactive.set (.inr hpart)) hsteps
  · exact once_step_other honce hentries h hcontrol hbusy hsteps

/-- Any schedule comes to calls one behind the other, a part of the call that sets the
flag or may still set it, and calls that have found the flag meanwhile. -/
theorem once_run (honce : Once code mutex flag part)
    (hentries : ∀ i, ∀ l ∈ threads i, part l = .entry) {schedule : List ι}
    (hrun : run (step code) (Process.start s threads) schedule = some q) :
    OnceFrom code mutex flag part s threads q.1 q.2 := by
  refine run_events_induction (P := OnceFrom code mutex flag part s threads) ?_ ?_ hrun
  · exact ⟨_, _, _, _, _, _, once_start hentries⟩
  · intro p trace j q h hstep
    exact once_step honce hentries h hstep

end Runs

end DaapLog.OnceInitialisation
