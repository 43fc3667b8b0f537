import DaapLog.ConcurrentWrites
import DaapLog.JobMarkers
import DaapLog.OnceInitialisation

/-!
Calls of `daapInit` by any number of threads. `init_mutex` lets one of them set the
library up, and only the flag, not the message behind it, is under the mutex.
-/

namespace DaapLog.ConcurrentInit

open DaapLog.BuildInflux (DAAP_SUCCESS)
open DaapLog.ConcurrentWrites
open DaapLog.CriticalSections
open DaapLog.JobMarkers (isStart)
open DaapLog.LibraryCalls
open DaapLog.LibraryThreads
open DaapLog.OnceInitialisation
open DaapLog.Runs
open DaapLog.SoloCalls
open DaapLog.Threads
open DaapLog.TlsTransport (daapInitializeSSL)
open DaapLog.TracedCalls

def Message.part (m : Message) : Part :=
  match m.origin with
  | .jobStart => .finishing
  | _ => .elsewhere

/-- The part of `daapInit` that a point belongs to. -/
def part : Point → Part
  | .call (.daapInit _) => .entry
  | .testCalled _ => .testing
  | .nameHost _ => .working
  | .nameCluster _ => .working
  | .setUp _ => .working
  | .reportSetUp _ => .working
  | .reported _ => .working
  | .setCalled _ => .working
  | .unlockInit _ => .raised
  | .leaveInit ret_val => if ret_val = DAAP_SUCCESS then .skipping else .working
  | .rankZero _ => .finishing
  | .mpiRank _ => .finishing
  | .jobStart _ => .finishing
  | .log m => Message.part m
  | .warn m => Message.part m
  | .build m => Message.part m
  | .transmit m _ _ => Message.part m
  | .socket m _ _ => Message.part m
  | .connect m _ => Message.part m
  | .SSL_new m _ => Message.part m
  | .SSL_connect m _ => Message.part m
  | .SSL_write m _ _ => Message.part m
  | .exit m => Message.part m
  | .close m => Message.part m
  | .unlockWrite m => Message.part m
  | .SSL_CTX_free (.connect m) => Message.part m
  | .SSL_free (.connect m) => Message.part m
  | .done _ => .done
  | _ => .elsewhere

section Parts

variable {l : Library} {m : Message}

theorem part_afterLog (h : Message.part m = .finishing) (ret_val : Int) :
    part (afterLog ret_val m.origin) = .done := by
  rw [Message.part] at h
  split at h
  · next horigin =>
      rw [horigin]
      rfl
  · cases h

theorem part_afterWrite (h : Message.part m = .finishing) (buf_size : Nat)
    (loop : TcpLogWrite.WriteLoop) : part (.afterWrite m buf_size loop) = .finishing := by
  rw [Point.afterWrite]
  split
  · exact h
  · exact h
  · exact h

theorem code_ne_zero (error : HostnameError) : error.code ≠ DAAP_SUCCESS := by
  cases error with
  | DAAP_ERROR => decide
  | DAAP_ERROR_OUT_OF_MEMORY => decide
  | DAAP_ERROR_IN_ERRNO => decide

/-- The points under `init_mutex` in front of the flag. -/
inductive Unset : Point → Prop
  | nameHost (args : InitArgs) : Unset (.nameHost args)
  | nameCluster (args : InitArgs) : Unset (.nameCluster args)
  | setUp (args : InitArgs) : Unset (.setUp args)
  | reportSetUp (args : InitArgs) : Unset (.reportSetUp args)
  | reported (args : InitArgs) : Unset (.reported args)
  | setCalled (args : InitArgs) : Unset (.setCalled args)
  | leaveInit {ret_val : Int} (h : ret_val ≠ DAAP_SUCCESS) : Unset (.leaveInit ret_val)

theorem working_code {point : Point} (h : Unset point) (hunset : l.daapInit_called = false) :
    Working part .init_mutex Library.daapInit_called (code l point) := by
  have hworks (state : Library) (next : Point) (hstate : state.daapInit_called = false)
      (hnext : part next = .working) :
      part next = if state.daapInit_called then .raised else .working := by
    rw [hstate, hnext]
    rfl
  cases h with
  | nameHost args =>
      rw [code]
      split
      · next error herror => exact if_neg (code_ne_zero error)
      · exact hworks _ _ hunset rfl
  | nameCluster args => exact hworks _ _ hunset rfl
  | setUp args =>
      rw [code]
      split
      · split
        · refine hworks _ _ hunset ?_
          split
          · rfl
          · rfl
        · trivial
      · rfl
  | reportSetUp args => exact ⟨by decide, rfl⟩
  | reported args => exact .inr ⟨by decide, rfl⟩
  | setCalled args => rfl
  | leaveInit hne => exact .inl ⟨rfl, rfl⟩

theorem finishing_code {point : Point} (h : part point = .finishing)
    (hset : l.daapInit_called = true) :
    Finishing part .init_mutex Library.daapInit_called (code l point) := by
  cases point with
  | log m =>
      rw [code, if_neg (by simp [hset])]
      split
      · exact ⟨by decide, .inl h⟩
      · exact .inl h
  | warn m => exact ⟨by decide, .inl h⟩
  | build m =>
      rw [code]
      split
      · trivial
      · exact .inl h
  | transmit m line influx_str =>
      rw [code]
      split
      · exact ⟨hset, .inr (part_afterLog h _)⟩
      · exact ⟨hset, .inr (part_afterLog h _)⟩
      · exact ⟨by decide, .inl h⟩
  | socket m line buf_size =>
      rw [code]
      split
      · exact ⟨hset, .inl h⟩
      · exact ⟨hset, .inl h⟩
  | connect m buf_size =>
      rw [code]
      split
      · exact .inl h
      · exact .inl h
  | SSL_new m buf_size =>
      rw [code]
      split
      · trivial
      · exact ⟨hset, .inl h⟩
  | SSL_connect m buf_size =>
      rw [code]
      split
      · exact .inl h
      · exact ⟨hset, .inl h⟩
  | SSL_write m buf_size loop =>
      rw [code]
      split
      · exact .inl h
      · exact ⟨hset, .inl (part_afterWrite h _ _)⟩
  | exit m => trivial
  | close m => exact ⟨hset, .inl h⟩
  | unlockWrite m => exact ⟨by decide, .inr (part_afterLog h _)⟩
  | SSL_CTX_free at_ =>
      cases at_ with
      | connect m =>
          rw [code]
          split
          · trivial
          · exact ⟨hset, .inl h⟩
          · exact ⟨hset, .inl h⟩
      | finalize ret_val => cases h
  | SSL_free at_ =>
      cases at_ with
      | connect m =>
          rw [code]
          split
          · trivial
          · exact .inl h
          · exact ⟨hset, .inl h⟩
      | finalize ret_val => cases h
  | rankZero args => exact ⟨hset, .inl rfl⟩
  | mpiRank args => exact ⟨hset, .inl rfl⟩
  | jobStart args =>
      rw [code]
      split
      · exact .inl rfl
      · exact .inr rfl
  | call c => cases c <;> cases h
  | leaveInit ret_val =>
      rw [part] at h
      split at h <;> cases h
  | _ => cases h

/-- The points of each part. -/
inductive Place : Part → Point → Prop
  | entry (args : InitArgs) : Place .entry (.call (.daapInit args))
  | testing (args : InitArgs) : Place .testing (.testCalled args)
  | skipping : Place .skipping (.leaveInit DAAP_SUCCESS)
  | working {point : Point} (h : Unset point) : Place .working point
  | raised (args : InitArgs) : Place .raised (.unlockInit args)
  | finishing (point : Point) : Place .finishing point
  | done (ret_val : Option Int) : Place .done (.done ret_val)
  | elsewhere (point : Point) : Place .elsewhere point

theorem place_message (m : Message) (point : Point) : Place (Message.part m) point := by
  rw [Message.part]
  split
  · exact .finishing point
  · exact .elsewhere point

theorem place (point : Point) : Place (part point) point := by
  cases point with
  | call c =>
      cases c with
      | daapInit args => exact .entry args
      | _ => exact .elsewhere _
  | testCalled args => exact .testing args
  | nameHost args => exact .working (.nameHost args)
  | nameCluster args => exact .working (.nameCluster args)
  | setUp args => exact .working (.setUp args)
  | reportSetUp args => exact .working (.reportSetUp args)
  | reported args => exact .working (.reported args)
  | setCalled args => exact .working (.setCalled args)
  | unlockInit args => exact .raised args
  | leaveInit ret_val =>
      rw [part]
      split
      · next h =>
          rw [h]
          exact .skipping
      · next h => exact .working (.leaveInit h)
  | rankZero args => exact .finishing _
  | mpiRank args => exact .finishing _
  | jobStart args => exact .finishing _
  | SSL_CTX_free at_ =>
      cases at_ with
      | connect m => exact place_message m _
      | finalize ret_val => exact .elsewhere _
  | SSL_free at_ =>
      cases at_ with
      | connect m => exact place_message m _
      | finalize ret_val => exact .elsewhere _
  | jobEnd env io => exact .elsewhere _
  | free fields ret_val => exact .elsewhere _
  | unlockFinalize ret_val => exact .elsewhere _
  | done ret_val => exact .done ret_val
  | _ => exact place_message _ _

theorem place_of_part {point : Point} {q : Part} (h : part point = q) : Place q point :=
  h ▸ place point

theorem once_code : Once code .init_mutex Library.daapInit_called part where
  entry point h := by
    cases place_of_part h with
    | entry args => exact ⟨.testCalled args, rfl, fun s => rfl⟩
  found point h := by
    cases place_of_part h with
    | testing args =>
        refine ⟨.leaveInit DAAP_SUCCESS, rfl, fun s hset => ?_⟩
        rw [code, if_pos hset]
  testing s point h hunset := by
    cases place_of_part h with
    | testing args =>
        have hstart : (s.startInit args).daapInit_called = false := hunset
        rw [code, if_neg (by simp [hunset])]
        rw [Working, hstart]
        rfl
  skipping point h := by
    cases place_of_part h with
    | skipping => exact ⟨.done (some DAAP_SUCCESS), rfl, fun s => rfl⟩
  working s point h hunset := by
    cases place_of_part h with
    | working h => exact working_code h hunset
  raised point h := by
    cases place_of_part h with
    | raised args => exact ⟨.rankZero args, rfl, fun s => rfl⟩
  finishing s point h hset := finishing_code h hset
  done point h := by
    cases place_of_part h with
    | done ret_val => exact ⟨ret_val, fun s => rfl⟩

end Parts

section Calls

variable {l : Library} {args : InitArgs}

theorem finishInit_sets (l : Library) (args : InitArgs) :
    (l.finishInit args).1.daapInit_called = true ∧
      (l.finishInit args).2.1.countP isStart ≤ 1 := by
  have hcalled : ({ l with daapInit_called := true }.readRank args.env).daapInit_called = true := by
    obtain ⟨zero, rank, hrank⟩ := readRank_frame { l with daapInit_called := true } args.env
    rw [hrank]
  rw [Library.finishInit]
  generalize { l with daapInit_called := true }.readRank args.env = l' at hcalled
  split
  · refine ⟨?_, ?_⟩
    · obtain ⟨tls, htls⟩ := daapLogWrite_frame l' .jobStart jobstartText args.io
      rw [htls, hcalled]
    · rw [Library.daapLogWrite, if_neg (by simp [hcalled])]
      cases l'.init_data with
      | none => exact Nat.zero_le 1
      | some init_data =>
          dsimp only
          rw [List.countP_cons, (JobMarkers.unmarked_transmit l' _ _).1]
          exact le_of_eq rfl
  · exact ⟨hcalled, Nat.zero_le 1⟩

/-- A call that finds the library not set up fails for want of a host name or sets it up. -/
theorem daapInit_unset (hunset : l.daapInit_called = false) {l' : Library} {events : List Event}
    {ret : Int} (h : l.daapInit args = (l', events, .returns ret)) :
    (∃ error, args.hostname = .error error ∧ l' = l.startInit args ∧ events = [] ∧
      ret = error.code) ∨ l'.daapInit_called = true ∧ events.countP isStart ≤ 1 := by
  cases hname : args.hostname with
  | error error =>
      rw [daapInit_of_error hunset hname] at h
      simp only [Prod.mk.injEq, Ending.returns.injEq] at h
      exact .inl ⟨error, rfl, h.1.symm, h.2.1.symm, h.2.2.symm⟩
  | ok name =>
      rw [daapInit_of_ok hunset hname] at h
      right
      rcases initTransport_cases (l.populate args name) args with ⟨-, hfinish⟩ |
        ⟨value, -, hfinish⟩ | hstuck
      · have hsets := finishInit_sets (l.populate args name) args
        rwa [← hfinish, h] at hsets
      · rw [h] at hfinish
        have hsets := finishInit_sets { l.populate args name with
          tls := (daapInitializeSSL args.setup (l.populate args name).tls).1 } args
        rwa [← hfinish] at hsets
      · cases h.symm.trans hstuck

end Calls

section Orders

variable {ι : Type*} {l : Library}

/-- A call without a host name: only its error code comes back. -/
def Fails (x : ι × Call × Option Int) : Prop :=
  ∃ args error, x.2.1 = .daapInit args ∧ args.hostname = .error error ∧ x.2.2 = some error.code

/-- One call has set the library up; those in front of it have failed. -/
structure SetUpBy (l : Library) (failed : List (ι × Call × Option Int))
    (setter : ι × Call × Option Int) (l' : Library) (trace : List (ι × Event)) : Prop where
  fails : ∀ x ∈ failed, Fails x
  sets : ∃ l₁ rounds events, Performed l failed l₁ [] ∧
    (Call.within rounds setter.2.1).perform l₁ = (l', events, .returns setter.2.2) ∧
    trace = events.map fun e => (setter.1, e)
  called : l'.daapInit_called = true
  started : trace.countP (fun x => isStart x.2) ≤ 1

/-- What calls of `daapInit` one behind the other come to. -/
inductive InitOrder (l : Library) :
    List (ι × Call × Option Int) → Library → List (ι × Event) → Prop
  | failed {order : List (ι × Call × Option Int)} {l' : Library} (hfailed : ∀ x ∈ order, Fails x)
      (hunset : l'.daapInit_called = false) : InitOrder l order l' []
  | setUp {failed skipped : List (ι × Call × Option Int)} {setter : ι × Call × Option Int}
      {l' : Library} {trace : List (ι × Event)} (hsets : SetUpBy l failed setter l' trace)
      (hskipped : ∀ x ∈ skipped, x.2.2 = some DAAP_SUCCESS) :
      InitOrder l (failed ++ setter :: skipped) l' trace

theorem countP_isStart_map (i : ι) (events : List Event) :
    (events.map fun e => (i, e)).countP (fun x => isStart x.2) = events.countP isStart := by
  rw [List.countP_map]
  rfl

theorem initOrder_of_performed (hunset : l.daapInit_called = false)
    {order : List (ι × Call × Option Int)} {l' : Library} {trace : List (ι × Event)}
    (h : Performed l order l' trace) (hinits : ∀ x ∈ order, ∃ args, x.2.1 = .daapInit args) :
    InitOrder l order l' trace := by
  induction h with
  | nil => exact .failed (fun x hx => absurd hx List.not_mem_nil) hunset
  | @snoc order l₁ l₂ trace i c rounds events ret hfront hperform ih =>
      obtain ⟨hbefore, hlast⟩ := List.forall_mem_append.mp hinits
      obtain ⟨args, hargs⟩ := hlast _ (List.mem_singleton_self _)
      obtain rfl : c = .daapInit args := hargs
      have hinit : ∃ ret', l₁.daapInit (InitArgs.within args rounds) = (l₂, events, .returns ret') ∧
          ret = some ret' := by
        have hwhole : (let r := l₁.daapInit (InitArgs.within args rounds)
            (r.1, r.2.1, r.2.2.map some)) = (l₂, events, .returns ret) := hperform
        simp only [Prod.mk.injEq] at hwhole
        obtain ⟨hstate, hevents, hending⟩ := hwhole
        obtain ⟨ret', hret', hret⟩ := Ending.map_eq_returns_iff.mp hending
        exact ⟨ret', Prod.ext hstate (Prod.ext hevents hret'), hret.symm⟩
      obtain ⟨ret', hinit, rfl⟩ := hinit
      cases ih hbefore with
      | failed hfailed hunset =>
          rcases daapInit_unset hunset hinit with ⟨error, hname, rfl, rfl, rfl⟩ | ⟨hcalled, hstart⟩
          · refine .failed (fun x hx => ?_) hunset
            rcases List.mem_append.mp hx with hx | hx
            · exact hfailed x hx
            · rw [List.mem_singleton.mp hx]
              exact ⟨args, error, rfl, hname, rfl⟩
          · have hnone : ∀ x ∈ ([] : List (ι × Call × Option Int)), x.2.2 = some DAAP_SUCCESS :=
              fun x hx => absurd hx List.not_mem_nil
            refine .setUp ⟨hfailed, ⟨l₁, rounds, events, hfront, hperform, rfl⟩, hcalled, ?_⟩ hnone
            rw [List.nil_append, countP_isStart_map]
            exact hstart
      | @setUp failed skipped setter _ _ hsets hskipped =>
          rw [daapInit_of_called hsets.called] at hinit
          simp only [Prod.mk.injEq, Ending.returns.injEq] at hinit
          obtain ⟨rfl, rfl, rfl⟩ := hinit
          rw [List.map_nil, List.append_nil, List.append_assoc, List.cons_append]
          refine .setUp hsets fun x hx => ?_
          rcases List.mem_append.mp hx with hx | hx
          · exact hskipped x hx
          · rw [List.mem_singleton.mp hx]

variable [DecidableEq ι]

theorem performed_inits {inits : ι → List InitArgs} {schedule : List ι}
    {r : Process ι Mutex Library Event Point (Option Int) × List (ι × Event)}
    (hrun : run (step code) (Process.start l fun i => (inits i).map fun args =>
      .call (.daapInit args)) schedule = some r) (hdone : ∀ i, r.1.threads i = []) :
    ∃ order, (∀ i, entriesOf order i = (inits i).map .daapInit ∧
        resultsOf order i = r.1.results i) ∧ Performed l order r.1.state r.2 := by
  have hentries (i : ι) : ∀ point ∈ (inits i).map fun args => Point.call (.daapInit args),
      part point = .entry := by
    intro point hpoint
    obtain ⟨args, -, rfl⟩ := List.mem_map.mp hpoint
    rfl
  obtain ⟨order, hserial, horder⟩ := once_done (once_run once_code hentries hrun) hdone
  have hcalls : ∀ x ∈ order, ∃ c, x.2.1 = .call c := by
    intro x hx
    have hmem : x.2.1 ∈ entriesOf order x.1 :=
      List.mem_map_of_mem (List.mem_filter.mpr ⟨hx, decide_eq_true rfl⟩)
    rw [(horder x.1).1] at hmem
    obtain ⟨args, -, hargs⟩ := List.mem_map.mp hmem
    exact ⟨.daapInit args, hargs.symm⟩
  refine ⟨order.filterMap asCall, fun i => ?_, performed_of_serial hserial hcalls⟩
  obtain ⟨hentriesOf, hresultsOf⟩ := entriesOf_filterMap hcalls i
  refine ⟨?_, hresultsOf.symm.trans (horder i).2⟩
  have hall := hentriesOf.symm.trans (horder i).1
  rw [show (inits i).map (fun args => Point.call (.daapInit args)) =
    ((inits i).map .daapInit).map .call by rw [List.map_map]; rfl] at hall
  exact map_call_injective hall

theorem inits_of_entries {inits : ι → List InitArgs} {order : List (ι × Call × Option Int)}
    (h : ∀ i, entriesOf order i = (inits i).map .daapInit) :
    ∀ x ∈ order, ∃ args ∈ inits x.1, x.2.1 = .daapInit args := by
  intro x hx
  have hmem : x.2.1 ∈ entriesOf order x.1 :=
    List.mem_map_of_mem (List.mem_filter.mpr ⟨hx, decide_eq_true rfl⟩)
  rw [h] at hmem
  obtain ⟨args, hargs, hcall⟩ := List.mem_map.mp hmem
  exact ⟨args, hargs, hcall.symm⟩

/-- However the steps of calls of `daapInit` are mixed: when all are over, they have come
to whole calls one behind the other. Calls without a host name have returned its error,
the first other one has set the library up and sent all that was sent, the message about
the start of the job at most once, and the calls behind it have returned success. -/
theorem concurrent_init_once (hunset : l.daapInit_called = false) {inits : ι → List InitArgs}
    {schedule : List ι} {r : Process ι Mutex Library Event Point (Option Int) × List (ι × Event)}
    (hrun : run (step code) (Process.start l fun i => (inits i).map fun args =>
      .call (.daapInit args)) schedule = some r) (hdone : ∀ i, r.1.threads i = []) :
    ∃ order, (∀ i, entriesOf order i = (inits i).map .daapInit ∧
        resultsOf order i = r.1.results i) ∧
      Performed l order r.1.state r.2 ∧ InitOrder l order r.1.state r.2 := by
  obtain ⟨order, horder, hperformed⟩ := performed_inits hrun hdone
  have hinits : ∀ x ∈ order, ∃ args, x.2.1 = .daapInit args := by
    intro x hx
    obtain ⟨args, -, hargs⟩ := inits_of_entries (fun i => (horder i).1) x hx
    exact ⟨args, hargs⟩
  exact ⟨order, horder, hperformed, initOrder_of_performed hunset hperformed hinits⟩

/-- Two threads that initialise the library, of which the first one comes first. -/
def initialising : Fin 2 → List InitArgs := fun _ => [syslogInit]

theorem concurrent_init_once_pair :
    ∃ r order, run (step code) (Process.start {} fun i => (initialising i).map fun args =>
        .call (.daapInit args)) ([0, 0, 0, 0, 0, 0, 0] ++ [1, 0, 1, 0, 1, 0, 1] ++ [0, 0, 0, 0]) =
          some r ∧
      Performed {} order r.1.state r.2 ∧ InitOrder {} order r.1.state r.2 ∧ r.2.length = 2 := by
  have hevaluated : (run (step code) (Process.start {} fun i => (initialising i).map fun args =>
      .call (.daapInit args)) ([0, 0, 0, 0, 0, 0, 0] ++ [1, 0, 1, 0, 1, 0, 1] ++ [0, 0, 0, 0])).any
        (fun r => (r.1.threads 0).isEmpty && (r.1.threads 1).isEmpty && r.2.length = 2) = true := by
    decide +kernel
  obtain ⟨r, hrun, hr⟩ := (Option.any_eq_true _ _).mp hevaluated
  simp only [Bool.and_eq_true, decide_eq_true_eq, List.isEmpty_iff] at hr
  obtain ⟨⟨hfirst, hsecond⟩, hlength⟩ := hr
  obtain ⟨order, -, hperformed, horder⟩ :=
    concurrent_init_once rfl hrun (Fin.forall_fin_two.mpr ⟨hfirst, hsecond⟩)
  exact ⟨r, order, hrun, hperformed, horder, hlength⟩

end Orders

/-- Two threads that initialise the library for TLS, send a message each and leave the end to
the first. -/
theorem pair_phases :
    ∃ r r' r'' : Process (Fin 2) Mutex Library Event Point (Option Int) × List (Fin 2 × Event),
      run (step code) (Process.start {} fun _ => [.call (.daapInit tcpInit)])
        (List.replicate 7 0 ++ [1, 0, 1, 0, 1, 0, 1] ++ List.replicate 12 0) = some r ∧
      (∀ i, r.1.threads i = []) ∧ r.1.state.daapInit_called = true ∧
      run (step code) (r.1.enter fun i => (heartbeats i).map .call)
        ([0, 1, 0, 1, 0, 1] ++ List.replicate 10 0 ++ List.replicate 10 1) = some r' ∧
      (∀ i, r'.1.threads i = []) ∧
      run (step code) (r'.1.enter (Function.update (fun _ => []) 0
        [.call (.daapFinalize serialEnv promptIo)])) (List.replicate 21 0) = some r'' ∧
      ∀ i, r''.1.threads i = [] := by
  have hevaluated : (run (step code) (Process.start {} fun _ => [.call (.daapInit tcpInit)])
      (List.replicate 7 (0 : Fin 2) ++ [1, 0, 1, 0, 1, 0, 1] ++ List.replicate 12 0)).any
        (fun r => (r.1.threads 0).isEmpty && (r.1.threads 1).isEmpty &&
          r.1.state.daapInit_called &&
          (run (step code) (r.1.enter fun i => (heartbeats i).map .call)
            ([0, 1, 0, 1, 0, 1] ++ List.replicate 10 0 ++ List.replicate 10 1)).any
              (fun r' => (r'.1.threads 0).isEmpty && (r'.1.threads 1).isEmpty &&
                (run (step code) (r'.1.enter (Function.update (fun _ => []) 0
                  [.call (.daapFinalize serialEnv promptIo)])) (List.replicate 21 0)).any
                    (fun r'' => (r''.1.threads 0).isEmpty && (r''.1.threads 1).isEmpty))) =
        true := by
    decide +kernel
  obtain ⟨r, hinit, hr⟩ := (Option.any_eq_true _ _).mp hevaluated
  obtain ⟨hready, hr⟩ := Bool.and_eq_true_iff.mp hr
  obtain ⟨r', hlog, hr'⟩ := (Option.any_eq_true _ _).mp hr
  obtain ⟨hlogged, hr'⟩ := Bool.and_eq_true_iff.mp hr'
  obtain ⟨r'', hfinal, hdone⟩ := (Option.any_eq_true _ _).mp hr'
  simp only [Bool.and_eq_true, List.isEmpty_iff] at hready hlogged hdone
  exact ⟨r, r', r'', hinit, Fin.forall_fin_two.mpr hready.1, hready.2, hlog,
    Fin.forall_fin_two.mpr hlogged, hfinal, Fin.forall_fin_two.mpr hdone⟩

end DaapLog.ConcurrentInit
