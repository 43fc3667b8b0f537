import DaapLog.ConcurrentInit
import DaapLog.MutexOrder
import DaapLog.ProcessLines

/-!
A process with threads from the first `daapInit` to the `daapFinalize`. The threads wait
for one another behind the initialisation and in front of the end.
-/

namespace DaapLog.ThreadedProcess

open DaapLog.CStrings
open DaapLog.ConcurrentInit
open DaapLog.ConcurrentWrites
open DaapLog.CriticalSections
open DaapLog.JobMarkers (Process)
open DaapLog.LibraryCalls
open DaapLog.LibraryThreads
open DaapLog.MutexOrder
open DaapLog.ProcessLines
open DaapLog.Runs
open DaapLog.SoloCalls
open DaapLog.Threads (step running_of_done enter_of_done)
open DaapLog.TracedCalls

abbrev State (ι : Type*) := Threads.Process ι Mutex Library Event Point (Option Int)

section Phases

variable {ι : Type*} [DecidableEq ι] {l : Library}

/-- Calls that are all over leave nothing behind but the globals. -/
theorem enter_of_run {calls : ι → List Call} {schedule : List ι} {r : State ι × List (ι × Event)}
    (hrun : run (step code) (Threads.Process.start l fun i => (calls i).map .call) schedule = some r)
    (hdone : ∀ i, r.1.threads i = []) (threads : ι → List Point) :
    r.1.enter threads = Threads.Process.start r.1.state threads :=
  enter_of_done (owned_of_run hrun) (running_of_done hrun hdone) hdone threads

/-- A thread alone does what the function of its call says. -/
theorem perform_of_single {i : ι} {c : Call} {schedule : List ι} {r : State ι × List (ι × Event)}
    (hrun : run (step code) (Threads.Process.start l (Function.update (fun _ => []) i [.call c]))
      schedule = some r) (hdone : ∀ j, r.1.threads j = []) :
    ∃ rounds events ret, (Call.within rounds c).perform l = (r.1.state, events, .returns ret) ∧
      r.2 = events.map fun e => (i, e) := by
  cases single_run hrun with
  | within hleads hthreads htrace =>
      have hnil := hdone i
      rw [hthreads, Function.update_self] at hnil
      cases hnil
  | @behind n events point value hleads hcode hthreads htrace =>
      rcases perform_of_leads l hleads (by rw [hcode]; trivial) with ⟨ret, hperform, -⟩ |
        ⟨status, -, hexits⟩ | ⟨-, hundefined⟩
      · exact ⟨n, events, ret, hperform, htrace⟩
      · cases hcode.symm.trans hexits
      · cases hcode.symm.trans hundefined

end Phases

section Lines

variable {ι : Type*} {l l' : Library} {name : Text} {args : InitArgs}

/-- The lines of a trace of threads. -/
def linesOf (trace : List (ι × Event)) : List Text := trace.filterMap fun x => lineOf x.2

theorem linesOf_map (i : ι) (events : List Event) :
    linesOf (events.map fun e => (i, e)) = events.filterMap lineOf := by
  rw [linesOf, List.filterMap_map]
  rfl

theorem logged_within (start_time rounds : Nat) (c : Call) :
    logged start_time (Call.within rounds c) =
      (logged start_time c).map fun entry => ⟨entry.message, LogIo.within entry.io rounds⟩ := by
  cases c <;> rfl

theorem marked_within (init_data : BuildInflux.daap_init_t) (marked : Bool) (text : Text) (io : LogIo)
    (rounds : Nat) :
    (if marked then [(⟨text, LogIo.within io rounds⟩ : Entry)] else []).map (Entry.line init_data) =
      (if marked then [(⟨text, io⟩ : Entry)] else []).map (Entry.line init_data) := by
  cases marked <;> rfl

theorem fresh_of_fails {order : List (ι × Call × Option Int)} {trace : List (ι × Event)}
    (h : Performed l order l' trace) (hfresh : Fresh l) (hfails : ∀ x ∈ order, Fails x) :
    Fresh l' := by
  induction h with
  | nil => exact hfresh
  | @snoc order l₁ l₂ trace i c rounds events ret hfront hperform ih =>
      obtain ⟨hbefore, hlast⟩ := List.forall_mem_append.mp hfails
      obtain ⟨args, error, hcall, hname, -⟩ := hlast _ (List.mem_singleton_self _)
      obtain rfl : c = .daapInit args := hcall
      have hfresh₁ := ih hbefore
      have hinit : l₁.daapInit (InitArgs.within args rounds) =
          (l₁.startInit (InitArgs.within args rounds), [], .returns error.code) :=
        daapInit_of_error hfresh₁.called hname
      have hstate : (l₁.daapInit (InitArgs.within args rounds)).1 = l₂ := congrArg (·.1) hperform
      rw [hinit] at hstate
      exact hstate ▸ hfresh₁.startInit _

/-- The calls of `daapInit` that set the library up have written the lines of one of them. -/
theorem writes_of_initOrder {order : List (ι × Call × Option Int)} {trace : List (ι × Event)}
    {inits : ι → List InitArgs} (h : InitOrder l order l' trace) (hfresh : Fresh l)
    (hcalled : l'.daapInit_called = true)
    (hinits : ∀ x ∈ order, ∃ args ∈ inits x.1, x.2.1 = .daapInit args)
    (hauto : ∀ i, ∀ args ∈ inits i, args.env.automatic = true) :
    ∃ i, ∃ args ∈ inits i, ∃ name, args.hostname = .ok name ∧ Writes name args l' ∧
      linesOf trace = (if marks args then [(⟨jobstartText, args.io⟩ : Entry)] else []).map
        (Entry.line (initData name args)) := by
  cases h with
  | failed hfailed hunset => exact absurd (hcalled.symm.trans hunset) (by decide)
  | @setUp failed skipped setter _ _ hsets hskipped =>
      obtain ⟨l₁, rounds, events, hfront, hperform, rfl⟩ := hsets.sets
      obtain ⟨args, hargs, hcall⟩ := hinits setter (by simp)
      rw [hcall] at hperform
      have hfresh₁ := fresh_of_fails hfront hfresh hsets.fails
      have hstate : (l₁.daapInit (InitArgs.within args rounds)).1 = l' := congrArg (·.1) hperform
      have hevents : (l₁.daapInit (InitArgs.within args rounds)).2.1 = events :=
        congrArg (·.2.1) hperform
      obtain ⟨value, hvalue, -⟩ := Ending.map_eq_returns_iff.mp (congrArg (·.2.2) hperform)
      cases hname : args.hostname with
      | error error =>
          have hinit : l₁.daapInit (InitArgs.within args rounds) =
              (l₁.startInit (InitArgs.within args rounds), [], .returns error.code) :=
            daapInit_of_error hfresh₁.called hname
          rw [hinit] at hstate
          rw [← hstate] at hcalled
          exact absurd (hcalled.symm.trans hfresh₁.called) (by decide)
      | ok name =>
          have hhost : (InitArgs.within args rounds).hostname = .ok name := hname
          have hautomatic : (InitArgs.within args rounds).env.automatic = true :=
            hauto setter.1 args hargs
          obtain ⟨hwrites, hlines⟩ := daapInit_writes hfresh₁ hautomatic hhost hvalue
          rw [hstate] at hwrites
          rw [hevents] at hlines
          refine ⟨setter.1, args, hargs, name, hname, ?_, ?_⟩
          · exact ⟨hwrites.called, hwrites.zero, hwrites.data, hwrites.start⟩
          · rw [linesOf_map, hlines]
            exact marked_within (initData name args) (marks args) jobstartText args.io rounds

/-- What whole calls write of which each logs a message. -/
theorem writes_of_performed {order : List (ι × Call × Option Int)} {trace : List (ι × Event)}
    (h : Performed l order l' trace) (hwrites : Writes name args l)
    (hlogs : ∀ x ∈ order, (logged args.time x.2.1).isSome = true) :
    Writes name args l' ∧ linesOf trace =
      (order.filterMap fun x => logged args.time x.2.1).map (Entry.line (initData name args)) := by
  induction h with
  | nil => exact ⟨hwrites, rfl⟩
  | @snoc order l₁ l₂ trace i c rounds events ret hfront hperform ih =>
      obtain ⟨hbefore, hlast⟩ := List.forall_mem_append.mp hlogs
      obtain ⟨entry, hentry⟩ := Option.isSome_iff_exists.mp (hlast _ (List.mem_singleton_self _))
      obtain ⟨hwrites₁, hlines₁⟩ := ih hbefore
      have hwithin : logged l₁.start_time (Call.within rounds c) =
          some ⟨entry.message, LogIo.within entry.io rounds⟩ := by
        rw [hwrites₁.start, logged_within, hentry]
        rfl
      obtain ⟨hsame, hlines⟩ := lines_perform hwrites₁.called hwrites₁.data
        (.inr (by rw [hwithin]; rfl) : (∃ args, Call.within rounds c = .daapInit args) ∨ _)
      rw [hperform] at hsame hlines
      refine ⟨hwrites₁.of_sameData hsame, ?_⟩
      have hone : ([(i, c, ret)].filterMap fun x => logged args.time x.2.1) = [entry] :=
        List.filterMap_cons_some hentry
      rw [List.filterMap_cons_some hwithin] at hlines
      rw [linesOf, List.filterMap_append, ← linesOf, hlines₁, ← linesOf, linesOf_map, hlines,
        List.filterMap_append, List.map_append, hone]
      rfl

theorem isSome_logged (start_time start_time' : Nat) (c : Call) :
    (logged start_time c).isSome = (logged start_time' c).isSome := by
  cases c <;> rfl

theorem logs_of_logged {start_time : Nat} {c : Call} (h : (logged start_time c).isSome = true) :
    Call.logs c = true := by
  cases c with
  | daapInit args => cases h
  | daapFinalize env io => cases h
  | daapSetRank rank => cases h
  | _ => rfl

end Lines

section Processes

variable {ι : Type*} [DecidableEq ι]

/-- A process with any threads, which first initialise the library, then log and at last
leave the end to one of them: its lines are those of a process with one thread that
does one of the initialisations and all log calls in an order that keeps that of each
thread. -/
theorem threaded_process_lines {inits : ι → List InitArgs} {logs : ι → List Call} {last : ι}
    {env : Environment} {io : LogIo} {schedule schedule' schedule'' : List ι}
    {r r' r'' : State ι × List (ι × Event)}
    (hauto : ∀ i, ∀ args ∈ inits i, args.env.automatic = true) (hend : env.automatic = true)
    (hlogs : ∀ i, ∀ c ∈ logs i, (logged 0 c).isSome = true)
    (hinit : run (step code) (Threads.Process.start {} fun i => (inits i).map fun args =>
      .call (.daapInit args)) schedule = some r)
    (hready : ∀ i, r.1.threads i = []) (hcalled : r.1.state.daapInit_called = true)
    (hlog : run (step code) (r.1.enter fun i => (logs i).map .call) schedule' = some r')
    (hlogged : ∀ i, r'.1.threads i = [])
    (hfinal : run (step code) (r'.1.enter (Function.update (fun _ => []) last
      [.call (.daapFinalize env io)])) schedule'' = some r'')
    (hdone : ∀ i, r''.1.threads i = []) :
    ∃ i, ∃ args ∈ inits i, ∃ (name : Text) (order : List (ι × Call)), args.hostname = .ok name ∧
      (∀ i, (order.filter fun x => x.1 = i).map (·.2) = logs i) ∧
      linesOf (r.2 ++ r'.2 ++ r''.2) = (entries ⟨args, [], order.map (·.2), env, io⟩).map
        (Entry.line (initData name args)) := by
  obtain ⟨order, horder, hperformed⟩ := performed_inits hinit hready
  have hinits := inits_of_entries fun i => (horder i).1
  have hsetUp : InitOrder {} order r.1.state r.2 := by
    refine initOrder_of_performed rfl hperformed fun x hx => ?_
    obtain ⟨args, -, hargs⟩ := hinits x hx
    exact ⟨args, hargs⟩
  obtain ⟨i, args, hargs, name, hname, hwrites, hstart⟩ :=
    writes_of_initOrder hsetUp fresh_start hcalled hinits hauto
  have hthreads : (fun i => (inits i).map fun args => Point.call (.daapInit args)) =
      fun i => ((inits i).map Call.daapInit).map .call := by
    funext i
    rw [List.map_map]
    rfl
  rw [hthreads] at hinit
  rw [enter_of_run hinit hready] at hlog
  obtain ⟨order', hlinear⟩ :=
    linearised_run hwrites.called (fun i c hc => logs_of_logged (hlogs i c hc)) hlog
  have hcalls (i : ι) : entriesOf order' i = logs i := hlinear.finished i (hlogged i)
  have hmessages : ∀ x ∈ order', (logged args.time x.2.1).isSome = true := by
    intro x hx
    have hmem : x.2.1 ∈ entriesOf order' x.1 :=
      List.mem_map_of_mem (List.mem_filter.mpr ⟨hx, decide_eq_true rfl⟩)
    rw [hcalls] at hmem
    rw [isSome_logged args.time 0]
    exact hlogs x.1 x.2.1 hmem
  obtain ⟨hwrites', hmiddle⟩ := writes_of_performed (hlinear.performed hlogged) hwrites hmessages
  rw [enter_of_run hlog hlogged] at hfinal
  obtain ⟨rounds, events, ret, hperform, htrace⟩ := perform_of_single hfinal hdone
  have hlast := lines_end hwrites' hend (LogIo.within io rounds)
  rw [marked_within] at hlast
  have hevents : (r'.1.state.daapFinalize env (LogIo.within io rounds)).2.1 = events :=
    congrArg (·.2.1) hperform
  refine ⟨i, args, hargs, name, order'.map fun x => (x.1, x.2.1), hname, fun i => ?_, ?_⟩
  · rw [← hcalls i, entriesOf, List.filter_map, List.map_map]
    rfl
  · rw [hevents, ← linesOf_map last, ← htrace] at hlast
    have hlater : (order'.map fun x => x.2.1).filterMap (logged args.time) =
        order'.filterMap fun x => logged args.time x.2.1 := List.filterMap_map
    have hall : linesOf (r.2 ++ r'.2 ++ r''.2) = linesOf r.2 ++ linesOf r'.2 ++ linesOf r''.2 := by
      rw [linesOf, List.filterMap_append, List.filterMap_append]
      rfl
    rw [hall, hstart, hmiddle, hlast, entries, List.map_append, List.map_append, List.map_map]
    change _ = _ ++ List.map _ (List.filterMap _ (order'.map fun x => x.2.1)) ++ _
    rw [hlater]

/-- Two threads that initialise the library for TLS, send a message each and leave the end to
the first. -/
theorem threaded_process_lines_pair :
    ∃ (r r' r'' : State (Fin 2) × List (Fin 2 × Event)) (order : List (Fin 2 × Call)),
      run (step code) (Threads.Process.start {} fun _ => [.call (.daapInit tcpInit)])
        (List.replicate 7 0 ++ [1, 0, 1, 0, 1, 0, 1] ++ List.replicate 12 0) = some r ∧
      run (step code) (r.1.enter fun i => (heartbeats i).map .call)
        ([0, 1, 0, 1, 0, 1] ++ List.replicate 10 0 ++ List.replicate 10 1) = some r' ∧
      run (step code) (r'.1.enter (Function.update (fun _ => []) 0
        [.call (.daapFinalize serialEnv promptIo)])) (List.replicate 21 0) = some r'' ∧
      (∀ i, (order.filter fun x => x.1 = i).map (·.2) = heartbeats i) ∧
      linesOf (r.2 ++ r'.2 ++ r''.2) =
        (entries ⟨tcpInit, [], order.map (·.2), serialEnv, promptIo⟩).map
          (Entry.line (initData "gr0959".toList tcpInit)) := by
  obtain ⟨r, r', r'', hinit, hready, hcalled, hlog, hlogged, hfinal, hdone⟩ := pair_phases
  have hmember : ∀ (i : Fin 2), ∀ args ∈ [tcpInit], args = tcpInit := fun i args hargs =>
    List.mem_singleton.mp hargs
  obtain ⟨i, args, hargs, name, order, hname, horder, hlines⟩ :=
    @threaded_process_lines (Fin 2) _ (fun _ => [tcpInit]) heartbeats 0 serialEnv promptIo _ _ _
      r r' r'' (fun i args hargs => hmember i args hargs ▸ rfl) rfl
      (fun i c hc => by rw [List.mem_singleton.mp hc]; rfl) hinit
      hready hcalled hlog hlogged hfinal hdone
  obtain rfl := hmember i args hargs
  obtain rfl : "gr0959".toList = name := Except.ok.inj hname
  exact ⟨r, r', r'', order, hinit, hlog, hfinal, horder, hlines⟩

end Processes

end DaapLog.ThreadedProcess
