import DaapLog.ConcurrentWrites
import DaapLog.DeliveryResult

/-!
The lines of any number of threads on a transport that takes each line at once: what
arrives, in which pieces, and what is left behind.
-/

namespace DaapLog.ConcurrentLines

open DaapLog.BuildInflux (DAAP_SUCCESS daapBuildInflux_ne_nil daapBuildRawInflux_ne_nil)
open DaapLog.ConcurrentWrites
open DaapLog.CriticalSections
open DaapLog.LibraryCalls
open DaapLog.LibraryThreads
open DaapLog.Runs
open DaapLog.SoloCalls
open DaapLog.TcpLogWrite
open DaapLog.Threads
open DaapLog.TlsTransport
open DaapLog.TracedCalls

/-- The message of a log call. -/
def message (l : Library) : Call → Option Message
  | .daapLogWrite formatted io => some ⟨.caller, false, formatted, io⟩
  | .daapLogRawWrite formatted io => some ⟨.caller, true, formatted, io⟩
  | .daapLogHeartbeat io => some ⟨.caller, false, heartbeatText, io⟩
  | .daapLogJobStart io => some ⟨.caller, false, jobstartText, io⟩
  | .daapLogJobDuration cur_time io => some ⟨.caller, false, l.jobdurationText cur_time, io⟩
  | .daapLogJobEnd io => some ⟨.caller, false, jobendText, io⟩
  | _ => none

/-- The connection comes about and takes a line with one `SSL_write`. -/
structure Prompt (io : WriteIo) : Prop where
  reaches : io.Reaches
  handshake : io.SSL_connect = 1
  whole : ∀ len, io.SSL_write 0 len = len

/-- The events of one line: its record, a new connection and one `SSL_write`. -/
def lineEvents (l : Library) (c : Call) : List Event :=
  match (message l c).bind (buildLine l) with
  | some (line, _) => [line, .tls (.SSL_new .live), .tls (.SSL_write .live true)]
  | none => []

/-- Every line leaves one connection object more. -/
def delivered (t : Tls) : Tls := (t.openSocket.openConnection true).closeSocket

section Writing

variable {io : WriteIo} {buf_size : Nat}

theorem loopAfter_prompt (h : Prompt io) (hsize : buf_size ≠ 0) (k : Nat) :
    (loopAfter io.SSL_write buf_size 1).control = .writing ∧
      (loopAfter io.SSL_write buf_size (k + 2)).control = .left ∧
      (loopAfter io.SSL_write buf_size (k + 2)).calls = [⟨0, buf_size, buf_size⟩] := by
  have hpos : (0 : Int) < buf_size := by omega
  have hcall : io.SSL_write ({} : WriteLoop).calls.length (buf_size - ({} : WriteLoop).count) =
      buf_size := by
    rw [show ({} : WriteLoop).calls.length = 0 from rfl, h.whole]
    simp
  have hone : loopAfter io.SSL_write buf_size 1 =
      { count := buf_size, total_count := buf_size, calls := [⟨0, buf_size, buf_size⟩],
        control := .writing } := by
    rw [show (1 : Nat) = 0 + 1 from rfl, loopAfter_succ,
      show loopAfter io.SSL_write buf_size 0 = {} from rfl,
      iteration_progress rfl (by simpa using hpos.ne) hcall hpos]
    simp
  have htwo : loopAfter io.SSL_write buf_size 2 =
      { loopAfter io.SSL_write buf_size 1 with control := .left } := by
    rw [show (2 : Nat) = 1 + 1 from rfl, loopAfter_succ]
    exact iteration_stop (by rw [hone]) (by rw [hone])
  have hlater : loopAfter io.SSL_write buf_size (k + 2) = loopAfter io.SSL_write buf_size 2 := by
    rw [Nat.add_comm]
    exact loopAfter_of_not_writing (by simp [htwo]) k
  rw [hlater, htwo, hone]
  exact ⟨rfl, rfl, rfl⟩

/-- A prompt write that returns within the rounds has delivered its line. -/
theorem daapTCPLogWrite_prompt (h : Prompt io) (hsize : buf_size ≠ 0) {t : Tls}
    (hctx : t.sslctx = .live) {ret : Int}
    (hreturns : (daapTCPLogWrite io buf_size t).2.2 = .returns ret) :
    (daapTCPLogWrite io buf_size t).1 = delivered t ∧
      (daapTCPLogWrite io buf_size t).2.1 = [.SSL_new .live, .SSL_write .live true] := by
  have hcases := daapTCPLogWrite_cases io buf_size t
  generalize daapTCPLogWrite io buf_size t = r at hcases hreturns
  cases hcases with
  | noSocket hfails => exact absurd h.reaches.1 (not_le.mpr hfails)
  | noServer hsocket hfails => exact absurd h.reaches.2 hfails
  | noContext hreaches hfails => exact absurd hctx hfails
  | noHandshake hreaches hlive hfails =>
      rw [h.handshake] at hfails
      exact absurd hfails (by decide)
  | connected hreaches hlive hshake =>
      have hone : decide (io.SSL_connect = 1) = true := decide_eq_true h.handshake
      rw [hone] at hreturns ⊢
      obtain ⟨hwriting, hleft, hcalls⟩ := loopAfter_prompt h hsize (io.rounds - 1)
      have hrounds : io.rounds ≠ 0 := by
        intro hzero
        have hrunning : (writeLoop io buf_size (t.openSocket.openConnection true)).2.2 = .running := by
          rw [writeLoop, hzero, hwriting]
        cases hreturns.symm.trans hrunning
      have hsame : io.rounds - 1 + 2 = io.rounds + 1 := by omega
      rw [hsame] at hleft hcalls
      refine ⟨writeLoop_returns hreturns, ?_⟩
      rw [writeLoop_events, hcalls]
      rfl

end Writing

section Calls

variable {l : Library}

/-- The library is set up for TLS, its context lives and the strings of `init_data` are there. -/
structure Usable (l : Library) : Prop where
  called : l.daapInit_called = true
  tcp : l.transport_type = .TCP
  context : l.tls.sslctx = .live
  strings : l.init_data.isSome = true

theorem perform_eq_write {c : Call} {m : Message} (hmessage : message l c = some m) (rounds : Nat) :
    (Call.within rounds c).perform l =
      ((Message.write m l rounds).1, (Message.write m l rounds).2.1,
        (Message.write m l rounds).2.2.map some) := by
  cases c with
  | daapInit args => cases hmessage
  | daapFinalize env io => cases hmessage
  | daapSetRank rank => cases hmessage
  | daapLogJobDuration cur_time io =>
      obtain rfl := Option.some.inj hmessage
      rfl
  | _ =>
      obtain rfl := Option.some.inj hmessage
      rfl

theorem buildLine_of_usable (h : Usable l) (m : Message) :
    ∃ line influx_str, buildLine l m = some (line, influx_str) ∧ influx_str ≠ [] ∧
      ∀ rounds, Message.write m l rounds =
        ((l.transmit influx_str (WriteIo.within m.io.write rounds)).1,
          line :: (l.transmit influx_str (WriteIo.within m.io.write rounds)).2.1,
          (l.transmit influx_str (WriteIo.within m.io.write rounds)).2.2) := by
  have hcalled := not_called h.called
  obtain ⟨init_data, hdata⟩ := Option.isSome_iff_exists.mp h.strings
  by_cases hraw : m.raw = true
  · refine ⟨_, _, if_pos hraw, daapBuildRawInflux_ne_nil _, fun rounds => ?_⟩
    rw [Message.write, if_pos hraw, Library.daapLogRawWrite, if_neg hcalled]
    rfl
  · refine ⟨_, _, (if_neg hraw).trans (by rw [hdata, Option.map_some]), daapBuildInflux_ne_nil _ _ _,
      fun rounds => ?_⟩
    rw [Message.write, if_neg hraw, Library.daapLogWrite, if_neg hcalled, hdata]
    rfl

/-- A call whose write is prompt leaves its line and one more connection object. -/
theorem perform_prompt (h : Usable l) {c : Call} {m : Message} (hmessage : message l c = some m)
    (hprompt : Prompt m.io.write) {rounds : Nat} {l' : Library} {events : List Event}
    {ret : Option Int}
    (hperform : (Call.within rounds c).perform l = (l', events, .returns ret)) :
    l' = { l with tls := delivered l.tls } ∧ events = lineEvents l c ∧ ret = some DAAP_SUCCESS := by
  obtain ⟨line, influx_str, hline, hne, hwrite⟩ := buildLine_of_usable h m
  rw [perform_eq_write hmessage, hwrite, transmit_of_tcp l h.tcp] at hperform
  have hprompt' : Prompt (WriteIo.within m.io.write rounds) :=
    ⟨hprompt.reaches, hprompt.handshake, hprompt.whole⟩
  have hsize : influx_str.length ≠ 0 := fun hzero => hne (List.length_eq_zero_iff.mp hzero)
  simp only [Prod.mk.injEq] at hperform
  obtain ⟨hstate, hevents, hending⟩ := hperform
  obtain ⟨ret', hret', hret⟩ := Ending.map_eq_returns_iff.mp hending
  obtain ⟨count, hcount, hsuccess⟩ := Ending.map_eq_returns_iff.mp hret'
  obtain ⟨htls, htlsEvents⟩ := daapTCPLogWrite_prompt hprompt' hsize h.context hcount
  refine ⟨?_, ?_, ?_⟩
  · rw [← hstate, htls]
  · rw [← hevents, htlsEvents, lineEvents, hmessage, Option.bind_some, hline]
    rfl
  · rw [← hret, ← hsuccess]

theorem message_globals {l' : Library} (h : globals l = globals l') (c : Call) :
    message l c = message l' c := by
  cases c with
  | daapLogJobDuration cur_time io =>
      exact congrArg (fun text => some (Message.mk .caller false text io))
        (jobdurationText_globals h cur_time)
  | _ => rfl

theorem lineEvents_globals {l' : Library} (h : globals l = globals l') (c : Call) :
    lineEvents l c = lineEvents l' c := by
  rw [lineEvents, lineEvents, message_globals h]
  cases message l' c with
  | none => rfl
  | some m => rw [Option.bind_some, Option.bind_some, buildLine_globals h]

theorem message_isSome_of_logs {c : Call} (h : Call.logs c = true) : ∃ m, message l c = some m := by
  cases c with
  | daapInit args => cases h
  | daapFinalize env io => cases h
  | daapSetRank rank => cases h
  | _ => exact ⟨_, rfl⟩

theorem usable_delivered (h : Usable l) : Usable { l with tls := delivered l.tls } :=
  ⟨h.called, h.tcp, h.context, h.strings⟩

end Calls

section Orders

variable {ι : Type*} {l : Library}

/-- What a sequence of prompt calls leaves. -/
structure Delivers (l : Library) (order : List (ι × Call × Option Int)) (l₁ : Library)
    (trace : List (ι × Event)) : Prop where
  usable : Usable l₁
  globals : globals l₁ = globals l
  sockets : l₁.tls.sockets = l.tls.sockets
  connections : l₁.tls.connections = l.tls.connections + order.length
  results : ∀ x ∈ order, x.2.2 = some DAAP_SUCCESS
  trace : trace = order.flatMap fun x => (lineEvents l x.2.1).map fun e => (x.1, e)

theorem delivers_of_performed (h : Usable l) {order : List (ι × Call × Option Int)} {l₁ : Library}
    {trace : List (ι × Event)} (hperformed : Performed l order l₁ trace)
    (hprompt : ∀ x ∈ order, ∃ m, message l x.2.1 = some m ∧ Prompt m.io.write) :
    Delivers l order l₁ trace := by
  induction hperformed with
  | nil => exact ⟨h, rfl, rfl, rfl, fun x hx => absurd hx List.not_mem_nil, rfl⟩
  | @snoc order l₁ l₂ trace i c rounds events ret hfront hperform ih =>
      obtain ⟨hbefore, hlast⟩ := List.forall_mem_append.mp hprompt
      obtain ⟨m, hmessage, hm⟩ := hlast _ (List.mem_singleton_self _)
      have hdelivers := ih hbefore
      rw [← message_globals hdelivers.globals] at hmessage
      obtain ⟨rfl, rfl, rfl⟩ := perform_prompt hdelivers.usable hmessage hm hperform
      refine ⟨usable_delivered hdelivers.usable, hdelivers.globals, hdelivers.sockets, ?_, ?_, ?_⟩
      · rw [List.length_append, List.length_singleton, ← Nat.add_assoc, ← hdelivers.connections]
        rfl
      · intro x hx
        rcases List.mem_append.mp hx with hx | hx
        · exact hdelivers.results x hx
        · rw [List.mem_singleton.mp hx]
      · rw [hdelivers.trace, lineEvents_globals hdelivers.globals, List.flatMap_append,
          List.flatMap_singleton]

variable [DecidableEq ι]

/-- Threads that log at once over a transport that takes each line with one write: in
the end every line of every thread has gone out once, in one piece on a connection of its
own, the lines of a thread in their order, and every call has reported success. One
connection object for each line is left. -/
theorem concurrent_lines_whole {calls : ι → List Call} (h : Usable l)
    (hlogs : ∀ i, ∀ c ∈ calls i, Call.logs c = true)
    (hprompt : ∀ i, ∀ c ∈ calls i, ∀ m, message l c = some m → Prompt m.io.write)
    {schedule : List ι} {r : Process ι Mutex Library Event Point (Option Int) × List (ι × Event)}
    (hrun : run (step code) (Process.start l fun i => (calls i).map .call) schedule = some r)
    (hdone : ∀ i, r.1.threads i = []) :
    ∃ order : List (ι × Call),
      (∀ i, (order.filter fun x => x.1 = i).map (·.2) = calls i) ∧
      r.2 = order.flatMap (fun x => (lineEvents l x.2).map fun e => (x.1, e)) ∧
      (∀ i, r.1.results i = (calls i).map fun _ => some DAAP_SUCCESS) ∧
      globals r.1.state = globals l ∧ r.1.state.tls.sockets = l.tls.sockets ∧
      r.1.state.tls.connections = l.tls.connections + order.length := by
  obtain ⟨order, hlinear⟩ := linearised_run h.called hlogs hrun
  have hcalls (i : ι) : entriesOf order i = calls i := hlinear.finished i (hdone i)
  have hmem {x : ι × Call × Option Int} (hx : x ∈ order) : x.2.1 ∈ calls x.1 := by
    rw [← hcalls]
    exact List.mem_map_of_mem (List.mem_filter.mpr ⟨hx, decide_eq_true rfl⟩)
  have hdelivers : Delivers l order r.1.state r.2 := by
    refine delivers_of_performed h (hlinear.performed hdone) fun x hx => ?_
    obtain ⟨m, hm⟩ := message_isSome_of_logs (l := l) (hlogs x.1 x.2.1 (hmem hx))
    exact ⟨m, hm, hprompt x.1 x.2.1 (hmem hx) m hm⟩
  refine ⟨order.map fun x => (x.1, x.2.1), fun i => ?_, ?_, fun i => ?_, hdelivers.globals,
    hdelivers.sockets, by rw [List.length_map, hdelivers.connections]⟩
  · rw [← hcalls i, entriesOf, List.filter_map, List.map_map]
    rfl
  · rw [hdelivers.trace, List.flatMap_map]
  · have hresults : r.1.results i = resultsOf order i := by
      rcases hlinear.results i with hsame | ⟨ret, later, hthreads, -⟩
      · exact hsame.symm
      · cases (hdone i).symm.trans hthreads
    rw [hresults, ← hcalls i, resultsOf, entriesOf, List.map_map]
    refine List.map_congr_left fun x hx => ?_
    exact hdelivers.results x (List.mem_of_mem_filter hx)

theorem concurrent_lines_whole_pair :
    ∃ (r : Process (Fin 2) Mutex Library Event Point (Option Int) × List (Fin 2 × Event))
      (order : List (Fin 2 × Call)),
      run (step code) (Process.start usableLibrary fun i => (heartbeats i).map .call)
        ([0, 1, 0, 1, 0, 1] ++ [0, 0, 0, 0, 0, 0, 0, 0, 0, 0] ++ [1, 1, 1, 1, 1, 1, 1, 1, 1, 1]) =
          some r ∧
      (∀ i, (order.filter fun x => x.1 = i).map (·.2) = heartbeats i) ∧
      r.2 = order.flatMap (fun x => (lineEvents usableLibrary x.2).map fun e => (x.1, e)) := by
  have hevaluated : (run (step code) (Process.start usableLibrary fun i => (heartbeats i).map .call)
      ([0, 1, 0, 1, 0, 1] ++ [0, 0, 0, 0, 0, 0, 0, 0, 0, 0] ++ [1, 1, 1, 1, 1, 1, 1, 1, 1, 1])).any
        (fun r => (r.1.threads 0).isEmpty && (r.1.threads 1).isEmpty) = true := by
    decide +kernel
  obtain ⟨r, hrun, hdone⟩ := (Option.any_eq_true _ _).mp hevaluated
  rw [Bool.and_eq_true, List.isEmpty_iff, List.isEmpty_iff] at hdone
  have hlogs : ∀ i, ∀ c ∈ heartbeats i, Call.logs c = true := by
    intro i c hc
    rw [List.mem_singleton.mp hc]
    rfl
  have hprompt : ∀ i, ∀ c ∈ heartbeats i, ∀ m, message usableLibrary c = some m →
      Prompt m.io.write := by
    intro i c hc m hm
    rw [List.mem_singleton.mp hc] at hm
    obtain rfl := Option.some.inj hm
    exact ⟨⟨by decide, by decide⟩, rfl, fun len => rfl⟩
  obtain ⟨order, hcalls, htrace, -⟩ := concurrent_lines_whole ⟨rfl, rfl, rfl, rfl⟩ hlogs hprompt
    hrun (Fin.forall_fin_two.mpr hdone)
  exact ⟨r, order, hrun, hcalls, htrace⟩

end Orders

end DaapLog.ConcurrentLines
