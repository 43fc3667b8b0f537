import DaapLog.LibraryThreads

/-!
A call that no other thread disturbs, step by step, against the function of the whole
call.
-/

namespace DaapLog.SoloCalls

open DaapLog.CStrings
open DaapLog.BuildInflux (DAAP_SUCCESS DAAP_ERROR)
open DaapLog.CriticalSections
open DaapLog.LibraryCalls
open DaapLog.LibraryThreads
open DaapLog.TcpLogWrite
open DaapLog.Threads
open DaapLog.TlsTransport hiding daapTCPLogWrite_cases
open DaapLog.TracedCalls

variable {β γ : Type*}

/-- What the code comes to from a control point, when its write loop is looked at for a
number of rounds. A call that returns a value goes to the control point for it. -/
inductive Reaches (rounds : Nat) (next : β → Point) (l : Library) (point : Point) :
    Traced Library Event β → Prop
  | returns {n : Nat} {events : List Event} {s : Library} {value : β}
      (h : Leads code n l point events s (next value)) :
      Reaches rounds next l point (s, events, .returns value)
  | exits {n : Nat} {events : List Event} {s : Library} {point' : Point} {status : Int}
      (h : Leads code n l point events s point') (hcode : code s point' = .exits status) :
      Reaches rounds next l point (s, events, .exits status)
  | undefined {n : Nat} {events events' : List Event} {s s' : Library} {point' : Point}
      (h : Leads code n l point events s point') (hcode : code s point' = .undefined) :
      Reaches rounds next l point (s', events', .undefined)
  | running {n : Nat} {events : List Event} {s : Library} {point' : Point}
      (h : Leads code n l point events s point') (hn : rounds < n)
      (hcode : ¬Final (code s point')) :
      Reaches rounds next l point (s, events, .running)

section Reaching

variable {rounds : Nat} {next : β → Point} {l s : Library} {point point' : Point}

theorem Reaches.after {n : Nat} {events : List Event} {r : Traced Library Event β}
    (hleads : Leads code n l point events s point')
    (h : Reaches rounds next s point' r) :
    Reaches rounds next l point (r.1, events ++ r.2.1, r.2.2) := by
  cases h with
  | returns h => exact .returns (hleads.trans h)
  | exits h hcode => exact .exits (hleads.trans h) hcode
  | undefined h hcode => exact .undefined (hleads.trans h) hcode
  | running h hn hcode => exact .running (hleads.trans h) (Nat.lt_add_left _ hn) hcode

theorem Reaches.acts {events : List Event} {r : Traced Library Event β}
    (hcode : code l point = .acts s events point') (h : Reaches rounds next s point' r) :
    Reaches rounds next l point (r.1, events ++ r.2.1, r.2.2) :=
  h.after (Leads.one (advance_of_acts hcode))

theorem Reaches.sets {r : Traced Library Event β} (hcode : code l point = .acts s [] point')
    (h : Reaches rounds next s point' r) : Reaches rounds next l point r :=
  h.after (Leads.one (advance_of_acts hcode))

theorem Reaches.goes {r : Traced Library Event β} (hcode : code l point = .goes point')
    (h : Reaches rounds next l point' r) : Reaches rounds next l point r :=
  h.after (Leads.one (advance_of_goes hcode))

theorem Reaches.locks {mutex : Mutex} {r : Traced Library Event β}
    (hcode : code l point = .lock mutex point') (h : Reaches rounds next l point' r) :
    Reaches rounds next l point r :=
  h.after (Leads.one (advance_of_lock hcode))

theorem Reaches.unlocks {mutex : Mutex} {r : Traced Library Event β}
    (hcode : code l point = .unlock mutex point') (h : Reaches rounds next l point' r) :
    Reaches rounds next l point r :=
  h.after (Leads.one (advance_of_unlock hcode))

theorem Reaches.here (rounds : Nat) (next : β → Point) (l : Library) (value : β) :
    Reaches rounds next l (next value) (l, [], .returns value) :=
  .returns (Leads.refl code l (next value))

/-- A function behind another one goes on from where that returns. -/
theorem Reaches.andThen {r : Traced Library Event β} {f : Library → β → Traced Library Event γ}
    {next' : γ → Point} (h : Reaches rounds next l point r)
    (hf : ∀ value, r.2.2 = .returns value → Reaches rounds next' r.1 (next value) (f r.1 value)) :
    Reaches rounds next' l point (andThen r f) := by
  cases h with
  | returns h =>
      rw [andThen_of_returns rfl]
      exact (hf _ rfl).after h
  | exits h hcode => exact .exits h hcode
  | undefined h hcode => exact .undefined h hcode
  | running h hn hcode => exact .running h hn hcode

/-- The value may be passed on in another form. -/
theorem Reaches.map {r : Traced Library Event β} {f : β → γ} {next' : γ → Point}
    (h : Reaches rounds next l point r)
    (hf : ∀ s value, ∃ n, Leads code n s (next value) [] s (next' (f value))) :
    Reaches rounds next' l point (r.1, r.2.1, r.2.2.map f) := by
  cases h with
  | @returns n events s value h =>
      obtain ⟨m, hm⟩ := hf s value
      have hlater := h.trans hm
      rw [List.append_nil] at hlater
      exact .returns hlater
  | exits h hcode => exact .exits h hcode
  | undefined h hcode => exact .undefined h hcode
  | running h hn hcode => exact .running h hn hcode

end Reaching

def WriteIo.within (io : WriteIo) (rounds : Nat) : WriteIo := { io with rounds := rounds }

def LogIo.within (io : LogIo) (rounds : Nat) : LogIo :=
  { io with write := WriteIo.within io.write rounds }

def InitArgs.within (args : InitArgs) (rounds : Nat) : InitArgs :=
  { args with io := LogIo.within args.io rounds }

theorem InitArgs.within_setup (args : InitArgs) (rounds : Nat) :
    (InitArgs.within args rounds).setup = args.setup := rfl

/-- The call with its write loop looked at for a number of rounds. -/
def Call.within (rounds : Nat) : Call → Call
  | .daapInit args => .daapInit (InitArgs.within args rounds)
  | .daapFinalize env io => .daapFinalize env (LogIo.within io rounds)
  | .daapSetRank rank => .daapSetRank rank
  | .daapLogWrite formatted io => .daapLogWrite formatted (LogIo.within io rounds)
  | .daapLogRawWrite formatted io => .daapLogRawWrite formatted (LogIo.within io rounds)
  | .daapLogHeartbeat io => .daapLogHeartbeat (LogIo.within io rounds)
  | .daapLogJobStart io => .daapLogJobStart (LogIo.within io rounds)
  | .daapLogJobDuration cur_time io => .daapLogJobDuration cur_time (LogIo.within io rounds)
  | .daapLogJobEnd io => .daapLogJobEnd (LogIo.within io rounds)

section Writing

variable (l : Library) (m : Message) (buf_size : Nat)

/-- A round of the loop is a step, and a loop that is over stays. -/
theorem leads_loopAfter (k : Nat) :
    ∃ n, Leads code n l (.SSL_write m buf_size {})
        ((loopAfter m.io.write.SSL_write buf_size k).calls.map fun _ =>
          .tls (.SSL_write l.tls.cSSL l.tls.handshaken)) l
        (.afterWrite m buf_size (loopAfter m.io.write.SSL_write buf_size k)) ∧
      ((loopAfter m.io.write.SSL_write buf_size k).control = .writing → n = k) := by
  induction k with
  | zero => exact ⟨0, Leads.refl code l _, fun _ => rfl⟩
  | succ k ih =>
      obtain ⟨n, hleads, hn⟩ := ih
      rw [loopAfter_succ]
      generalize loopAfter m.io.write.SSL_write buf_size k = loop at hleads hn
      rcases eq_or_ne loop.control .writing with hwriting | hover
      · have hhere : Point.afterWrite m buf_size loop = .SSL_write m buf_size loop := by
          rw [Point.afterWrite, hwriting]
        rw [hhere] at hleads
        refine ⟨n + 1, ?_, fun _ => by rw [hn hwriting]⟩
        by_cases htotal : loop.total_count = buf_size
        · have hadvance : advance code l (.SSL_write m buf_size loop) = (l, [], .close m) := by
            rw [advance, code, if_pos htotal]
          rw [iteration_stop hwriting htotal]
          rw [← List.append_nil (loop.calls.map _)]
          exact hleads.snoc hadvance
        · have hadvance : advance code l (.SSL_write m buf_size loop) =
              (l, [.tls (.SSL_write l.tls.cSSL l.tls.handshaken)],
                .afterWrite m buf_size (iteration m.io.write.SSL_write buf_size loop)) := by
            rw [advance, code, if_neg htotal]
          rw [iteration_calls hwriting htotal, List.map_append, List.map_singleton]
          exact hleads.snoc hadvance
      · rw [iteration_of_not_writing hover]
        exact ⟨n, hleads, fun h => absurd h hover⟩

/-- A function of the transport as one of the library. -/
def onTls (r : Traced Tls TlsEvent β) : Traced Library Event β :=
  ({ l with tls := r.1 }, r.2.1.map .tls, r.2.2)

theorem reaches_writeLoop (rounds : Nat) :
    Reaches rounds (fun _ => .unlockWrite m) l (.SSL_write m buf_size {})
      (onTls l (writeLoop (WriteIo.within m.io.write rounds) buf_size l.tls)) := by
  obtain ⟨n, hleads, hn⟩ := leads_loopAfter l m buf_size (rounds + 1)
  rw [onTls, writeLoop]
  simp only [WriteIo.within]
  generalize loopAfter m.io.write.SSL_write buf_size (rounds + 1) = loop at hleads hn
  rw [Point.afterWrite] at hleads
  cases hcontrol : loop.control with
  | left =>
      rw [hcontrol] at hleads
      have hclose : advance code l (.close m) =
          ({ l with tls := l.tls.closeSocket }, [], .unlockWrite m) := rfl
      have hreturns := hleads.snoc hclose
      rw [List.append_nil] at hreturns
      simp only [List.map_map]
      exact .returns hreturns
  | exited =>
      rw [hcontrol] at hleads
      simp only [List.map_map]
      exact .exits hleads rfl
  | writing =>
      rw [hcontrol] at hleads
      simp only [List.map_map]
      refine .running hleads (hn hcontrol ▸ Nat.lt_succ_self rounds) ?_
      change ¬Final (code l (.SSL_write m buf_size loop))
      rw [code]
      split
      · exact id
      · exact id

theorem reaches_shutdown (rounds : Nat) (at_ : Shutdown) :
    Reaches rounds (fun _ => at_.next) l (.SSL_CTX_free at_) (onTls l (daapShutdownSSL l.tls)) := by
  have hfree (l : Library) :
      Reaches rounds (fun _ => at_.next) l (.SSL_free at_) (onTls l (freeConnection l.tls)) := by
    rw [freeConnection]
    cases hconn : l.tls.cSSL with
    | null =>
        have hcode : code l (.SSL_free at_) = .goes at_.next := by
          rw [code, hconn]
        exact .goes hcode (.here rounds (fun _ => at_.next) l ())
    | live =>
        have hcode : code l (.SSL_free at_) =
            .acts { l with tls := { l.tls with
                cSSL := .freed
                connections := l.tls.connections - 1 } } [.tls (.SSL_free .live)] at_.next := by
          rw [code, hconn]
        exact .acts hcode (.here rounds (fun _ => at_.next) _ ())
    | freed =>
        have hcode : code l (.SSL_free at_) = .undefined := by
          rw [code, hconn]
        exact .undefined (Leads.refl code l _) hcode
  rw [daapShutdownSSL]
  cases hctx : l.tls.sslctx with
  | null =>
      have hcode : code l (.SSL_CTX_free at_) =
          .acts l [.tls (.SSL_CTX_free .null)] (.SSL_free at_) := by
        rw [code, hctx]
      exact .acts hcode (hfree l)
  | live =>
      have hcode : code l (.SSL_CTX_free at_) =
          .acts { l with tls := { l.tls with sslctx := .freed } } [.tls (.SSL_CTX_free .live)]
            (.SSL_free at_) := by
        rw [code, hctx]
      exact .acts hcode (hfree _)
  | freed =>
      have hcode : code l (.SSL_CTX_free at_) = .undefined := by
        rw [code, hctx]
      exact .undefined (Leads.refl code l _) hcode

theorem reaches_socket (rounds : Nat) (line : Event) :
    let r := onTls l
      (TlsTransport.daapTCPLogWrite (WriteIo.within m.io.write rounds) buf_size l.tls)
    Reaches rounds (fun _ => .unlockWrite m) l (.socket m line buf_size)
      (r.1, line :: r.2.1, r.2.2) := by
  have hcases :=
    TlsTransport.daapTCPLogWrite_cases (WriteIo.within m.io.write rounds) buf_size l.tls
  have hopens (h : 0 ≤ m.io.write.socket) : code l (.socket m line buf_size) =
      .acts { l with tls := l.tls.openSocket } [line] (.connect m buf_size) := by
    rw [code, if_neg (not_lt.mpr h)]
  have hconnects (l : Library) (h : m.io.write.connect = 0) :
      code l (.connect m buf_size) = .goes (.SSL_new m buf_size) := by
    rw [code, if_neg (not_not.mpr h)]
  have hnew (l : Library) (h : l.tls.sslctx = .live) : code l (.SSL_new m buf_size) =
      .acts { l with tls := l.tls.openConnection false } [.tls (.SSL_new .live)]
        (.SSL_connect m buf_size) := by
    rw [code, if_neg (not_not.mpr h)]
  generalize TlsTransport.daapTCPLogWrite (WriteIo.within m.io.write rounds) buf_size l.tls = r
    at hcases
  cases hcases with
  | noSocket h =>
      have hfails : code l (.socket m line buf_size) = .acts l [line] (.unlockWrite m) := by
        rw [code]
        exact if_pos h
      exact .acts hfails (.returns (Leads.refl code l _))
  | noServer hsocket h =>
      have hfails (l : Library) : code l (.connect m buf_size) = .goes (.unlockWrite m) := by
        rw [code]
        exact if_pos h
      exact .acts (hopens hsocket) (.goes (hfails _) (.returns (Leads.refl code _ _)))
  | noContext hreaches h =>
      have hfails : code { l with tls := l.tls.openSocket } (.SSL_new m buf_size) =
          .undefined := by
        rw [code]
        exact if_pos h
      exact .undefined (((Leads.one (advance_of_acts (hopens hreaches.1))).trans
        (Leads.one (advance_of_goes (hconnects _ hreaches.2))))) hfails
  | noHandshake hreaches hctx h =>
      have hfails (l : Library) :
          code l (.SSL_connect m buf_size) = .goes (.SSL_CTX_free (.connect m)) := by
        rw [code]
        exact if_pos h
      have hshutdown := reaches_shutdown
        { l with tls := l.tls.openSocket.openConnection false } rounds (.connect m)
      have hreleased : daapShutdownSSL (l.tls.openSocket.openConnection false) =
          ((l.tls.openSocket.openConnection false).released,
            [.SSL_CTX_free .live, .SSL_free .live], .returns ()) :=
        daapShutdownSSL_live hctx rfl
      dsimp only at hshutdown
      rw [hreleased] at hshutdown
      exact .acts (hopens hreaches.1) (.goes (hconnects _ hreaches.2)
        (.acts (hnew { l with tls := l.tls.openSocket } hctx) (.goes (hfails _)
          (hshutdown.map (f := fun _ => DAAP_ERROR) fun s _ => ⟨0, Leads.refl code s _⟩))))
  | connected hreaches hctx h =>
      have hshakes (l : Library) : code l (.SSL_connect m buf_size) =
          .acts { l with tls := { l.tls with handshaken := m.io.write.SSL_connect = 1 } } []
            (.SSL_write m buf_size {}) := by
        rw [code]
        exact if_neg (not_lt.mpr h)
      exact .acts (hopens hreaches.1) (.goes (hconnects _ hreaches.2)
        (.acts (hnew { l with tls := l.tls.openSocket } hctx)
          (.acts (hshakes _) (reaches_writeLoop _ m buf_size rounds))))

theorem reaches_transmit (rounds : Nat) (line : Event) (influx_str : Text) :
    let r := l.transmit influx_str (WriteIo.within m.io.write rounds)
    Reaches rounds (fun ret => afterLog ret m.origin) l (.transmit m line influx_str)
      (r.1, line :: r.2.1, r.2.2) := by
  cases htransport : l.transport_type with
  | NONE =>
      have hcode : code l (.transmit m line influx_str) =
          .acts l [line] (afterLog DAAP_SUCCESS m.origin) := by
        rw [code, htransport]
      rw [Library.transmit, htransport]
      exact .acts hcode (.here rounds (fun ret => afterLog ret m.origin) l DAAP_SUCCESS)
  | SYSLOG =>
      have hcode : code l (.transmit m line influx_str) =
          .acts l [line, .syslog l.level influx_str] (afterLog DAAP_SUCCESS m.origin) := by
        rw [code, htransport]
      rw [Library.transmit, htransport]
      exact .acts hcode (.here rounds (fun ret => afterLog ret m.origin) l DAAP_SUCCESS)
  | TCP =>
      have hcode : code l (.transmit m line influx_str) =
          .lock .write_mutex (.socket m line influx_str.length) := by
        rw [code, htransport]
      have hsocket := reaches_socket l m influx_str.length rounds line
      rw [transmit_of_tcp l htransport]
      have hunlock (s : Library) : code s (.unlockWrite m) =
          .unlock .write_mutex (afterLog DAAP_SUCCESS m.origin) := rfl
      refine .locks hcode (hsocket.map (f := fun _ => DAAP_SUCCESS) fun s _ => ⟨1, ?_⟩)
      exact Leads.one (advance_of_unlock (hunlock s))

/-- The write function of a message. -/
def Message.write (m : Message) (l : Library) (rounds : Nat) : Traced Library Event Int :=
  if m.raw then l.daapLogRawWrite m.formatted (LogIo.within m.io rounds)
  else l.daapLogWrite m.origin m.formatted (LogIo.within m.io rounds)

theorem code_build {line : Event} {influx_str : Text} (h : buildLine l m = some (line, influx_str)) :
    code l (.build m) = .goes (.transmit m line influx_str) := by
  rw [code, h]

theorem reaches_build (rounds : Nat) (hcalled : l.daapInit_called = true) :
    Reaches rounds (fun ret => afterLog ret m.origin) l (.build m) (Message.write m l rounds) := by
  have hnot : ¬(!l.daapInit_called) = true := by simp [hcalled]
  rw [Message.write]
  by_cases hraw : m.raw = true
  · have hline : buildLine l m = some _ := if_pos hraw
    rw [if_pos hraw, Library.daapLogRawWrite, if_neg hnot]
    exact .goes (code_build l m hline) (reaches_transmit l m rounds _ _)
  · rw [if_neg hraw, Library.daapLogWrite, if_neg hnot]
    cases hdata : l.init_data with
    | none =>
        have hline : buildLine l m = none := by
          rw [buildLine, if_neg hraw, hdata, Option.map_none]
        exact .undefined (Leads.refl code l _) (by rw [code, hline])
    | some init_data =>
        have hline : buildLine l m = some _ := (if_neg hraw).trans (by rw [hdata, Option.map_some])
        exact .goes (code_build l m hline) (reaches_transmit l m rounds _ _)

theorem reaches_log (rounds : Nat) :
    Reaches rounds (fun ret => afterLog ret m.origin) l (.log m) (Message.write m l rounds) := by
  by_cases hcalled : l.daapInit_called = true
  · have hnot : ¬(!l.daapInit_called) = true := by simp [hcalled]
    by_cases hlong : m.io.msg_len > BuildInflux.DAAP_MAX_MSG_LEN
    · have hcode : code l (.log m) = .lock .daap_log_print_mutex (.warn m) := by
        rw [code, if_neg hnot, if_pos hlong]
      have hunlock : code l (.warn m) = .unlock .daap_log_print_mutex (.build m) := rfl
      exact .locks hcode (.unlocks hunlock (reaches_build l m rounds hcalled))
    · have hcode : code l (.log m) = .goes (.build m) := by
        rw [code, if_neg hnot, if_neg hlong]
      exact .goes hcode (reaches_build l m rounds hcalled)
  · have hnot : (!l.daapInit_called) = true := by simp [hcalled]
    have hcode : code l (.log m) = .goes (afterLog DAAP_ERROR m.origin) := by
      rw [code, if_pos hnot]
    have hwrite : Message.write m l rounds = (l, [], .returns DAAP_ERROR) := by
      rw [Message.write, Library.daapLogRawWrite, Library.daapLogWrite, if_pos hnot, if_pos hnot,
        ite_self]
    rw [hwrite]
    exact .goes hcode (.here rounds (fun ret => afterLog ret m.origin) l DAAP_ERROR)

end Writing

section Initialising

theorem readMpiRank_readZero (l : Library) (env : Environment) :
    readMpiRank (readZero l env) env = l.readRank env := by
  rw [readMpiRank, readZero]
  unfold Library.readRank
  cases env.rank with
  | none => rfl
  | some rank => rfl

variable (l : Library) (args : InitArgs) (rounds : Nat)

theorem reaches_jobStart :
    Reaches rounds (fun ret => .done (some ret)) l (.jobStart args)
      (if l.daapRank_zero && args.env.automatic then
        l.daapLogWrite .jobStart jobstartText (LogIo.within args.io rounds)
      else (l, [], .returns DAAP_SUCCESS)) := by
  by_cases hfirst : (l.daapRank_zero && args.env.automatic) = true
  · have hcode : code l (.jobStart args) = .goes (.log ⟨.jobStart, false, jobstartText, args.io⟩) := by
      rw [code, if_pos hfirst]
    rw [if_pos hfirst]
    exact .goes hcode (reaches_log l ⟨.jobStart, false, jobstartText, args.io⟩ rounds)
  · have hcode : code l (.jobStart args) = .goes (.done (some DAAP_SUCCESS)) := by
      rw [code, if_neg hfirst]
    rw [if_neg hfirst]
    exact .goes hcode (.here rounds (fun ret => .done (some ret)) l DAAP_SUCCESS)

theorem reaches_finishInit :
    Reaches rounds (fun ret => .done (some ret)) l (.setCalled args)
      (l.finishInit (InitArgs.within args rounds)) := by
  have hcalled : code l (.setCalled args) = .acts (raiseCalled l) [] (.unlockInit args) := rfl
  have hunlock : code (raiseCalled l) (.unlockInit args) = .unlock .init_mutex (.rankZero args) :=
    rfl
  have hzero : code (raiseCalled l) (.rankZero args) =
      .acts (readZero (raiseCalled l) args.env) [] (.mpiRank args) := rfl
  have hrank : code (readZero (raiseCalled l) args.env) (.mpiRank args) =
      .acts ((raiseCalled l).readRank args.env) [] (.jobStart args) := by
    rw [code, readMpiRank_readZero]
  exact .sets hcalled (.unlocks hunlock (.sets hzero (.sets hrank
    (reaches_jobStart ((raiseCalled l).readRank args.env) args rounds))))

theorem reaches_setUp :
    Reaches rounds (fun ret => .done (some ret)) l (.setUp args)
      (l.initTransport (InitArgs.within args rounds)) := by
  rcases eq_or_ne args.transport_type .TCP with htcp | htcp
  · have htcp' : (InitArgs.within args rounds).transport_type = .TCP := htcp
    by_cases hreturns : ∃ value, (daapInitializeSSL args.setup l.tls).2 = .returns value
    · obtain ⟨value, hvalue⟩ := hreturns
      have hsetup : daapInitializeSSL args.setup l.tls =
          ((daapInitializeSSL args.setup l.tls).1, .returns value) := by rw [← hvalue]
      generalize (daapInitializeSSL args.setup l.tls).1 = tls at hsetup
      have hcode : code l (.setUp args) = .acts { l with tls := tls } []
          (if reportsContext args.setup then .reportSetUp args else .setCalled args) := by
        rw [code, htcp, hsetup]
      have hwithin : daapInitializeSSL (InitArgs.within args rounds).setup l.tls =
          (tls, .returns value) := by
        rw [InitArgs.within_setup]
        exact hsetup
      rw [initTransport_of_setup htcp' hwithin]
      have hfinish := reaches_finishInit { l with tls := tls } args rounds
      by_cases hreports : reportsContext args.setup = true
      · have hlock : code { l with tls := tls } (.reportSetUp args) =
            .lock .daap_tcp_print_mutex (.reported args) := rfl
        have hunlock : code { l with tls := tls } (.reported args) =
            .unlock .daap_tcp_print_mutex (.setCalled args) := rfl
        rw [if_pos hreports] at hcode
        exact .acts hcode (.locks hlock (.unlocks hunlock hfinish))
      · rw [if_neg hreports] at hcode
        exact .acts hcode hfinish
    · have hnone (value : Option Int) : (daapInitializeSSL args.setup l.tls).2 ≠ .returns value :=
        fun h => hreturns ⟨value, h⟩
      have hcode : code l (.setUp args) = .undefined := by
        rw [code, htcp]
        dsimp only
        split
        · next tls value hsetup => exact absurd (congrArg Prod.snd hsetup) (hnone value)
        · rfl
      rw [← InitArgs.within_setup args rounds] at hnone
      rw [initTransport_of_stuck htcp' hnone]
      exact .undefined (Leads.refl code l _) hcode
  · have hcode : code l (.setUp args) = .goes (.setCalled args) := by
      rw [code]
      split
      · next h => exact absurd h htcp
      · rfl
    have htcp' : (InitArgs.within args rounds).transport_type ≠ .TCP := htcp
    rw [initTransport_of_not_tcp htcp']
    exact .goes hcode (reaches_finishInit l args rounds)

theorem reaches_leaveInit (ret_val : Int) :
    Reaches rounds (fun ret => .done (some ret)) l (.leaveInit ret_val)
      (l, [], .returns ret_val) := by
  have hunlock : code l (.leaveInit ret_val) = .unlock .init_mutex (.done (some ret_val)) := rfl
  exact .unlocks hunlock (.here rounds (fun ret => .done (some ret)) l ret_val)

theorem reaches_daapInit :
    Reaches rounds (fun ret => .done (some ret)) l (.call (.daapInit args))
      (l.daapInit (InitArgs.within args rounds)) := by
  have hlock : code l (.call (.daapInit args)) = .lock .init_mutex (.testCalled args) := rfl
  refine .locks hlock ?_
  cases hcalled : l.daapInit_called with
  | true =>
      have hcode : code l (.testCalled args) = .goes (.leaveInit DAAP_SUCCESS) := by
        rw [code, if_pos hcalled]
      rw [daapInit_of_called hcalled]
      exact .goes hcode (reaches_leaveInit l rounds DAAP_SUCCESS)
  | false =>
      have hcode : code l (.testCalled args) = .acts (l.startInit args) [] (.nameHost args) := by
        rw [code, if_neg (by simp [hcalled])]
      cases hname : args.hostname with
      | error error =>
          have hhost : code (l.startInit args) (.nameHost args) = .goes (.leaveInit error.code) := by
            rw [code, hname]
          have hinit : l.daapInit (InitArgs.within args rounds) =
              (l.startInit args, [], .returns error.code) := daapInit_of_error hcalled hname
          rw [hinit]
          exact .acts hcode (.goes hhost (reaches_leaveInit (l.startInit args) rounds error.code))
      | ok name =>
          have hhost : code (l.startInit args) (.nameHost args) =
              .acts { l.startInit args with hostname := .live name } [] (.nameCluster args) := by
            rw [code, hname]
          have hcluster : code { l.startInit args with hostname := .live name } (.nameCluster args) =
              .acts (l.populate args name) [] (.setUp args) := rfl
          have hinit : l.daapInit (InitArgs.within args rounds) =
              (l.populate args name).initTransport (InitArgs.within args rounds) :=
            daapInit_of_ok hcalled hname
          rw [hinit]
          exact .acts hcode (.acts hhost (.acts hcluster
            (reaches_setUp (l.populate args name) args rounds)))

end Initialising

section Finalising

variable (l : Library) (rounds : Nat)

theorem reaches_jobEnd (env : Environment) (io : LogIo) :
    Reaches rounds (fun ret_val => .SSL_CTX_free (.finalize ret_val)) l (.jobEnd env io)
      (l.finalMessage env (LogIo.within io rounds)) := by
  rw [Library.finalMessage]
  by_cases hlast : (l.daapRank_zero && env.automatic) = true
  · have hcode : code l (.jobEnd env io) = .goes (.log ⟨.jobEnd, false, jobendText, io⟩) := by
      rw [code, if_pos hlast]
    have hlog := reaches_log l ⟨.jobEnd, false, jobendText, io⟩ rounds
    rw [if_pos hlast]
    exact .goes hcode (hlog.map (f := some) fun s ret => ⟨0, Leads.refl code s _⟩)
  · have hcode : code l (.jobEnd env io) = .goes (.SSL_CTX_free (.finalize none)) := by
      rw [code, if_neg hlast]
    rw [if_neg hlast]
    exact .goes hcode (.here rounds (fun ret_val => .SSL_CTX_free (.finalize ret_val)) l none)

theorem string_freeString {field other : StringField} (h : other ≠ field) :
    string (freeString l field) other = string l other := by
  cases field with
  | hostname => cases other with
    | hostname => exact absurd rfl h
    | appname => rfl
    | cluster_name => rfl
  | appname => cases other with
    | hostname => rfl
    | appname => exact absurd rfl h
    | cluster_name => rfl
  | cluster_name => cases other with
    | hostname => rfl
    | appname => rfl
    | cluster_name => exact absurd rfl h

theorem reaches_free {fields : List StringField} (ret_val : Option Int)
    (h : ∀ field ∈ fields, string l field ≠ .released) (hnodup : fields.Nodup) :
    Reaches rounds (fun _ => .unlockFinalize ret_val) l (.free fields ret_val)
      (fields.foldl freeString l, fields.map fun field => .release (string l field),
        .returns ()) := by
  induction fields generalizing l with
  | nil => exact .goes rfl (.here rounds (fun _ => .unlockFinalize ret_val) l ())
  | cons field fields ih =>
      obtain ⟨hnot, hnodup⟩ := List.nodup_cons.mp hnodup
      have hcode : code l (.free (field :: fields) ret_val) =
          .acts (freeString l field) [.release (string l field)] (.free fields ret_val) := by
        rw [code, if_neg (h field List.mem_cons_self)]
      have hother (other : StringField) (hmem : other ∈ fields) :
          string (freeString l field) other = string l other :=
        string_freeString l fun heq => hnot (heq ▸ hmem)
      have hrest := ih (freeString l field) (fun other hmem => by
        rw [hother other hmem]
        exact h other (List.mem_cons_of_mem _ hmem)) hnodup
      rw [List.map_congr_left fun other hmem => congrArg Event.release (hother other hmem)] at hrest
      exact .acts hcode hrest

theorem reaches_free_released {fields : List StringField} (ret_val : Option Int)
    (h : ∃ field ∈ fields, string l field = .released) (r : Library × List Event) :
    Reaches rounds (fun _ : Unit => .unlockFinalize ret_val) l (.free fields ret_val)
      (r.1, r.2, .undefined) := by
  induction fields generalizing l with
  | nil =>
      obtain ⟨field, hmem, -⟩ := h
      cases hmem
  | cons field fields ih =>
      by_cases hhead : string l field = .released
      · have hcode : code l (.free (field :: fields) ret_val) = .undefined := by
          rw [code, if_pos hhead]
        exact .undefined (Leads.refl code l _) hcode
      · obtain ⟨other, hmem, hreleased⟩ := h
        have hcode : code l (.free (field :: fields) ret_val) =
            .acts (freeString l field) [.release (string l field)] (.free fields ret_val) := by
          rw [code, if_neg hhead]
        have hne : other ≠ field := fun heq => hhead (heq ▸ hreleased)
        have hrest := ih (freeString l field) ⟨other, (List.mem_cons.mp hmem).resolve_left hne,
          (string_freeString l hne).trans hreleased⟩
        cases hrest with
        | undefined hleads hundefined =>
            exact .undefined ((Leads.one (advance_of_acts hcode)).trans hleads) hundefined

theorem reaches_freeStrings (ret_val : Option Int) :
    Reaches rounds (fun _ => .unlockFinalize ret_val) l
      (.free [.hostname, .appname, .cluster_name] ret_val) l.freeStrings := by
  rw [Library.freeStrings]
  by_cases hreleased : Str.released ∈ [l.hostname, l.appname, l.cluster_name]
  · have hfield : ∃ field ∈ [StringField.hostname, .appname, .cluster_name],
        string l field = .released := by
      simpa [string, eq_comm] using hreleased
    simp only [if_pos hreleased]
    exact reaches_free_released l rounds ret_val hfield (_, _)
  · have hnone : ∀ field ∈ [StringField.hostname, .appname, .cluster_name],
        string l field ≠ .released := by
      simpa [string, eq_comm] using hreleased
    simp only [if_neg hreleased]
    exact reaches_free l rounds ret_val hnone (by decide)

theorem reaches_closeTransport (env : Environment) (io : LogIo) :
    Reaches rounds (fun ret_val => .free [.hostname, .appname, .cluster_name] ret_val) l
      (.jobEnd env io) (l.closeTransport env (LogIo.within io rounds)) := by
  refine (reaches_jobEnd l rounds env io).andThen ?_
  intro ret_val _
  have hshutdown := reaches_shutdown (l.finalMessage env (LogIo.within io rounds)).1 rounds
    (.finalize ret_val)
  exact hshutdown.map fun s _ => ⟨0, Leads.refl code s _⟩

theorem reaches_daapFinalize (env : Environment) (io : LogIo) :
    Reaches rounds .done l (.call (.daapFinalize env io))
      (l.daapFinalize env (LogIo.within io rounds)) := by
  have hlock : code l (.call (.daapFinalize env io)) = .lock .finalize_mutex (.jobEnd env io) := rfl
  refine .locks hlock ((reaches_closeTransport l rounds env io).andThen ?_)
  intro ret_val _
  have hfree := reaches_freeStrings (l.closeTransport env (LogIo.within io rounds)).1 rounds ret_val
  refine hfree.map fun s _ => ⟨1, ?_⟩
  have hunlock : code s (.unlockFinalize ret_val) = .unlock .finalize_mutex (.done ret_val) := rfl
  exact Leads.one (advance_of_unlock hunlock)

end Finalising

section Performing

variable (l : Library) (rounds : Nat)

theorem reaches_message (m : Message) (hcaller : m.origin = .caller) :
    Reaches rounds .done l (.log m)
      ((Message.write m l rounds).1, (Message.write m l rounds).2.1,
        (Message.write m l rounds).2.2.map some) := by
  refine (reaches_log l m rounds).map fun s ret => ⟨0, ?_⟩
  rw [hcaller]
  exact Leads.refl code s _

theorem reaches_perform (c : Call) :
    Reaches rounds .done l (.call c) ((Call.within rounds c).perform l) := by
  cases c with
  | daapInit args => exact (reaches_daapInit l args rounds).map fun s ret => ⟨0, Leads.refl code s _⟩
  | daapFinalize env io => exact reaches_daapFinalize l rounds env io
  | daapSetRank rank => exact .sets rfl (.here rounds .done (l.daapSetRank rank) none)
  | daapLogWrite formatted io =>
      exact .goes rfl (reaches_message l rounds ⟨.caller, false, formatted, io⟩ rfl)
  | daapLogRawWrite formatted io =>
      exact .goes rfl (reaches_message l rounds ⟨.caller, true, formatted, io⟩ rfl)
  | daapLogHeartbeat io =>
      exact .goes rfl (reaches_message l rounds ⟨.caller, false, heartbeatText, io⟩ rfl)
  | daapLogJobStart io =>
      exact .goes rfl (reaches_message l rounds ⟨.caller, false, jobstartText, io⟩ rfl)
  | daapLogJobDuration cur_time io =>
      exact .goes rfl
        (reaches_message l rounds ⟨.caller, false, l.jobdurationText cur_time, io⟩ rfl)
  | daapLogJobEnd io =>
      exact .goes rfl (reaches_message l rounds ⟨.caller, false, jobendText, io⟩ rfl)

theorem perform_of_leads {c : Call} {n : Nat} {events : List Event} {s : Library} {point : Point}
    (hleads : Leads code n l (.call c) events s point) (hfinal : Final (code s point)) :
    let r := (Call.within n c).perform l
    (∃ value, r = (s, events, .returns value) ∧ point = .done value) ∨
      (∃ status, r = (s, events, .exits status) ∧ code s point = .exits status) ∨
      (r.2.2 = .undefined ∧ code s point = .undefined) := by
  have hreaches := reaches_perform l n c
  generalize (Call.within n c).perform l = r at hreaches
  cases hreaches with
  | @returns m events' s' value h =>
      obtain ⟨rfl, rfl, rfl⟩ := hleads.final_unique hfinal h trivial
      exact .inl ⟨value, rfl, rfl⟩
  | @exits m events' s' point' status h hcode =>
      obtain ⟨rfl, rfl, rfl⟩ := hleads.final_unique hfinal h (by rw [hcode]; trivial)
      exact .inr (.inl ⟨status, rfl, hcode⟩)
  | @undefined m events' _ s' _ point' h hcode =>
      obtain ⟨rfl, rfl, rfl⟩ := hleads.final_unique hfinal h (by rw [hcode]; trivial)
      exact .inr (.inr ⟨rfl, hcode⟩)
  | @running m events' s' point' h hm hcode =>
      obtain ⟨more, rfl⟩ := Nat.exists_eq_add_of_lt hm
      have hlater := hleads.trans (Leads.stay hfinal (more + 1))
      have heq := hlater.symm.trans h
      simp only [List.append_nil, Prod.mk.injEq] at heq
      obtain ⟨rfl, rfl, rfl⟩ := heq
      exact absurd hfinal hcode

/-- Step by step, an undisturbed call comes to what the function of the whole call says:
it returns, exits or gets undefined exactly when the function does for some number of
rounds, and never ends when the function is running for every number. -/
theorem alone_perform (c : Call) :
    (∀ s events value,
      (∃ rounds, (Call.within rounds c).perform l = (s, events, .returns value)) ↔
        ∃ n, Leads code n l (.call c) events s (.done value)) ∧
    (∀ s events status,
      (∃ rounds, (Call.within rounds c).perform l = (s, events, .exits status)) ↔
        ∃ n point, Leads code n l (.call c) events s point ∧ code s point = .exits status) ∧
    ((∃ rounds, ((Call.within rounds c).perform l).2.2 = .undefined) ↔
      ∃ n s events point, Leads code n l (.call c) events s point ∧ code s point = .undefined) ∧
    ((∀ rounds, ((Call.within rounds c).perform l).2.2 = .running) ↔
      ∀ n s events point, Leads code n l (.call c) events s point → ¬Final (code s point)) := by
  refine ⟨fun s events value => ⟨?_, ?_⟩, fun s events status => ⟨?_, ?_⟩, ⟨?_, ?_⟩, ⟨?_, ?_⟩⟩
  · rintro ⟨rounds, hperform⟩
    have hreaches := reaches_perform l rounds c
    rw [hperform] at hreaches
    cases hreaches with
    | returns h => exact ⟨_, h⟩
  · rintro ⟨n, hleads⟩
    rcases perform_of_leads l hleads trivial with ⟨value', hperform, hpoint⟩ | ⟨status, -, hcode⟩ |
      ⟨-, hcode⟩
    · obtain rfl := Point.done.inj hpoint
      exact ⟨n, hperform⟩
    · cases hcode
    · cases hcode
  · rintro ⟨rounds, hperform⟩
    have hreaches := reaches_perform l rounds c
    rw [hperform] at hreaches
    cases hreaches with
    | exits h hcode => exact ⟨_, _, h, hcode⟩
  · rintro ⟨n, point, hleads, hcode⟩
    rcases perform_of_leads l hleads (by rw [hcode]; trivial) with ⟨value, -, rfl⟩ |
      ⟨status', hperform, hcode'⟩ | ⟨-, hcode'⟩
    · cases hcode
    · obtain rfl := Action.exits.inj (hcode.symm.trans hcode')
      exact ⟨n, hperform⟩
    · cases hcode.symm.trans hcode'
  · rintro ⟨rounds, hperform⟩
    have hreaches := reaches_perform l rounds c
    generalize (Call.within rounds c).perform l = r at hreaches hperform
    cases hreaches with
    | returns h => cases hperform
    | exits h hcode => cases hperform
    | undefined h hcode => exact ⟨_, _, _, _, h, hcode⟩
    | running h hn hcode => cases hperform
  · rintro ⟨n, s, events, point, hleads, hcode⟩
    rcases perform_of_leads l hleads (by rw [hcode]; trivial) with ⟨value, -, rfl⟩ |
      ⟨status, -, hcode'⟩ | ⟨hperform, -⟩
    · cases hcode
    · cases hcode.symm.trans hcode'
    · exact ⟨n, hperform⟩
  · intro hrunning n s events point hleads hfinal
    rcases perform_of_leads l hleads hfinal with ⟨value, hperform, -⟩ | ⟨status, hperform, -⟩ |
      ⟨hperform, -⟩
    · cases (hrunning n).symm.trans (congrArg (·.2.2) hperform)
    · cases (hrunning n).symm.trans (congrArg (·.2.2) hperform)
    · cases (hrunning n).symm.trans hperform
  · intro hgoes rounds
    have hreaches := reaches_perform l rounds c
    generalize (Call.within rounds c).perform l = r at hreaches
    cases hreaches with
    | returns h => exact absurd trivial (hgoes _ _ _ _ h)
    | exits h hcode => exact absurd (by rw [hcode]; trivial) (hgoes _ _ _ _ h)
    | undefined h hcode => exact absurd (by rw [hcode]; trivial) (hgoes _ _ _ _ h)
    | running h hn hcode => rfl

end Performing

end DaapLog.SoloCalls
