import DaapLog.LibraryLifeCycle

/-!
Context and connection over a sequence of calls that ends with a `daapFinalize`.
-/

namespace DaapLog.TlsLifeCycle

open DaapLog.BuildInflux (daapBuildInflux_ne_nil daapBuildRawInflux_ne_nil)
open DaapLog.CStrings
open DaapLog.LibraryCalls
open DaapLog.LibraryLifeCycle
open DaapLog.Runs
open DaapLog.TlsTransport
open DaapLog.TracedCalls

/-- A connection is made with a live context, written to behind a handshake, and nothing
is freed twice. -/
def TlsEvent.Ok : TlsEvent → Prop
  | .SSL_new sslctx => sslctx = .live
  | .SSL_write cSSL handshaken => cSSL = .live ∧ handshaken = true
  | .SSL_CTX_free sslctx => sslctx ≠ .freed
  | .SSL_free cSSL => cSSL ≠ .freed

/-- A message that gets its TCP connection finds a live context and its handshake
succeeds. -/
def Served (t : Tls) (io : WriteIo) : Prop :=
  io.Reaches → t.sslctx = .live ∧ io.SSL_connect = 1

def Intact (t : Tls) : Prop := t.sslctx ≠ .freed ∧ t.cSSL ≠ .freed

section Messages

variable {t : Tls} {io : WriteIo} {buf_size : Nat}

theorem daapTCPLogWrite_of_served (hintact : Intact t) (hserved : Served t io) (buf_size : Nat) :
    (∀ e ∈ (daapTCPLogWrite io buf_size t).2.1, TlsEvent.Ok e) ∧
      Intact (daapTCPLogWrite io buf_size t).1 := by
  have hcases := daapTCPLogWrite_cases io buf_size t
  generalize daapTCPLogWrite io buf_size t = r at hcases
  cases hcases with
  | noSocket h => exact ⟨nofun, hintact⟩
  | noServer hsocket h => exact ⟨nofun, hintact⟩
  | noContext hreaches h => exact absurd (hserved hreaches).1 h
  | noHandshake hreaches hctx h =>
      have hone := (hserved hreaches).2
      omega
  | connected hreaches hctx h =>
      obtain ⟨-, hone⟩ := hserved hreaches
      have hopen : (t.openSocket.openConnection (io.SSL_connect = 1)).handshaken = true :=
        decide_eq_true hone
      obtain ⟨hsslctx, hcSSL⟩ :=
        writeLoop_handles io buf_size (t.openSocket.openConnection (io.SSL_connect = 1))
      constructor
      · intro e he
        rcases List.mem_cons.mp he with rfl | he
        · rfl
        · rw [writeLoop_events] at he
          obtain ⟨call, -, rfl⟩ := List.mem_map.mp he
          exact ⟨rfl, hopen⟩
      · rw [Intact, hsslctx, hcSSL]
        exact ⟨hintact.1, nofun⟩

/-- A rule is broken, or the call returns and leaves a freed context. -/
def Ruins (r : Traced Tls TlsEvent Int) : Prop :=
  (∃ e ∈ r.2.1, ¬TlsEvent.Ok e) ∨ (∃ ret, r.2.2 = .returns ret) ∧ r.1.sslctx = .freed

theorem daapTCPLogWrite_ruins (hsize : buf_size ≠ 0)
    (h : ¬Served t io ∨ t.sslctx = .freed) : Ruins (daapTCPLogWrite io buf_size t) := by
  have hcases := daapTCPLogWrite_cases io buf_size t
  generalize daapTCPLogWrite io buf_size t = r at hcases
  -- without a connection the message is served, so the context is freed
  have hfreed : ¬io.Reaches → t.sslctx = .freed :=
    fun hreaches => h.resolve_left fun hserved => hserved fun h => absurd h hreaches
  cases hcases with
  | noSocket hsocket =>
      refine .inr ⟨⟨_, rfl⟩, hfreed fun h => ?_⟩
      exact absurd h.1 (not_le.mpr hsocket)
  | noServer hsocket hconnect => exact .inr ⟨⟨_, rfl⟩, hfreed fun h => hconnect h.2⟩
  | noContext hreaches hctx => exact .inl ⟨_, List.mem_singleton_self _, hctx⟩
  | noHandshake hreaches hctx hshake => exact .inr ⟨⟨_, rfl⟩, rfl⟩
  | connected hreaches hctx hshake =>
      have hone : io.SSL_connect ≠ 1 := by
        intro hone
        refine h.elim (fun hserved => hserved fun _ => ⟨hctx, hone⟩) fun hfreed => ?_
        rw [hctx] at hfreed
        exact absurd hfreed nofun
      obtain ⟨call, hcall⟩ := List.exists_mem_of_ne_nil _
        (calls_ne_nil io.SSL_write hsize io.rounds)
      refine .inl ⟨.SSL_write .live (io.SSL_connect = 1), List.mem_cons_of_mem _ ?_, ?_⟩
      · rw [writeLoop_events]
        exact List.mem_map.mpr ⟨call, hcall, rfl⟩
      · exact fun hok => hone (of_decide_eq_true hok.2)

end Messages

/-- The transport and the results with which a call hands a line to it. -/
def Call.message (l : Library) : Call → Option (Tls × WriteIo)
  | .daapInit args =>
      if l.daapInit_called then none
      else
        match args.hostname, args.transport_type, daapInitializeSSL args.setup l.tls with
        | .ok _, .TCP, (tls, .returns _) =>
            if (l.readRank args.env).daapRank_zero && args.env.automatic then
              some (tls, args.io.write)
            else none
        | _, _, _ => none
  | .daapFinalize env io =>
      if l.daapRank_zero && env.automatic then line l io else none
  | .daapSetRank _ => none
  | .daapLogWrite _ io => line l io
  | .daapLogRawWrite _ io => line l io
  | .daapLogHeartbeat io => line l io
  | .daapLogJobStart io => line l io
  | .daapLogJobDuration _ io => line l io
  | .daapLogJobEnd io => line l io
where
  line (l : Library) (io : LogIo) : Option (Tls × WriteIo) :=
    if l.daapInit_called && l.transport_type = .TCP then some (l.tls, io.write) else none

/-- The call breaks no rule, as far as it gets. -/
def HandlesOk (l : Library) (c : Call) : Prop :=
  ∀ e, .tls e ∈ (c.perform l).2.1 → TlsEvent.Ok e

/-- The message of a call is served, if it has one. -/
def MessageServed (l : Library) (c : Call) : Prop :=
  ∀ t io, Call.message l c = some (t, io) → Served t io

def Named (l : Library) : Prop := l.daapInit_called = true → l.init_data.isSome = true

/-- The context of an initialised library is gone. -/
def Broken (l : Library) : Prop := l.daapInit_called = true ∧ l.tls.sslctx = .freed

section Lines

variable {α : Type} {l : Library}

def TlsOk (events : List Event) : Prop := ∀ e, .tls e ∈ events → TlsEvent.Ok e

theorem tlsOk_map {events : List TlsEvent} (h : ∀ e ∈ events, TlsEvent.Ok e) :
    TlsOk (events.map .tls) := by
  intro e he
  obtain ⟨e', he', heq⟩ := List.mem_map.mp he
  rw [← Event.tls.inj heq]
  exact h e' he'

/-- What a call with a line for the transport, or with none, makes of the handles. -/
structure Behaves (l : Library) (message : Option (Tls × WriteIo)) (r : Traced Library Event α) :
    Prop where
  served : Intact l.tls → (∀ t io, message = some (t, io) → Served t io) →
    TlsOk r.2.1 ∧ Intact r.1.tls
  ruins : Broken l ∨ (∃ t io, message = some (t, io) ∧ ¬Served t io) →
    ¬TlsOk r.2.1 ∨ (∃ ret, r.2.2 = .returns ret) ∧ Broken r.1

theorem behaves_silent {r : Traced Library Event α} (hevents : ∀ e, .tls e ∉ r.2.1)
    (htls : r.1.tls = l.tls) (hcalled : r.1.daapInit_called = l.daapInit_called)
    (hreturns : ∃ ret, r.2.2 = .returns ret) : Behaves l none r := by
  refine ⟨fun hintact _ => ⟨fun e he => absurd he (hevents e), ?_⟩, ?_⟩
  · rw [htls]
    exact hintact
  · rintro (hbroken | ⟨t, io, h, -⟩)
    · refine .inr ⟨hreturns, ?_⟩
      rw [Broken, htls, hcalled]
      exact hbroken
    · exact absurd h nofun

theorem behaves_map {β : Type} {message : Option (Tls × WriteIo)} {r : Traced Library Event α}
    (h : Behaves l message r) (f : α → β) :
    Behaves l message (r.1, r.2.1, r.2.2.map f) := by
  refine ⟨h.served, fun hbad => (h.ruins hbad).imp_right ?_⟩
  rintro ⟨⟨ret, hret⟩, hbroken⟩
  exact ⟨⟨f ret, Ending.map_eq_returns_iff.mpr ⟨ret, hret, rfl⟩⟩, hbroken⟩

theorem behaves_transmit (hcalled : l.daapInit_called = true)
    {influx_str : Text} (hline : influx_str ≠ []) {event : Event} (hevent : ∀ e, event ≠ .tls e)
    (io : LogIo) :
    Behaves l (Call.message.line l io)
      ((l.transmit influx_str io.write).1, event :: (l.transmit influx_str io.write).2.1,
        (l.transmit influx_str io.write).2.2) := by
  by_cases htcp : l.transport_type = .TCP
  · have hsize : influx_str.length ≠ 0 := fun h => hline (List.length_eq_zero_iff.mp h)
    have hmessage : Call.message.line l io = some (l.tls, io.write) := by
      rw [Call.message.line, hcalled, decide_eq_true htcp]
      rfl
    rw [hmessage, transmit_of_tcp l htcp]
    constructor
    · intro hintact hserved
      obtain ⟨hevents, hafter⟩ :=
        daapTCPLogWrite_of_served hintact (hserved l.tls io.write rfl) influx_str.length
      refine ⟨?_, hafter⟩
      intro e he
      rcases List.mem_cons.mp he with he | he
      · exact absurd he.symm (hevent e)
      · exact tlsOk_map hevents e he
    · intro hbad
      have hruins : ¬Served l.tls io.write ∨ l.tls.sslctx = .freed := by
        rcases hbad with hbroken | ⟨t, io', h, hserved⟩
        · exact .inr hbroken.2
        · obtain ⟨rfl, rfl⟩ := Prod.mk.inj (Option.some.inj h)
          exact .inl hserved
      rcases daapTCPLogWrite_ruins hsize hruins with ⟨e, he, hok⟩ | ⟨⟨ret, hret⟩, hfreed⟩
      · refine .inl fun hall => hok (hall e ?_)
        exact List.mem_cons_of_mem _ (List.mem_map_of_mem he)
      · exact .inr ⟨⟨_, Ending.map_eq_returns_iff.mpr ⟨ret, hret, rfl⟩⟩, hcalled, hfreed⟩
  · obtain ⟨hstate, hevents, hreturns⟩ := transmit_of_not_tcp l htcp influx_str io.write
    have hmessage : Call.message.line l io = none := by
      rw [Call.message.line, hcalled, decide_eq_false htcp]
      rfl
    rw [hmessage]
    refine behaves_silent ?_ (congrArg Library.tls hstate)
      (congrArg Library.daapInit_called hstate) ⟨_, hreturns⟩
    intro e he
    exact (List.mem_cons.mp he).elim (fun he => hevent e he.symm) (hevents e)

theorem line_of_uninitialised (h : l.daapInit_called = false) (io : LogIo) :
    Call.message.line l io = none := by
  rw [Call.message.line, h]
  rfl

theorem behaves_daapLogWrite (hnamed : Named l) (origin : Origin) (formatted : Text)
    (io : LogIo) :
    Behaves l (Call.message.line l io) (l.daapLogWrite origin formatted io) := by
  rw [Library.daapLogWrite]
  cases hcalled : l.daapInit_called with
  | false =>
      rw [line_of_uninitialised hcalled]
      exact behaves_silent (fun e => List.not_mem_nil) rfl rfl ⟨_, rfl⟩
  | true =>
      obtain ⟨init_data, hdata⟩ := Option.isSome_iff_exists.mp (hnamed hcalled)
      simp only [Bool.not_true, Bool.false_eq_true, if_false, hdata]
      refine behaves_transmit hcalled (daapBuildInflux_ne_nil _ _ _) ?_ io
      simp

theorem behaves_daapLogRawWrite (l : Library) (formatted : Text) (io : LogIo) :
    Behaves l (Call.message.line l io) (l.daapLogRawWrite formatted io) := by
  rw [Library.daapLogRawWrite]
  cases hcalled : l.daapInit_called with
  | false =>
      rw [line_of_uninitialised hcalled]
      exact behaves_silent (fun e => List.not_mem_nil) rfl rfl ⟨_, rfl⟩
  | true =>
      simp only [Bool.not_true, Bool.false_eq_true, if_false]
      refine behaves_transmit hcalled (daapBuildRawInflux_ne_nil _) ?_ io
      simp

end Lines

section Initialising

variable {l : Library}

theorem daapInitializeSSL_intact {t : Tls} (setup : Setup) (h : Intact t) :
    Intact (daapInitializeSSL setup t).1 := by
  rw [daapInitializeSSL]
  split
  · exact h
  split
  · split
    · exact h
    split
    · exact h
    split
    · exact ⟨nofun, h.2⟩
    · exact ⟨nofun, h.2⟩
  · exact h

/-- What a call does to the handles of an uninitialised library, by what it does behind
the set-up of the transport. -/
theorem behaves_of_setup {α : Type} {l' : Library} {message : Option (Tls × WriteIo)}
    {r : Traced Library Event α} (h : Behaves l' message r)
    (hintact : Intact l.tls → Intact l'.tls) (hcalled : l.daapInit_called = false) :
    Behaves l message r := by
  refine ⟨fun hl hserved => h.served (hintact hl) hserved, ?_⟩
  rintro (hbroken | hbad)
  · exact absurd (hcalled.symm.trans hbroken.1) nofun
  · exact h.ruins (.inr hbad)

theorem behaves_finishInit {names : Names} (hholds : Holds l names) (args : InitArgs) :
    ∃ l', l'.tls = l.tls ∧ Behaves l'
      (if (l.readRank args.env).daapRank_zero && args.env.automatic && l.transport_type = .TCP then
        some (l.tls, args.io.write) else none) (l.finishInit args) := by
  obtain ⟨zero, rank, hrank⟩ := readRank_frame { l with daapInit_called := true } args.env
  have hzero : (l.readRank args.env).daapRank_zero = zero := by
    rw [readRank_daapRank_zero, ← readRank_daapRank_zero { l with daapInit_called := true }, hrank]
  have hnamed : Named { l with daapInit_called := true, daapRank_zero := zero, mpi_rank := rank } :=
    fun _ => init_data_isSome_iff.mpr ⟨names, hholds⟩
  refine ⟨{ l with daapInit_called := true, daapRank_zero := zero, mpi_rank := rank }, rfl, ?_⟩
  rw [Library.finishInit, hrank, hzero]
  cases hautomatic : zero && args.env.automatic with
  | true => exact behaves_daapLogWrite hnamed .jobStart jobstartText args.io
  | false => exact behaves_silent (fun e => List.not_mem_nil) rfl rfl ⟨_, rfl⟩

theorem behaves_of_tls {α : Type} {r : Traced Library Event α}
    (hcalled : l.daapInit_called = false) (hevents : ∀ e, .tls e ∉ r.2.1)
    (htls : Intact l.tls → Intact r.1.tls) : Behaves l none r := by
  refine ⟨fun hintact _ => ⟨fun e he => absurd he (hevents e), htls hintact⟩, ?_⟩
  rintro (hbroken | ⟨t, io, h, -⟩)
  · exact absurd (hcalled.symm.trans hbroken.1) nofun
  · exact absurd h nofun

theorem behaves_finishInit_of_setup (args : InitArgs) (name : Text)
    (hcalled : l.daapInit_called = false) (tls : Tls) (hintact : Intact l.tls → Intact tls) :
    Behaves l
      (if (l.readRank args.env).daapRank_zero && args.env.automatic &&
        args.transport_type = .TCP then some (tls, args.io.write) else none)
      ({ l.populate args name with tls := tls }.finishInit args) := by
  obtain ⟨l', htls, hbehaves⟩ := behaves_finishInit
    (holds_populate l args name tls) args
  rw [readRank_daapRank_zero] at hbehaves
  rw [readRank_daapRank_zero]
  refine behaves_of_setup hbehaves ?_ hcalled
  rw [htls]
  exact hintact

theorem behaves_daapInit (args : InitArgs) :
    Behaves l (Call.message l (.daapInit args)) (l.daapInit args) := by
  rw [Call.message]
  cases hcalled : l.daapInit_called with
  | true =>
      rw [daapInit_of_called hcalled]
      exact behaves_silent (fun e => List.not_mem_nil) rfl rfl ⟨_, rfl⟩
  | false =>
      cases hname : args.hostname with
      | error error =>
          rw [daapInit_of_error hcalled hname]
          exact behaves_of_tls hcalled (fun e => List.not_mem_nil) id
      | ok name =>
          have hfinish := behaves_finishInit_of_setup args name hcalled
          rw [daapInit_of_ok hcalled hname]
          rcases eq_or_ne args.transport_type .TCP with htcp | htcp
          · simp only [htcp, decide_true, Bool.and_true] at hfinish ⊢
            have hsetup := daapInitializeSSL_intact args.setup (t := l.tls)
            cases hinit : daapInitializeSSL args.setup l.tls with
            | mk tls ending =>
                rw [hinit] at hsetup
                cases ending with
                | returns value =>
                    rw [initTransport_of_setup (l := l.populate args name) htcp hinit]
                    exact hfinish tls hsetup
                | _ =>
                    have hstuck : ∀ value, (daapInitializeSSL args.setup l.tls).2 ≠
                        .returns value := by
                      rw [hinit]
                      exact fun value => nofun
                    rw [initTransport_of_stuck (l := l.populate args name) htcp hstuck]
                    refine behaves_of_tls hcalled (fun e => List.not_mem_nil) ?_
                    exact daapInitializeSSL_intact args.setup
          · simp only [htcp, decide_false, Bool.and_false, Bool.false_eq_true, if_false] at hfinish
            rw [initTransport_of_not_tcp htcp]
            rw [if_neg Bool.false_ne_true]
            split
            · next htransport _ => exact absurd htransport htcp
            · exact hfinish l.tls id

end Initialising

section Calls

variable {l : Library} {spec : Option Names}

theorem named_of_inv (hinv : Inv spec l) : Named l := by
  intro hcalled
  rw [hinv.1.1] at hcalled
  obtain ⟨names, hnames⟩ := Option.isSome_iff_exists.mp hcalled
  exact init_data_isSome_iff.mpr ⟨names, hinv.1.2 names hnames⟩

def Call.Finalizes : Call → Prop
  | .daapFinalize _ _ => True
  | _ => False

theorem behaves_perform (hinv : Inv spec l) {c : Call} (hc : ¬Call.Finalizes c) :
    Behaves l (Call.message l c) (c.perform l) := by
  have hnamed := named_of_inv hinv
  cases c with
  | daapInit args => exact behaves_map (behaves_daapInit args) some
  | daapFinalize env io => exact absurd trivial hc
  | daapSetRank rank => exact behaves_silent (fun e => List.not_mem_nil) rfl rfl ⟨_, rfl⟩
  | daapLogRawWrite formatted io =>
      exact behaves_map (behaves_daapLogRawWrite l formatted io) some
  | daapLogWrite formatted io =>
      exact behaves_map (behaves_daapLogWrite hnamed .caller formatted io) some
  | daapLogHeartbeat io =>
      exact behaves_map (behaves_daapLogWrite hnamed .caller heartbeatText io) some
  | daapLogJobStart io =>
      exact behaves_map (behaves_daapLogWrite hnamed .caller jobstartText io) some
  | daapLogJobDuration cur_time io =>
      exact behaves_map (behaves_daapLogWrite hnamed .caller (l.jobdurationText cur_time) io) some
  | daapLogJobEnd io =>
      exact behaves_map (behaves_daapLogWrite hnamed .caller jobendText io) some

end Calls

section Finalising

variable {l : Library} {spec : Option Names}

theorem behaves_finalMessage (hnamed : Named l) (env : Environment) (io : LogIo) :
    Behaves l (Call.message l (.daapFinalize env io)) (l.finalMessage env io) := by
  rw [Call.message, Library.finalMessage]
  cases l.daapRank_zero && env.automatic with
  | true => exact behaves_map (behaves_daapLogWrite hnamed .jobEnd jobendText io) some
  | false => exact behaves_silent (fun e => List.not_mem_nil) rfl rfl ⟨_, rfl⟩

theorem freeConnection_ok {t : Tls} (h : t.cSSL ≠ .freed) :
    ∀ e ∈ (freeConnection t).2.1, TlsEvent.Ok e := by
  intro e he
  rw [freeConnection] at he
  cases hconn : t.cSSL with
  | null => simp [hconn] at he
  | live =>
      simp only [hconn] at he
      obtain rfl := List.mem_singleton.mp he
      simp [TlsEvent.Ok]
  | freed => exact absurd hconn h

theorem shutdownTransport_ok (h : Intact l.tls) : TlsOk l.shutdownTransport.2.1 := by
  refine tlsOk_map ?_
  rw [daapShutdownSSL]
  cases hctx : l.tls.sslctx with
  | null => exact List.forall_mem_cons.mpr ⟨by simp [TlsEvent.Ok], freeConnection_ok h.2⟩
  | live => exact List.forall_mem_cons.mpr ⟨by simp [TlsEvent.Ok], freeConnection_ok h.2⟩
  | freed => exact absurd hctx h.1

theorem shutdownTransport_of_freed (h : l.tls.sslctx = .freed) :
    .tls (.SSL_CTX_free .freed) ∈ l.shutdownTransport.2.1 := by
  rw [Library.shutdownTransport, daapShutdownSSL, h]
  exact List.mem_singleton_self _

theorem daapFinalize_ok (hinv : Inv spec l) (hintact : Intact l.tls) {env : Environment}
    {io : LogIo} (h : MessageServed l (.daapFinalize env io)) :
    HandlesOk l (.daapFinalize env io) := by
  obtain ⟨hevents, hafter⟩ := (behaves_finalMessage (named_of_inv hinv) env io).served hintact h
  intro e he
  rcases mem_andThen_events he with he | ⟨ret, -, he⟩
  · rcases mem_andThen_events he with he | ⟨ret, -, he⟩
    · exact hevents e he
    · exact shutdownTransport_ok hafter e he
  · simp [Library.freeStrings] at he

theorem daapFinalize_fails (hinv : Inv spec l) {env : Environment} {io : LogIo}
    (h : Broken l ∨ ¬MessageServed l (.daapFinalize env io)) :
    ¬HandlesOk l (.daapFinalize env io) := by
  have hbad : Broken l ∨ ∃ t w, Call.message l (.daapFinalize env io) = some (t, w) ∧
      ¬Served t w := by
    simpa [MessageServed] using h
  intro hok
  rcases (behaves_finalMessage (named_of_inv hinv) env io).ruins hbad with
    hevents | ⟨⟨ret, hret⟩, hbroken⟩
  · exact hevents fun e he => hok e (mem_andThen_of_first (mem_andThen_of_first he))
  · refine hok (.SSL_CTX_free .freed) (mem_andThen_of_first ?_) rfl
    exact mem_andThen_of_second hret (shutdownTransport_of_freed hbroken.2)

end Finalising

section Runs

variable {l : Library} {spec : Option Names} {front : List Call}

theorem not_spoils_of_not_finalizes {c : Call} (hc : ¬Call.Finalizes c) : ¬Spoils l c := by
  cases c with
  | daapFinalize env io => exact absurd trivial hc
  | _ => exact id

/-- With a freed context some rule is broken, at the latest at the end. -/
theorem handlesOk_fails_of_broken (hfront : ∀ c ∈ front, ¬Call.Finalizes c) (hinv : Inv spec l)
    (hbroken : Broken l) (env : Environment) (io : LogIo) :
    ¬Throughout step (fun _ => HandlesOk) l (front ++ [.daapFinalize env io]) := by
  induction front generalizing l spec with
  | nil =>
      rw [List.nil_append, throughout_cons]
      rintro ⟨hok, -⟩
      exact daapFinalize_fails hinv (.inl hbroken) hok
  | cons c rest ih =>
      obtain ⟨hc, hrest⟩ := List.forall_mem_cons.mp hfront
      rw [List.cons_append, throughout_cons]
      rintro ⟨hok, hlater⟩
      rcases (behaves_perform hinv hc).ruins (.inl hbroken) with hevents | ⟨hreturns, hafter⟩
      · exact hevents hok
      · have hstep := step_eq_some_iff.mpr ⟨hreturns, rfl⟩
        exact ih hrest (inv_step hinv (not_spoils_of_not_finalizes hc) hstep) hafter
          (hlater _ hstep)

theorem handlesOk_iff_of_intact (hfront : ∀ c ∈ front, ¬Call.Finalizes c) (hinv : Inv spec l)
    (hintact : Intact l.tls) (env : Environment) (io : LogIo) :
    Throughout step (fun _ => HandlesOk) l (front ++ [.daapFinalize env io]) ↔
      Throughout step (fun _ => MessageServed) l (front ++ [.daapFinalize env io]) := by
  induction front generalizing l spec with
  | nil =>
      rw [List.nil_append, throughout_cons, throughout_cons]
      refine and_congr ⟨fun hok => ?_, daapFinalize_ok hinv hintact⟩
        (forall₂_congr fun r _ => iff_of_true throughout_nil throughout_nil)
      by_contra hserved
      exact daapFinalize_fails hinv (.inr hserved) hok
  | cons c rest ih =>
      obtain ⟨hc, hrest⟩ := List.forall_mem_cons.mp hfront
      rw [List.cons_append, throughout_cons, throughout_cons]
      have hbehaves := behaves_perform hinv hc
      by_cases hserved : MessageServed l c
      · obtain ⟨hok, hafter⟩ := hbehaves.served hintact hserved
        refine and_congr (iff_of_true hok hserved) (forall₂_congr fun r hstep => ?_)
        have hinv' := inv_step hinv (not_spoils_of_not_finalizes hc) hstep
        obtain ⟨-, rfl⟩ := step_eq_some_iff.mp hstep
        exact ih hrest hinv' hafter
      · refine iff_of_false ?_ fun h => hserved h.1
        rintro ⟨hok, hlater⟩
        have hbad : ∃ t io, Call.message l c = some (t, io) ∧ ¬Served t io := by
          simpa [MessageServed] using hserved
        rcases hbehaves.ruins (.inr hbad) with hevents | ⟨hreturns, hbroken⟩
        · exact hevents hok
        · have hstep := step_eq_some_iff.mpr ⟨hreturns, rfl⟩
          exact handlesOk_fails_of_broken hrest
            (inv_step hinv (not_spoils_of_not_finalizes hc) hstep) hbroken env io
            (hlater _ hstep)

/-- Over every sequence of calls in front of the final `daapFinalize`: the handles are
used by the rules exactly if every message that gets its connection finds a live context
and ends its handshake with success. -/
theorem handlesOk_throughout_iff (hfront : ∀ c ∈ front, ¬Call.Finalizes c) (env : Environment)
    (io : LogIo) :
    Throughout step (fun _ => HandlesOk) {} (front ++ [.daapFinalize env io]) ↔
      Throughout step (fun _ => MessageServed) {} (front ++ [.daapFinalize env io]) := by
  have hinv : Inv none {} := ⟨⟨rfl, nofun⟩, fun _ => ⟨rfl, rfl⟩⟩
  have hintact : Intact {} := ⟨by decide, by decide⟩
  exact handlesOk_iff_of_intact hfront hinv hintact env io

end Runs

/-- A process of a job that marks its start and end itself. -/
def decoupledEnv : Environment :=
  { serialEnv with DAAP_DECOUPLE := some ['1'], PMI_RANK := some ['3'] }

def decoupledInit : InitArgs := { tcpInit with env := decoupledEnv }

theorem handlesOk_throughout_heartbeat :
    Throughout step (fun _ => HandlesOk) {}
      ([.daapInit decoupledInit, .daapLogHeartbeat promptIo] ++
        [.daapFinalize decoupledEnv promptIo]) := by
  refine (handlesOk_throughout_iff (by simp [Call.Finalizes]) decoupledEnv promptIo).mpr ?_
  refine throughout_cons.mpr ⟨?_, ?_⟩
  · intro t io h
    exact absurd h nofun
  · intro r hr
    obtain rfl := Option.some.inj hr
    refine throughout_cons.mpr ⟨?_, ?_⟩
    · intro t io h _
      obtain ⟨rfl, rfl⟩ := Prod.mk.inj (Option.some.inj h)
      exact ⟨rfl, rfl⟩
    · intro r hr
      obtain rfl := Option.some.inj hr
      refine throughout_cons.mpr ⟨?_, fun _ _ => throughout_nil⟩
      intro t io h
      exact absurd h nofun

/-- After a failed handshake the final `daapFinalize` frees the context again. -/
theorem handlesOk_fails_on_handshake :
    ¬Throughout step (fun _ => HandlesOk) {}
      ([.daapInit decoupledInit,
        .daapLogHeartbeat { promptIo with write := { promptWrite with SSL_connect := -1 } }] ++
        [.daapFinalize decoupledEnv promptIo]) := by
  intro h
  have hok := h [.daapInit decoupledInit,
    .daapLogHeartbeat { promptIo with write := { promptWrite with SSL_connect := -1 } }]
    (.daapFinalize decoupledEnv promptIo) [] rfl _ rfl
  exact hok (.SSL_CTX_free .freed) (List.Mem.head _) rfl

end DaapLog.TlsLifeCycle
