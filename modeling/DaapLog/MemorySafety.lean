import DaapLog.GlobalAccesses

/-!
The memory of a process with threads: strings, the TLS context and the connection while
threads initialise and log, and in the `daapFinalize` behind all of them. Threads that do
different things without being joined in between have data races; the others have none.
-/

namespace DaapLog.MemorySafety

open DaapLog.ConcurrentInit (pair_phases)
open DaapLog.ConcurrentWrites (Call.logs heartbeats)
open DaapLog.CriticalSections
open DaapLog.CStrings
open DaapLog.DataRaces
open DaapLog.GlobalAccesses
open DaapLog.LibraryCalls
open DaapLog.LibraryThreads
open DaapLog.MutexOrder
open DaapLog.Runs
open DaapLog.Threads
open DaapLog.TlsTransport

/-- An object is there when it is used, and what is freed was not freed before. -/
def Valid : Event → Prop
  | .tls (.SSL_new sslctx) => sslctx = .live
  | .tls (.SSL_write cSSL _) => cSSL = .live
  | .tls (.SSL_CTX_free sslctx) => sslctx ≠ .freed
  | .tls (.SSL_free cSSL) => cSSL ≠ .freed
  | .release str => str ≠ .released
  | .syslog _ _ => True
  | .influx _ _ _ _ => True
  | .rawInflux _ => True

/-- The set-up makes a context. -/
def Certified (args : InitArgs) : Prop :=
  args.transport_type = .TCP →
    ∀ t, daapInitializeSSL args.setup t = ({ t with sslctx := .live }, .returns none)

/-- The handshake of a message does not fail. -/
def Shakes (io : LogIo) : Prop := 0 ≤ io.write.SSL_connect

/-- The calls up to the last one, and `daapFinalize`. -/
def Allowed (final : Bool) : Call → Prop
  | .daapInit args => final = false ∧ Certified args ∧ Shakes args.io
  | .daapFinalize _ io => final = true ∧ Shakes io
  | .daapSetRank _ => final = false
  | .daapLogWrite _ io => final = false ∧ Shakes io
  | .daapLogRawWrite _ io => final = false ∧ Shakes io
  | .daapLogHeartbeat io => final = false ∧ Shakes io
  | .daapLogJobStart io => final = false ∧ Shakes io
  | .daapLogJobDuration _ io => final = false ∧ Shakes io
  | .daapLogJobEnd io => final = false ∧ Shakes io

/-- All strings of `init_data` are there. -/
def Named (l : Library) : Prop := ∀ field, ∃ text, string l field = .live text

/-- A library that is set up for TLS has its context. -/
def Equipped (l : Library) : Prop := l.transport_type = .TCP → l.tls.sslctx = .live

/-- The globals between the calls: nothing is freed, and what the log calls use is there
once they may use it. -/
structure Sound (l : Library) : Prop where
  named : l.daapInit_called = true → Named l
  equipped : l.daapInit_called = true → Equipped l
  context : l.tls.sslctx ≠ .freed
  connection : l.tls.cSSL ≠ .freed
  strings : ∀ field, string l field ≠ .released

/-- A message on its way: the end of the job is logged by the last call. -/
structure Logging (final : Bool) (l : Library) (m : Message) : Prop where
  sound : Sound l
  origin : m.origin = .jobEnd ↔ final = true
  shakes : Shakes m.io

/-- A library that is being initialised. -/
structure Starting (final : Bool) (l : Library) (args : InitArgs) : Prop where
  final : final = false
  sound : Sound l
  called : l.daapInit_called = false
  transport : l.transport_type = args.transport_type
  certified : Certified args
  shakes : Shakes args.io

/-- What holds at a control point of a thread. -/
def Safe (final : Bool) (l : Library) : Point → Prop
  | .call c => Sound l ∧ Allowed final c
  | .log m => Logging final l m
  | .warn m => Logging final l m ∧ l.daapInit_called = true
  | .build m => Logging final l m ∧ l.daapInit_called = true
  | .transmit m line _ => Logging final l m ∧ l.daapInit_called = true ∧ Valid line
  | .socket m line _ =>
      Logging final l m ∧ l.daapInit_called = true ∧ l.transport_type = .TCP ∧ Valid line
  | .connect m _ => Logging final l m ∧ l.daapInit_called = true ∧ l.transport_type = .TCP
  | .SSL_new m _ => Logging final l m ∧ l.daapInit_called = true ∧ l.transport_type = .TCP
  | .SSL_connect m _ => Logging final l m ∧ l.tls.cSSL = .live
  | .SSL_write m _ _ => Logging final l m ∧ l.tls.cSSL = .live
  | .exit m => Logging final l m
  | .close m => Logging final l m
  | .unlockWrite m => Logging final l m
  | .SSL_CTX_free (.connect _) => False
  | .SSL_CTX_free (.finalize _) => final = true ∧ Sound l
  | .SSL_free (.connect _) => False
  | .SSL_free (.finalize _) =>
      final = true ∧ l.tls.cSSL ≠ .freed ∧ ∀ field, string l field ≠ .released
  | .testCalled args => final = false ∧ Sound l ∧ Certified args ∧ Shakes args.io
  | .nameHost args => Starting final l args ∧ ∃ appname, l.appname = .live appname
  | .nameCluster args => Starting final l args ∧ (∃ appname, l.appname = .live appname) ∧
      ∃ hostname, l.hostname = .live hostname
  | .setUp args => Starting final l args ∧ Named l
  | .reportSetUp args => Starting final l args ∧ Named l ∧ Equipped l
  | .reported args => Starting final l args ∧ Named l ∧ Equipped l
  | .setCalled args => Starting final l args ∧ Named l ∧ Equipped l
  | .unlockInit args => final = false ∧ Sound l ∧ Shakes args.io
  | .leaveInit _ => final = false ∧ Sound l
  | .rankZero args => final = false ∧ Sound l ∧ Shakes args.io
  | .mpiRank args => final = false ∧ Sound l ∧ Shakes args.io
  | .jobStart args => final = false ∧ Sound l ∧ Shakes args.io
  | .jobEnd _ io => final = true ∧ Sound l ∧ Shakes io
  | .free fields _ =>
      final = true ∧ fields.Nodup ∧ ∀ field ∈ fields, string l field ≠ .released
  | .unlockFinalize _ => final = true
  | .done _ => final = true ∨ Sound l

section Globals

variable {l l' : Library}

/-- A step that leaves the strings, the transport and the context as they are. -/
structure Undisturbed (l l' : Library) : Prop where
  called : l'.daapInit_called = l.daapInit_called
  transport : l'.transport_type = l.transport_type
  strings : ∀ field, string l' field = string l field
  context : l'.tls.sslctx = l.tls.sslctx

theorem Undisturbed.named (h : Undisturbed l l') (hnamed : Named l) : Named l' := by
  intro field
  rw [h.strings]
  exact hnamed field

theorem Undisturbed.equipped (h : Undisturbed l l') (hequipped : Equipped l) : Equipped l' := by
  intro htcp
  rw [h.context]
  exact hequipped (h.transport ▸ htcp)

theorem Sound.undisturbed (h : Sound l) (hsame : Undisturbed l l')
    (hconnection : l'.tls.cSSL ≠ .freed) : Sound l' where
  named hcalled := hsame.named (h.named (hsame.called ▸ hcalled))
  equipped hcalled := hsame.equipped (h.equipped (hsame.called ▸ hcalled))
  context := hsame.context ▸ h.context
  connection := hconnection
  strings field := hsame.strings field ▸ h.strings field

theorem Undisturbed.refl (l : Library) : Undisturbed l l := ⟨rfl, rfl, fun _ => rfl, rfl⟩

theorem undisturbed_tls {tls : Tls} (h : tls.sslctx = l.tls.sslctx) :
    Undisturbed l { l with tls := tls } :=
  ⟨rfl, rfl, fun _ => rfl, h⟩

theorem undisturbed_rank (daapRank_zero : Bool) (mpi_rank : Int) :
    Undisturbed l { l with daapRank_zero := daapRank_zero, mpi_rank := mpi_rank } :=
  ⟨rfl, rfl, fun _ => rfl, rfl⟩

theorem exists_init_data (h : Named l) : ∃ init_data, l.init_data = some init_data := by
  obtain ⟨appname, happname⟩ : ∃ text, l.appname = .live text := h .appname
  obtain ⟨hostname, hhostname⟩ : ∃ text, l.hostname = .live text := h .hostname
  obtain ⟨cluster_name, hcluster⟩ : ∃ text, l.cluster_name = .live text := h .cluster_name
  rw [Library.init_data, happname, hhostname, hcluster]
  exact ⟨_, rfl⟩

theorem named_of_strings (happname : ∃ text, l.appname = .live text)
    (hhostname : ∃ text, l.hostname = .live text)
    (hcluster : ∃ text, l.cluster_name = .live text) : Named l := by
  intro field
  cases field with
  | hostname => exact hhostname
  | appname => exact happname
  | cluster_name => exact hcluster

/-- While the library is not set up, nothing of it is needed. -/
theorem sound_of_not_called (h : l.daapInit_called = false) (hcontext : l.tls.sslctx ≠ .freed)
    (hconnection : l.tls.cSSL ≠ .freed) (hstrings : ∀ field, string l field ≠ .released) :
    Sound l where
  named hcalled := by cases h.symm.trans hcalled
  equipped hcalled := by cases h.symm.trans hcalled
  context := hcontext
  connection := hconnection
  strings := hstrings

end Globals

section Stages

variable {final : Bool} {l l' : Library} {args : InitArgs}

theorem Starting.keeps (h : Starting final l args)
    (hcalled : l'.daapInit_called = l.daapInit_called)
    (htransport : l'.transport_type = l.transport_type) (hcontext : l'.tls.sslctx ≠ .freed)
    (hconnection : l'.tls.cSSL ≠ .freed) (hstrings : ∀ field, string l' field ≠ .released) :
    Starting final l' args where
  final := h.final
  sound := sound_of_not_called (hcalled.trans h.called) hcontext hconnection hstrings
  called := hcalled.trans h.called
  transport := htransport.trans h.transport
  certified := h.certified
  shakes := h.shakes

theorem Starting.undisturbed (h : Starting final l args) (hsame : Undisturbed l l')
    (hsound : Sound l') : Starting final l' args :=
  h.keeps hsame.called hsame.transport hsound.context hsound.connection hsound.strings

end Stages

section Messages

variable {final : Bool} {l l' : Library} {m : Message}

theorem Logging.sounds (h : Logging final l m) (hsound : Sound l') : Logging final l' m :=
  ⟨hsound, h.origin, h.shakes⟩

theorem Logging.undisturbed (h : Logging final l m) (hsame : Undisturbed l l')
    (hconnection : l'.tls.cSSL ≠ .freed) : Logging final l' m :=
  h.sounds (h.sound.undisturbed hsame hconnection)

/-- Behind the last message the library is shut down. -/
theorem Logging.safe_afterLog (h : Logging final l m) (ret_val : Int) :
    Safe final l (afterLog ret_val m.origin) := by
  cases horigin : m.origin with
  | jobStart => exact .inr h.sound
  | jobEnd => exact ⟨h.origin.mp horigin, h.sound⟩
  | caller => exact .inr h.sound

theorem Logging.safe_afterWrite (h : Logging final l m) (hlive : l.tls.cSSL = .live)
    (buf_size : Nat) (loop : TcpLogWrite.WriteLoop) :
    Safe final l (.afterWrite m buf_size loop) := by
  rw [Point.afterWrite]
  cases loop.control with
  | writing => exact ⟨h, hlive⟩
  | left => exact h
  | exited => exact h

theorem exists_buildLine (hnamed : Named l) (m : Message) :
    ∃ line influx_str, buildLine l m = some (line, influx_str) ∧ Valid line := by
  obtain ⟨init_data, hinit_data⟩ := exists_init_data hnamed
  rw [buildLine, hinit_data]
  cases m.raw with
  | true => exact ⟨_, _, rfl, trivial⟩
  | false => exact ⟨_, _, rfl, trivial⟩

end Messages

section Steps

variable {l l' : Library} {point : Point}

theorem stays_enterCall {final : Bool} {c : Call} (hsound : Sound l) (h : Allowed final c) :
    StaysSafe (Safe final) Valid l (enterCall l c) := by
  have hlogs {raw : Bool} {formatted : Text} {io : LogIo} (h : final = false ∧ Shakes io) :
      Logging final l ⟨.caller, raw, formatted, io⟩ :=
    ⟨hsound, by simp [h.1], h.2⟩
  cases c with
  | daapInit args => exact ⟨h.1, hsound, h.2⟩
  | daapFinalize env io => exact ⟨h.1, hsound, h.2⟩
  | daapSetRank rank =>
      exact ⟨.inr (hsound.undisturbed (undisturbed_rank _ _) hsound.connection),
        fun _ he => absurd he List.not_mem_nil⟩
  | daapLogWrite formatted io => exact hlogs h
  | daapLogRawWrite formatted io => exact hlogs h
  | daapLogHeartbeat io => exact hlogs h
  | daapLogJobStart io => exact hlogs h
  | daapLogJobDuration cur_time io => exact hlogs h
  | daapLogJobEnd io => exact hlogs h

/-- No step is undefined or uses what is not there, and each leads to a control point that
is safe again. -/
theorem stays_code {final : Bool} (l : Library) (point : Point) (h : Safe final l point) :
    StaysSafe (Safe final) Valid l (code l point) := by
  have hnone : ∀ e ∈ ([] : List Event), Valid e := fun _ he => absurd he List.not_mem_nil
  have hone {e : Event} (he : Valid e) : ∀ e' ∈ [e], Valid e' := List.forall_mem_singleton.mpr he
  cases point with
  | call c => exact stays_enterCall h.1 h.2
  | log m =>
      rw [code]
      split
      · exact h.safe_afterLog _
      · next hcalled =>
          have hcalled : l.daapInit_called = true := by simpa using hcalled
          split
          · exact ⟨h, hcalled⟩
          · exact ⟨h, hcalled⟩
  | warn m => exact h
  | build m =>
      obtain ⟨hlog, hcalled⟩ := h
      obtain ⟨line, influx_str, hline, hvalid⟩ := exists_buildLine (hlog.sound.named hcalled) m
      rw [code, hline]
      exact ⟨hlog, hcalled, hvalid⟩
  | transmit m line influx_str =>
      obtain ⟨hlog, hcalled, hvalid⟩ := h
      rw [code]
      split
      · exact ⟨hlog.safe_afterLog _, hone hvalid⟩
      · exact ⟨hlog.safe_afterLog _, List.forall_mem_cons.mpr ⟨hvalid, hone trivial⟩⟩
      · next htcp => exact ⟨hlog, hcalled, htcp, hvalid⟩
  | socket m line buf_size =>
      obtain ⟨hlog, hcalled, htcp, hvalid⟩ := h
      rw [code]
      split
      · exact ⟨hlog, hone hvalid⟩
      · exact ⟨⟨hlog.undisturbed (undisturbed_tls rfl) hlog.sound.connection, hcalled, htcp⟩,
          hone hvalid⟩
  | connect m buf_size =>
      rw [code]
      split
      · exact h.1
      · exact h
  | SSL_new m buf_size =>
      obtain ⟨hlog, hcalled, htcp⟩ := h
      rw [code]
      split
      · next hctx => exact hctx (hlog.sound.equipped hcalled htcp)
      · exact ⟨⟨hlog.undisturbed (undisturbed_tls rfl) (by simp [Tls.openConnection]), rfl⟩,
          hone rfl⟩
  | SSL_connect m buf_size =>
      obtain ⟨hlog, hlive⟩ := h
      rw [code]
      split
      · next hshake => exact absurd hlog.shakes (not_le.mpr hshake)
      · exact ⟨⟨hlog.undisturbed (undisturbed_tls rfl) hlog.sound.connection, hlive⟩, hnone⟩
  | SSL_write m buf_size loop =>
      obtain ⟨hlog, hlive⟩ := h
      rw [code]
      split
      · exact hlog
      · exact ⟨hlog.safe_afterWrite hlive buf_size _, hone hlive⟩
  | exit m => trivial
  | close m =>
      exact ⟨h.undisturbed (undisturbed_tls rfl) h.sound.connection, hnone⟩
  | unlockWrite m => exact h.safe_afterLog _
  | SSL_CTX_free at_ =>
      cases at_ with
      | connect m => exact h.elim
      | finalize ret_val =>
          obtain ⟨hfinal, hsound⟩ := h
          rw [code]
          split
          · next hfreed => exact hsound.context hfreed
          · exact ⟨⟨hfinal, hsound.connection, hsound.strings⟩, hone Handle.noConfusion⟩
          · exact ⟨⟨hfinal, hsound.connection, hsound.strings⟩, hone Handle.noConfusion⟩
  | SSL_free at_ =>
      cases at_ with
      | connect m => exact h.elim
      | finalize ret_val =>
          obtain ⟨hfinal, hconnection, hstrings⟩ := h
          rw [code]
          split
          · next hfreed => exact hconnection hfreed
          · exact ⟨hfinal, by decide, fun field _ => hstrings field⟩
          · exact ⟨⟨hfinal, by decide, fun field _ => hstrings field⟩, hone Handle.noConfusion⟩
  | testCalled args =>
      obtain ⟨hfinal, hsound, hcertified, hshakes⟩ := h
      rw [code]
      split
      · exact ⟨hfinal, hsound⟩
      · next hcalled =>
          have hcalled : l.daapInit_called = false := by simpa using hcalled
          have hstrings : ∀ field, string (l.startInit args) field ≠ .released := by
            intro field
            cases field with
            | hostname => exact hsound.strings .hostname
            | appname => exact Str.noConfusion
            | cluster_name => exact hsound.strings .cluster_name
          exact ⟨⟨⟨hfinal, sound_of_not_called hcalled hsound.context hsound.connection hstrings,
            hcalled, rfl, hcertified, hshakes⟩, _, rfl⟩, hnone⟩
  | nameHost args =>
      obtain ⟨hstarting, happname⟩ := h
      rw [code]
      split
      · exact ⟨hstarting.final, hstarting.sound⟩
      · next name hname =>
          have hstrings : ∀ field, string { l with hostname := .live name } field ≠ .released := by
            intro field
            cases field with
            | hostname => exact Str.noConfusion
            | appname => exact hstarting.sound.strings .appname
            | cluster_name => exact hstarting.sound.strings .cluster_name
          have hstarting' : Starting final { l with hostname := .live name } args :=
            hstarting.keeps rfl rfl hstarting.sound.context hstarting.sound.connection hstrings
          exact ⟨⟨hstarting', happname, _, rfl⟩, hnone⟩
  | nameCluster args =>
      obtain ⟨hstarting, happname, hhostname⟩ := h
      have hstrings : ∀ field,
          string { l with cluster_name := .live args.cluster_name } field ≠ .released := by
        intro field
        cases field with
        | hostname => exact hstarting.sound.strings .hostname
        | appname => exact hstarting.sound.strings .appname
        | cluster_name => exact Str.noConfusion
      exact ⟨⟨hstarting.keeps rfl rfl hstarting.sound.context hstarting.sound.connection hstrings,
        named_of_strings happname hhostname ⟨_, rfl⟩⟩, hnone⟩
  | setUp args =>
      obtain ⟨hstarting, hnamed⟩ := h
      rw [code]
      split
      · next htcp =>
          rw [hstarting.certified htcp l.tls]
          have hstarting' : Starting final { l with tls := { l.tls with sslctx := .live } } args :=
            hstarting.keeps rfl rfl Handle.noConfusion hstarting.sound.connection
              hstarting.sound.strings
          refine ⟨?_, hnone⟩
          split
          · exact ⟨hstarting', hnamed, fun _ => rfl⟩
          · exact ⟨hstarting', hnamed, fun _ => rfl⟩
      · next htransport =>
          exact ⟨hstarting, hnamed, fun htcp => absurd (hstarting.transport ▸ htcp) htransport⟩
  | reportSetUp args => exact h
  | reported args => exact h
  | setCalled args =>
      obtain ⟨hstarting, hnamed, hequipped⟩ := h
      have hsound : Sound (raiseCalled l) :=
        ⟨fun _ => hnamed, fun _ => hequipped, hstarting.sound.context, hstarting.sound.connection,
          hstarting.sound.strings⟩
      exact ⟨⟨hstarting.final, hsound, hstarting.shakes⟩, hnone⟩
  | unlockInit args => exact h
  | leaveInit ret_val => exact .inr h.2
  | rankZero args =>
      obtain ⟨hfinal, hsound, hshakes⟩ := h
      exact ⟨⟨hfinal, hsound.undisturbed (undisturbed_rank _ _) hsound.connection, hshakes⟩,
        hnone⟩
  | mpiRank args =>
      obtain ⟨hfinal, hsound, hshakes⟩ := h
      exact ⟨⟨hfinal, hsound.undisturbed (undisturbed_rank _ _) hsound.connection, hshakes⟩,
        hnone⟩
  | jobStart args =>
      obtain ⟨hfinal, hsound, hshakes⟩ := h
      rw [code]
      split
      · exact ⟨hsound, by simp [hfinal], hshakes⟩
      · exact .inr hsound
  | jobEnd env io =>
      obtain ⟨hfinal, hsound, hshakes⟩ := h
      rw [code]
      split
      · exact ⟨hsound, by simp [hfinal], hshakes⟩
      · exact ⟨hfinal, hsound⟩
  | free fields ret_val =>
      cases fields with
      | nil => exact h.1
      | cons field fields =>
          obtain ⟨hfinal, hnodup, hstrings⟩ := h
          rw [List.nodup_cons] at hnodup
          rw [List.forall_mem_cons] at hstrings
          rw [code]
          split
          · next hreleased => exact hstrings.1 hreleased
          · refine ⟨⟨hfinal, hnodup.2, fun other hother => ?_⟩, hone hstrings.1⟩
            have hne : other ≠ field := fun heq => hnodup.1 (heq ▸ hother)
            rw [SoloCalls.string_freeString l hne]
            exact hstrings.2 other hother
  | unlockFinalize ret_val => exact .inl h
  | done ret_val => trivial

/-- What a step of one thread leaves alone: only the thread that initialises the library
changes more than the transport of a message, and the others do not need it yet. -/
def Frames (l : Library) (point : Point) : Action Mutex Library Event Point (Option Int) → Prop
  | .acts l' _ _ =>
      (Undisturbed l l' ∨ .init_mutex ∈ held point ∧ l.daapInit_called = false) ∧
        (l.tls.cSSL = .live → l'.tls.cSSL = .live)
  | _ => True

theorem frames_code (h : Safe false l point) : Frames l point (code l point) := by
  have hinit {l' : Library} {events : List Event} {next : Point} {args : InitArgs}
      (hheld : Mutex.init_mutex ∈ held point) (hstarting : Starting false l args)
      (htls : l'.tls.cSSL = l.tls.cSSL) : Frames l point (.acts l' events next) :=
    ⟨.inr ⟨hheld, hstarting.called⟩, fun hlive => htls.trans hlive⟩
  have hframe {l' : Library} {events : List Event} {next : Point}
      (hsame : Undisturbed l l') (htls : l'.tls.cSSL = l.tls.cSSL) :
      Frames l point (.acts l' events next) :=
    ⟨.inl hsame, fun hlive => htls.trans hlive⟩
  cases point with
  | call c =>
      cases c with
      | daapSetRank rank => exact hframe (undisturbed_rank _ _) rfl
      | _ => trivial
  | log m =>
      rw [code]
      split
      · trivial
      · split
        · trivial
        · trivial
  | warn m => trivial
  | build m =>
      rw [code]
      split
      · trivial
      · trivial
  | transmit m line influx_str =>
      rw [code]
      split
      · exact hframe (.refl l) rfl
      · exact hframe (.refl l) rfl
      · trivial
  | socket m line buf_size =>
      rw [code]
      split
      · exact hframe (undisturbed_tls rfl) rfl
      · exact hframe (undisturbed_tls rfl) rfl
  | connect m buf_size =>
      rw [code]
      split
      · trivial
      · trivial
  | SSL_new m buf_size =>
      rw [code]
      split
      · trivial
      · exact ⟨.inl (undisturbed_tls rfl), fun _ => rfl⟩
  | SSL_connect m buf_size =>
      rw [code]
      split
      · trivial
      · exact hframe (undisturbed_tls rfl) rfl
  | SSL_write m buf_size loop =>
      rw [code]
      split
      · trivial
      · exact hframe (.refl l) rfl
  | exit m => trivial
  | close m => exact hframe (undisturbed_tls rfl) rfl
  | unlockWrite m => trivial
  | SSL_CTX_free at_ =>
      cases at_ with
      | connect m => exact h.elim
      | finalize ret_val => cases h.1
  | SSL_free at_ =>
      cases at_ with
      | connect m => exact h.elim
      | finalize ret_val => cases h.1
  | testCalled args =>
      rw [code]
      split
      · trivial
      · next hcalled =>
          exact ⟨.inr ⟨List.mem_singleton_self _, by simpa using hcalled⟩, fun hlive => hlive⟩
  | nameHost args =>
      rw [code]
      split
      · trivial
      · exact hinit (List.mem_singleton_self _) h.1 rfl
  | nameCluster args => exact hinit (List.mem_singleton_self _) h.1 rfl
  | setUp args =>
      rw [code]
      split
      · next htcp =>
          rw [h.1.certified htcp l.tls]
          exact hinit (List.mem_singleton_self _) h.1 rfl
      · trivial
  | reportSetUp args => trivial
  | reported args => trivial
  | setCalled args => exact hinit (List.mem_singleton_self _) h.1 rfl
  | unlockInit args => trivial
  | leaveInit ret_val => trivial
  | rankZero args => exact hframe (undisturbed_rank _ _) rfl
  | mpiRank args => exact hframe (undisturbed_rank _ _) rfl
  | jobStart args =>
      rw [code]
      split
      · trivial
      · trivial
  | jobEnd env io => cases h.1
  | free fields ret_val => cases h.1
  | unlockFinalize ret_val => trivial
  | done ret_val => trivial

/-- A control point stays safe under the steps of the other threads. -/
theorem Safe.stable (h : Safe false l point) (hsound : Sound l')
    (hconnection : l.tls.cSSL = .live → l'.tls.cSSL = .live)
    (hcalled : l.daapInit_called = true → Undisturbed l l')
    (hinit : .init_mutex ∈ held point → Undisturbed l l') : Safe false l' point := by
  cases point with
  | call c => exact ⟨hsound, h.2⟩
  | log m => exact Logging.sounds h hsound
  | warn m => exact ⟨h.1.sounds hsound, (hcalled h.2).called.trans h.2⟩
  | build m => exact ⟨h.1.sounds hsound, (hcalled h.2).called.trans h.2⟩
  | transmit m line influx_str =>
      exact ⟨h.1.sounds hsound, (hcalled h.2.1).called.trans h.2.1, h.2.2⟩
  | socket m line buf_size =>
      have hsame := hcalled h.2.1
      exact ⟨h.1.sounds hsound, hsame.called.trans h.2.1, hsame.transport.trans h.2.2.1, h.2.2.2⟩
  | connect m buf_size =>
      have hsame := hcalled h.2.1
      exact ⟨h.1.sounds hsound, hsame.called.trans h.2.1, hsame.transport.trans h.2.2⟩
  | SSL_new m buf_size =>
      have hsame := hcalled h.2.1
      exact ⟨h.1.sounds hsound, hsame.called.trans h.2.1, hsame.transport.trans h.2.2⟩
  | SSL_connect m buf_size => exact ⟨h.1.sounds hsound, hconnection h.2⟩
  | SSL_write m buf_size loop => exact ⟨h.1.sounds hsound, hconnection h.2⟩
  | exit m => exact Logging.sounds h hsound
  | close m => exact Logging.sounds h hsound
  | unlockWrite m => exact Logging.sounds h hsound
  | SSL_CTX_free at_ =>
      cases at_ with
      | connect m => exact h.elim
      | finalize ret_val => cases h.1
  | SSL_free at_ =>
      cases at_ with
      | connect m => exact h.elim
      | finalize ret_val => cases h.1
  | testCalled args => exact ⟨h.1, hsound, h.2.2⟩
  | nameHost args =>
      have hsame := hinit (List.mem_singleton_self _)
      obtain ⟨hstarting, appname, happname⟩ := h
      exact ⟨hstarting.undisturbed hsame hsound, appname, (hsame.strings .appname).trans happname⟩
  | nameCluster args =>
      have hsame := hinit (List.mem_singleton_self _)
      obtain ⟨hstarting, ⟨appname, happname⟩, hostname, hhostname⟩ := h
      exact ⟨hstarting.undisturbed hsame hsound,
        ⟨appname, (hsame.strings .appname).trans happname⟩,
        hostname, (hsame.strings .hostname).trans hhostname⟩
  | setUp args =>
      have hsame := hinit (List.mem_singleton_self _)
      exact ⟨h.1.undisturbed hsame hsound, hsame.named h.2⟩
  | reportSetUp args =>
      have hsame := hinit (List.mem_singleton_self _)
      exact ⟨h.1.undisturbed hsame hsound, hsame.named h.2.1, hsame.equipped h.2.2⟩
  | reported args =>
      have hsame := hinit (List.mem_cons_of_mem _ (List.mem_singleton_self _))
      exact ⟨h.1.undisturbed hsame hsound, hsame.named h.2.1, hsame.equipped h.2.2⟩
  | setCalled args =>
      have hsame := hinit (List.mem_singleton_self _)
      exact ⟨h.1.undisturbed hsame hsound, hsame.named h.2.1, hsame.equipped h.2.2⟩
  | unlockInit args => exact ⟨h.1, hsound, h.2.2⟩
  | leaveInit ret_val => exact ⟨h.1, hsound⟩
  | rankZero args => exact ⟨h.1, hsound, h.2.2⟩
  | mpiRank args => exact ⟨h.1, hsound, h.2.2⟩
  | jobStart args => exact ⟨h.1, hsound, h.2.2⟩
  | jobEnd env io => cases h.1
  | free fields ret_val => cases h.1
  | unlockFinalize ret_val => exact h
  | done ret_val => exact .inr hsound

theorem sound_of_safe (h : Safe false l point) : Sound l := by
  cases point with
  | call c => exact h.1
  | log m => exact Logging.sound h
  | warn m => exact h.1.sound
  | build m => exact h.1.sound
  | transmit m line influx_str => exact h.1.sound
  | socket m line buf_size => exact h.1.sound
  | connect m buf_size => exact h.1.sound
  | SSL_new m buf_size => exact h.1.sound
  | SSL_connect m buf_size => exact h.1.sound
  | SSL_write m buf_size loop => exact h.1.sound
  | exit m => exact Logging.sound h
  | close m => exact Logging.sound h
  | unlockWrite m => exact Logging.sound h
  | SSL_CTX_free at_ =>
      cases at_ with
      | connect m => exact h.elim
      | finalize ret_val => exact h.2
  | SSL_free at_ =>
      cases at_ with
      | connect m => exact h.elim
      | finalize ret_val => cases h.1
  | testCalled args => exact h.2.1
  | nameHost args => exact h.1.sound
  | nameCluster args => exact h.1.sound
  | setUp args => exact h.1.sound
  | reportSetUp args => exact h.1.sound
  | reported args => exact h.1.sound
  | setCalled args => exact h.1.sound
  | unlockInit args => exact h.2.1
  | leaveInit ret_val => exact h.2
  | rankZero args => exact h.2.1
  | mpiRank args => exact h.2.1
  | jobStart args => exact h.2.1
  | jobEnd env io => exact h.2.1
  | free fields ret_val => cases h.1
  | unlockFinalize ret_val => cases h
  | done ret_val => exact h.resolve_left Bool.false_ne_true

theorem guarded_code : Guarded code held Sound (Safe false) Valid where
  sound _ _ := sound_of_safe
  stays := stays_code
  stable l l' point events next h hcode other hdisjoint hother := by
    have hframes := frames_code h
    have hstays := stays_code l point h
    rw [hcode] at hframes hstays
    obtain ⟨hsame, hconnection⟩ := hframes
    refine hother.stable (sound_of_safe hstays.1) hconnection (fun hcalled => ?_) fun hinit => ?_
    · rcases hsame with hsame | ⟨-, hnot⟩
      · exact hsame
      · cases hnot.symm.trans hcalled
    · rcases hsame with hsame | ⟨hheld, -⟩
      · exact hsame
      · exact absurd hinit (hdisjoint hheld)

end Steps

section Processes

variable {ι : Type*} [DecidableEq ι]

/-- What the threads do until they are joined: all of them initialise the library, or all of
them log, or one of them makes its calls alone. -/
inductive Phase (calls : ι → List Call) : Prop
  | initialising (h : ∀ i, ∀ c ∈ calls i, ∃ args, c = .daapInit args)
  | logging (h : ∀ i, ∀ c ∈ calls i, Call.logs c = true)
  | single (i : ι) (h : ∀ j, j ≠ i → calls j = [])

/-- The states that a process comes to in phases, with the events up to there. -/
inductive Reached : Process ι Mutex Library Event Point (Option Int) → List (ι × Event) → Prop
  | start : Reached (Process.start {} fun _ => []) []
  | phase {p : Process ι Mutex Library Event Point (Option Int)} {events : List (ι × Event)}
      {calls : ι → List Call} {schedule : List ι}
      {r : Process ι Mutex Library Event Point (Option Int) × List (ι × Event)}
      (h : Reached p events) (hdone : ∀ i, p.threads i = []) (hphase : Phase calls)
      (hcalls : ∀ i, ∀ c ∈ calls i, Allowed false c)
      (hrun : run (step code) (p.enter fun i => (calls i).map .call) schedule = some r) :
      Reached r.1 (events ++ r.2)

/-- No object is used before it is there or behind its free, nothing is freed twice, and no
two threads are about to race. -/
structure Faultless (p : Process ι Mutex Library Event Point (Option Int))
    (events : List (ι × Event)) : Prop where
  defined : p.ending ≠ .undefined
  valid : ∀ x ∈ events, Valid x.2
  raceless : ¬Racy reads writes p

/-- What the next phase starts from when all calls are over. -/
structure Settled (p : Process ι Mutex Library Event Point (Option Int)) : Prop where
  sound : Sound p.state
  owned : Owned held p.locked p.threads
  alive : (∀ i, p.threads i = []) → p.ending = .running

theorem sound_start : Sound {} :=
  sound_of_not_called rfl Handle.noConfusion Handle.noConfusion fun field => by
    cases field <;> exact Str.noConfusion

theorem not_racy_of_phase {l : Library} {calls : ι → List Call} {schedule : List ι}
    {r : Process ι Mutex Library Event Point (Option Int) × List (ι × Event)}
    (hphase : Phase calls)
    (hrun : run (step code) (Process.start l fun i => (calls i).map .call) schedule = some r) :
    ¬Racy reads writes r.1 := by
  cases hphase with
  | initialising h => exact not_racy_of_inits hrun h
  | logging h => exact not_racy_of_logs hrun h
  | single i h => exact not_racy_of_single hrun fun j hj => by rw [h j hj, List.map_nil]

theorem faultless_of_reached {p : Process ι Mutex Library Event Point (Option Int)}
    {events : List (ι × Event)} (h : Reached p events) : Faultless p events ∧ Settled p := by
  induction h with
  | start =>
      refine ⟨⟨nofun, fun x hx => absurd hx List.not_mem_nil, ?_⟩,
        sound_start, owned_start fun i l hl => absurd hl List.not_mem_nil, fun _ => rfl⟩
      rintro ⟨-, i, j, control, control', calls, calls', x, -, hi, -⟩
      cases hi
  | @phase p events calls schedule r h hdone hphase hcalls hrun ih =>
      obtain ⟨hfaultless, hsettled⟩ := ih
      rw [enter_of_done hsettled.owned (hsettled.alive hdone) hdone] at hrun
      have hentries : ∀ i, ∀ point ∈ (calls i).map Point.call, Safe false p.state point := by
        intro i point hpoint
        obtain ⟨c, hc, rfl⟩ := List.mem_map.mp hpoint
        exact ⟨hsettled.sound, hcalls i c hc⟩
      have hstart : Secure Sound (Safe false)
          (Process.start p.state fun i => (calls i).map Point.call) :=
        ⟨hsettled.sound, hentries, nofun⟩
      obtain ⟨hsecure, hvalid⟩ := secure_run ordered_code guarded_code owned_calls hstart hrun
      exact ⟨⟨hsecure.defined, List.forall_mem_append.mpr ⟨hfaultless.valid, hvalid⟩,
        not_racy_of_phase hphase hrun⟩, hsecure.sound, owned_of_run hrun, running_of_done hrun⟩

/-- Where the set-up makes a context and no handshake fails: a process may go through phases
of any number, in each of which threads initialise the library or log in any interleaving,
or one of them does anything else alone, and `daapFinalize` may follow behind them. -/
theorem memory_safe {p : Process ι Mutex Library Event Point (Option Int)}
    {events : List (ι × Event)} (h : Reached p events) :
    Faultless p events ∧
      ∀ last env io schedule r, (∀ i, p.threads i = []) → Shakes io →
        run (step code) (p.enter (Function.update (fun _ => []) last
          [.call (.daapFinalize env io)])) schedule = some r →
        Faultless r.1 (events ++ r.2) := by
  obtain ⟨hfaultless, hsettled⟩ := faultless_of_reached h
  refine ⟨hfaultless, fun last env io schedule r hdone hshakes hfinal => ?_⟩
  rw [enter_of_done hsettled.owned (hsettled.alive hdone) hdone] at hfinal
  have hentry : Safe true p.state (.call (.daapFinalize env io)) :=
    ⟨hsettled.sound, rfl, hshakes⟩
  obtain ⟨hdefined, hvalid⟩ := single_safe stays_code hentry hfinal
  exact ⟨hdefined, List.forall_mem_append.mpr ⟨hfaultless.valid, hvalid⟩,
    not_racy_of_single hfinal fun j hj => Function.update_of_ne hj _ _⟩

theorem memory_safe_pair :
    ∃ r r' r'' : Process (Fin 2) Mutex Library Event Point (Option Int) × List (Fin 2 × Event),
      run (step code) (Process.start {} fun _ => [.call (.daapInit tcpInit)])
        (List.replicate 7 0 ++ [1, 0, 1, 0, 1, 0, 1] ++ List.replicate 12 0) = some r ∧
      run (step code) (r.1.enter fun i => (heartbeats i).map .call)
        ([0, 1, 0, 1, 0, 1] ++ List.replicate 10 0 ++ List.replicate 10 1) = some r' ∧
      run (step code) (r'.1.enter (Function.update (fun _ => []) 0
        [.call (.daapFinalize serialEnv promptIo)])) (List.replicate 21 0) = some r'' ∧
      Faultless r'.1 (r.2 ++ r'.2) ∧ Faultless r''.1 (r.2 ++ r'.2 ++ r''.2) := by
  obtain ⟨r, r', r'', hinit, hready, -, hlog, hlogged, hfinal, -⟩ := pair_phases
  have hshakes : Shakes promptIo := Int.zero_le_ofNat 1
  have hinits : ∀ i : Fin 2, ∀ c ∈ [Call.daapInit tcpInit], Allowed false c := by
    intro i c hc
    rw [List.mem_singleton.mp hc]
    exact ⟨rfl, fun _ _ => rfl, hshakes⟩
  have hlogs : ∀ i, ∀ c ∈ heartbeats i, Allowed false c := by
    intro i c hc
    rw [List.mem_singleton.mp hc]
    exact ⟨rfl, hshakes⟩
  have hfirst : Reached r.1 ([] ++ r.2) :=
    .phase .start (fun _ => rfl) (.initialising fun i c hc => ⟨tcpInit, List.mem_singleton.mp hc⟩)
      hinits hinit
  have hthen : Reached r'.1 ([] ++ r.2 ++ r'.2) :=
    hfirst.phase hready (.logging fun i c hc => by rw [List.mem_singleton.mp hc]; rfl) hlogs hlog
  obtain ⟨hfaultless, hend⟩ := memory_safe hthen
  exact ⟨r, r', r'', hinit, hlog, hfinal, hfaultless,
    hend 0 serialEnv promptIo _ r'' hlogged hshakes hfinal⟩

end Processes

end DaapLog.MemorySafety
