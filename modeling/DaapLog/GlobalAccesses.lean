import DaapLog.ConcurrentInit
import DaapLog.DataRaces
import DaapLog.MutexOrder

/-!
The globals that the steps of the public calls read and write, and the races that calls of
one kind do not have: initialisations with one another, and log calls with one another.
-/

namespace DaapLog.GlobalAccesses

open DaapLog.ConcurrentInit
open DaapLog.ConcurrentWrites
open DaapLog.CriticalSections
open DaapLog.DataRaces
open DaapLog.LibraryCalls
open DaapLog.LibraryThreads
open DaapLog.MutexOrder
open DaapLog.OnceInitialisation
open DaapLog.Runs
open DaapLog.Threads
open DaapLog.TlsTransport (daapInitializeSSL)

/-- The globals. A string, a TLS object or a socket is one with its pointer or descriptor.
`deformat` has one buffer in each file. -/
inductive Global
  | daapInit_called
  | daapRank_zero
  | daap_hostname
  | appname
  | hostname
  | cluster_name
  | mpi_rank
  | level
  | transport_type
  | start_time
  | sslctx
  | cSSL
  | sockfd
  | daap_log_output_str
  | daap_tcp_output_str
  deriving DecidableEq, Repr

def stringGlobal : StringField → Global
  | .hostname => .hostname
  | .appname => .appname
  | .cluster_name => .cluster_name

/-- At most these globals are read by the step at a control point. The record of a line has
all of `init_data`, and `syslog` uses the name that was given to `openlog`. -/
def reads (_ : Library) : Point → List Global
  | .call (.daapLogJobDuration _ _) => [.start_time]
  | .log _ => [.daapInit_called]
  | .warn _ => [.daap_hostname]
  | .build m =>
      if m.raw then []
      else [.appname, .hostname, .cluster_name, .mpi_rank, .level, .transport_type, .start_time]
  | .transmit _ _ _ => [.transport_type, .level, .appname]
  | .connect _ _ => [.sockfd]
  | .SSL_new _ _ => [.sslctx, .sockfd]
  | .SSL_connect _ _ => [.cSSL]
  | .SSL_write _ _ _ => [.cSSL]
  | .close _ => [.sockfd]
  | .SSL_CTX_free _ => [.sslctx]
  | .SSL_free _ => [.cSSL]
  | .testCalled _ => [.daapInit_called]
  | .nameCluster _ => [.hostname]
  | .setUp _ => [.appname, .sslctx]
  | .reported _ => [.daap_hostname]
  | .rankZero _ => [.daapRank_zero]
  | .mpiRank _ => [.mpi_rank]
  | .jobStart _ => [.daapRank_zero]
  | .jobEnd _ _ => [.daapRank_zero]
  | .free (field :: _) _ => [stringGlobal field]
  | _ => []

/-- At most these globals are written by the step at a control point. -/
def writes (l : Library) : Point → List Global
  | .call (.daapSetRank _) => [.mpi_rank]
  | .warn _ => [.daap_log_output_str]
  | .socket _ _ _ => [.sockfd]
  | .SSL_new _ _ => [.cSSL]
  | .SSL_connect _ _ => [.cSSL]
  | .SSL_write _ _ _ => [.cSSL]
  | .SSL_CTX_free _ => [.sslctx]
  | .SSL_free _ => [.cSSL]
  | .testCalled _ =>
      if l.daapInit_called then [] else [.appname, .transport_type, .start_time, .mpi_rank]
  | .nameHost _ => [.hostname]
  | .nameCluster _ => [.daap_hostname, .cluster_name]
  | .setUp _ => [.sslctx]
  | .reported _ => [.daap_tcp_output_str]
  | .setCalled _ => [.daapInit_called]
  | .rankZero _ => [.daapRank_zero]
  | .mpiRank _ => [.mpi_rank]
  | .free (field :: _) _ => [stringGlobal field]
  | _ => []

/-- A global has the same value. The library record has no part for the descriptor, the
buffers and the copy of the host name. -/
def Agree : Global → Library → Library → Prop
  | .daapInit_called, l, l' => l.daapInit_called = l'.daapInit_called
  | .daapRank_zero, l, l' => l.daapRank_zero = l'.daapRank_zero
  | .appname, l, l' => l.appname = l'.appname
  | .hostname, l, l' => l.hostname = l'.hostname
  | .cluster_name, l, l' => l.cluster_name = l'.cluster_name
  | .mpi_rank, l, l' => l.mpi_rank = l'.mpi_rank
  | .level, l, l' => l.level = l'.level
  | .transport_type, l, l' => l.transport_type = l'.transport_type
  | .start_time, l, l' => l.start_time = l'.start_time
  | .sslctx, l, l' => l.tls.sslctx = l'.tls.sslctx
  | .cSSL, l, l' => l.tls.cSSL = l'.tls.cSSL ∧ l.tls.handshaken = l'.tls.handshaken
  | .daap_hostname, _, _ => True
  | .sockfd, _, _ => True
  | .daap_log_output_str, _, _ => True
  | .daap_tcp_output_str, _, _ => True

/-- What a step leaves alone. -/
def Unwritten (l : Library) (point : Point) : Action Mutex Library Event Point (Option Int) → Prop
  | .acts l' _ _ => ∀ x, x ∉ writes l point → Agree x l l'
  | _ => True

/-- Two steps do the same, and the same to the globals that are written. -/
def Alike (written : List Global) :
    Action Mutex Library Event Point (Option Int) →
      Action Mutex Library Event Point (Option Int) → Prop
  | .acts l events next, .acts l' events' next' =>
      events = events' ∧ next = next' ∧ ∀ x ∈ written, Agree x l l'
  | action, action' => action = action'

section Steps

variable {l l' : Library}

theorem Agree.refl (x : Global) (l : Library) : Agree x l l := by
  cases x <;> first | rfl | exact ⟨rfl, rfl⟩ | trivial

theorem Alike.refl (written : List Global)
    (action : Action Mutex Library Event Point (Option Int)) : Alike written action action := by
  cases action with
  | acts l events next => exact ⟨rfl, rfl, fun x _ => Agree.refl x l⟩
  | _ => rfl

theorem daapInitializeSSL_connection (setup : TlsTransport.Setup) (t : TlsTransport.Tls) :
    (daapInitializeSSL setup t).1.cSSL = t.cSSL ∧
      (daapInitializeSSL setup t).1.handshaken = t.handshaken := by
  rw [daapInitializeSSL]
  split
  · exact ⟨rfl, rfl⟩
  · split_ifs <;> exact ⟨rfl, rfl⟩

theorem daapInitializeSSL_congr (setup : TlsTransport.Setup) {t t' : TlsTransport.Tls}
    (h : t.sslctx = t'.sslctx) :
    (daapInitializeSSL setup t).1.sslctx = (daapInitializeSSL setup t').1.sslctx ∧
      (daapInitializeSSL setup t).2 = (daapInitializeSSL setup t').2 := by
  rw [daapInitializeSSL, daapInitializeSSL]
  split
  · exact ⟨h, rfl⟩
  · split_ifs <;> exact ⟨by first | exact h | rfl, rfl⟩

/-- Of the globals, only the context and the connection are parts of the TLS record. -/
theorem agree_tls {tls : TlsTransport.Tls} {x : Global}
    (hsslctx : x = .sslctx → l.tls.sslctx = tls.sslctx)
    (hconnection : x = .cSSL → l.tls.cSSL = tls.cSSL ∧ l.tls.handshaken = tls.handshaken) :
    Agree x l { l with tls := tls } := by
  cases x with
  | sslctx => exact hsslctx rfl
  | cSSL => exact hconnection rfl
  | _ => first | rfl | trivial

/-- A step changes no global that it is not said to write. -/
theorem unwritten_code (l : Library) (point : Point) : Unwritten l point (code l point) := by
  cases point with
  | call c =>
      cases c with
      | daapSetRank rank =>
          intro x hx
          cases x <;> simp_all [writes, Agree, Library.daapSetRank]
      | _ => trivial
  | log m =>
      rw [code]
      split
      · trivial
      · split
        · trivial
        · trivial
  | build m =>
      rw [code]
      split
      · trivial
      · trivial
  | transmit m line influx_str =>
      rw [code]
      split
      · exact fun x _ => Agree.refl x l
      · exact fun x _ => Agree.refl x l
      · trivial
  | socket m line buf_size =>
      rw [code]
      split
      · exact fun x _ => Agree.refl x l
      · exact fun x _ => agree_tls (fun _ => rfl) fun _ => ⟨rfl, rfl⟩
  | connect m buf_size =>
      rw [code]
      split
      · trivial
      · trivial
  | SSL_new m buf_size =>
      rw [code]
      split
      · trivial
      · intro x hx
        refine agree_tls (fun _ => rfl) ?_
        rintro rfl
        exact absurd List.mem_cons_self hx
  | SSL_connect m buf_size =>
      rw [code]
      split
      · trivial
      · intro x hx
        refine agree_tls (fun _ => rfl) ?_
        rintro rfl
        exact absurd List.mem_cons_self hx
  | SSL_write m buf_size loop =>
      rw [code]
      split
      · trivial
      · exact fun x _ => Agree.refl x l
  | close m =>
      exact fun x _ => agree_tls (fun _ => rfl) fun _ => ⟨rfl, rfl⟩
  | SSL_CTX_free at_ =>
      rw [code]
      split
      · trivial
      · exact fun x _ => Agree.refl x l
      · intro x hx
        refine agree_tls ?_ fun _ => ⟨rfl, rfl⟩
        rintro rfl
        exact absurd List.mem_cons_self hx
  | SSL_free at_ =>
      rw [code]
      split
      · trivial
      · trivial
      · intro x hx
        refine agree_tls (fun _ => rfl) ?_
        rintro rfl
        exact absurd List.mem_cons_self hx
  | testCalled args =>
      rw [code]
      split
      · trivial
      · intro x hx
        cases x <;> simp_all [writes, Agree, Library.startInit]
  | nameHost args =>
      rw [code]
      split
      · trivial
      · intro x hx
        cases x <;> simp_all [writes, Agree]
  | nameCluster args =>
      intro x hx
      cases x <;> simp_all [writes, Agree]
  | setUp args =>
      rw [code]
      split
      · split
        · next tls ret_val hsetup =>
            obtain ⟨hconnection, hhandshaken⟩ := daapInitializeSSL_connection args.setup l.tls
            rw [hsetup] at hconnection hhandshaken
            intro x hx
            refine agree_tls ?_ fun _ => ⟨hconnection.symm, hhandshaken.symm⟩
            rintro rfl
            exact absurd List.mem_cons_self hx
        · trivial
      · trivial
  | setCalled args =>
      intro x hx
      cases x <;> simp_all [writes, Agree, raiseCalled]
  | rankZero args =>
      intro x hx
      cases x <;> simp_all [writes, Agree, readZero]
  | mpiRank args =>
      intro x hx
      cases x <;> simp_all [writes, Agree, readMpiRank]
  | jobStart args =>
      rw [code]
      split
      · trivial
      · trivial
  | jobEnd env io =>
      rw [code]
      split
      · trivial
      · trivial
  | free fields ret_val =>
      cases fields with
      | nil => trivial
      | cons field fields =>
          rw [code]
          split
          · trivial
          · intro x hx
            cases field <;> cases x <;> simp_all [writes, Agree, stringGlobal, freeString]
  | _ => trivial

theorem init_data_congr (happname : l.appname = l'.appname) (hhostname : l.hostname = l'.hostname)
    (hcluster : l.cluster_name = l'.cluster_name) (hrank : l.mpi_rank = l'.mpi_rank)
    (hlevel : l.level = l'.level) (htransport : l.transport_type = l'.transport_type)
    (hstart : l.start_time = l'.start_time) : l.init_data = l'.init_data := by
  rw [Library.init_data, Library.init_data, happname, hhostname, hcluster, hrank, hlevel,
    htransport, hstart]

theorem jobdurationText_congr (h : l.start_time = l'.start_time) (cur_time : Nat) :
    l.jobdurationText cur_time = l'.jobdurationText cur_time := by
  unfold Library.jobdurationText
  rw [h]

/-- What a step does depends on no global that it is not said to read. -/
theorem alike_code {point : Point} (h : ∀ x ∈ reads l point, Agree x l l') :
    Alike (writes l point) (code l point) (code l' point) := by
  cases point with
  | call c =>
      cases c with
      | daapSetRank rank =>
          rw [code, code, enterCall, enterCall]
          exact ⟨rfl, rfl, List.forall_mem_singleton.mpr rfl⟩
      | daapLogJobDuration cur_time io =>
          have hstart : l.start_time = l'.start_time := h .start_time (by simp [reads])
          rw [code, code, enterCall, enterCall, jobdurationText_congr hstart]
          exact Alike.refl _ _
      | _ => exact Alike.refl _ _
  | log m =>
      have hcalled : l.daapInit_called = l'.daapInit_called :=
        h .daapInit_called List.mem_cons_self
      rw [code, code, hcalled]
      exact Alike.refl _ _
  | build m =>
      have hline : buildLine l m = buildLine l' m := by
        rw [buildLine, buildLine]
        split
        · rfl
        · next hraw =>
            rw [reads, if_neg hraw] at h
            rw [init_data_congr (h .appname (by simp)) (h .hostname (by simp))
              (h .cluster_name (by simp)) (h .mpi_rank (by simp)) (h .level (by simp))
              (h .transport_type (by simp)) (h .start_time (by simp))]
      rw [code, code, hline]
      exact Alike.refl _ _
  | transmit m line influx_str =>
      have htransport : l.transport_type = l'.transport_type := h .transport_type (by simp [reads])
      have hlevel : l.level = l'.level := h .level (by simp [reads])
      rw [code, code, htransport, hlevel]
      split
      · exact ⟨rfl, rfl, fun x hx => absurd hx List.not_mem_nil⟩
      · exact ⟨rfl, rfl, fun x hx => absurd hx List.not_mem_nil⟩
      · rfl
  | socket m line buf_size =>
      rw [code, code]
      split
      · exact ⟨rfl, rfl, List.forall_mem_singleton.mpr trivial⟩
      · exact ⟨rfl, rfl, List.forall_mem_singleton.mpr trivial⟩
  | SSL_new m buf_size =>
      have hctx : l.tls.sslctx = l'.tls.sslctx := h .sslctx List.mem_cons_self
      rw [code, code, hctx]
      split
      · rfl
      · exact ⟨rfl, rfl, List.forall_mem_singleton.mpr ⟨rfl, rfl⟩⟩
  | SSL_connect m buf_size =>
      have hconnection : Agree .cSSL l l' := h .cSSL List.mem_cons_self
      rw [code, code]
      split
      · rfl
      · exact ⟨rfl, rfl, List.forall_mem_singleton.mpr ⟨hconnection.1, rfl⟩⟩
  | SSL_write m buf_size loop =>
      have hconnection : Agree .cSSL l l' := h .cSSL List.mem_cons_self
      rw [code, code]
      split
      · rfl
      · rw [hconnection.1, hconnection.2]
        exact ⟨rfl, rfl, List.forall_mem_singleton.mpr hconnection⟩
  | close m => exact ⟨rfl, rfl, fun x hx => absurd hx List.not_mem_nil⟩
  | SSL_CTX_free at_ =>
      have hctx : l.tls.sslctx = l'.tls.sslctx := h .sslctx List.mem_cons_self
      rw [code, code, ← hctx]
      split
      · rfl
      · exact ⟨rfl, rfl, List.forall_mem_singleton.mpr hctx⟩
      · exact ⟨rfl, rfl, List.forall_mem_singleton.mpr rfl⟩
  | SSL_free at_ =>
      have hconnection : Agree .cSSL l l' := h .cSSL List.mem_cons_self
      rw [code, code, ← hconnection.1]
      split
      · rfl
      · rfl
      · exact ⟨rfl, rfl, List.forall_mem_singleton.mpr ⟨rfl, hconnection.2⟩⟩
  | testCalled args =>
      have hcalled : l.daapInit_called = l'.daapInit_called :=
        h .daapInit_called List.mem_cons_self
      rw [code, code, ← hcalled]
      split
      · rfl
      · next hunset =>
          refine ⟨rfl, rfl, fun x hx => ?_⟩
          rw [writes, if_neg hunset] at hx
          simp only [List.mem_cons, List.not_mem_nil, or_false] at hx
          rcases hx with rfl | rfl | rfl | rfl
          · rfl
          · rfl
          · rfl
          · rfl
  | nameHost args =>
      rw [code, code]
      split
      · rfl
      · exact ⟨rfl, rfl, List.forall_mem_singleton.mpr rfl⟩
  | nameCluster args =>
      exact ⟨rfl, rfl, List.forall_mem_cons.mpr ⟨trivial, List.forall_mem_singleton.mpr rfl⟩⟩
  | setUp args =>
      have hctx : l.tls.sslctx = l'.tls.sslctx := h .sslctx (by simp [reads])
      obtain ⟨hsslctx, hending⟩ := daapInitializeSSL_congr args.setup hctx
      rw [code, code]
      split
      · generalize daapInitializeSSL args.setup l.tls = r at hsslctx hending
        generalize daapInitializeSSL args.setup l'.tls = r' at hsslctx hending
        rcases r with ⟨tls, ending⟩
        rcases r' with ⟨tls', ending'⟩
        obtain rfl : ending = ending' := hending
        cases ending with
        | returns value => exact ⟨rfl, rfl, List.forall_mem_singleton.mpr hsslctx⟩
        | _ => rfl
      · rfl
  | setCalled args => exact ⟨rfl, rfl, List.forall_mem_singleton.mpr rfl⟩
  | rankZero args =>
      have hzero : l.daapRank_zero = l'.daapRank_zero := h .daapRank_zero List.mem_cons_self
      refine ⟨rfl, rfl, List.forall_mem_singleton.mpr ?_⟩
      rw [Agree, readZero, readZero, Library.readRank, Library.readRank, hzero]
      split <;> rfl
  | mpiRank args =>
      have hrank : l.mpi_rank = l'.mpi_rank := h .mpi_rank List.mem_cons_self
      refine ⟨rfl, rfl, List.forall_mem_singleton.mpr ?_⟩
      rw [Agree, readMpiRank, readMpiRank, Library.readRank, Library.readRank]
      split
      · rfl
      · exact hrank
  | jobStart args =>
      have hzero : l.daapRank_zero = l'.daapRank_zero := h .daapRank_zero List.mem_cons_self
      rw [code, code, hzero]
      exact Alike.refl _ _
  | jobEnd env io =>
      have hzero : l.daapRank_zero = l'.daapRank_zero := h .daapRank_zero List.mem_cons_self
      rw [code, code, hzero]
      exact Alike.refl _ _
  | free fields ret_val =>
      cases fields with
      | nil => exact Alike.refl _ _
      | cons field fields =>
          have hstring : string l field = string l' field := by
            cases field with
            | hostname => exact h .hostname List.mem_cons_self
            | appname => exact h .appname List.mem_cons_self
            | cluster_name => exact h .cluster_name List.mem_cons_self
          rw [code, code, hstring]
          split
          · rfl
          · refine ⟨rfl, rfl, List.forall_mem_singleton.mpr ?_⟩
            cases field with
            | hostname => exact congrArg Str.free hstring
            | appname => exact congrArg Str.free hstring
            | cluster_name => exact congrArg Str.free hstring
  | _ => exact Alike.refl _ _

end Steps

section Initialising

theorem eq_setCalled_of_writes {l : Library} {point : Point}
    (h : .daapInit_called ∈ writes l point) : ∃ args, point = .setCalled args := by
  cases point with
  | setCalled args => exact ⟨args, rfl⟩
  | testCalled args =>
      rw [writes] at h
      split at h
      · cases h
      · simp at h
  | call c => cases c <;> simp [writes] at h
  | free fields ret_val =>
      rcases fields with _ | ⟨field, fields⟩
      · cases h
      · cases field <;> simp [writes, stringGlobal] at h
  | _ => simp [writes] at h

theorem onceAccesses_code :
    OnceAccesses reads writes held .init_mutex Library.daapInit_called part
      (· = .daapInit_called) where
  quiet l point h := by
    rcases h with h | h | h | h
    · cases place_of_part h with
      | entry args => exact ⟨rfl, rfl⟩
    · cases place_of_part h with
      | skipping => exact ⟨rfl, rfl⟩
    · cases place_of_part h with
      | raised args => exact ⟨rfl, rfl⟩
    · cases place_of_part h with
      | done ret_val => exact ⟨rfl, rfl⟩
  found l point h hset := by
    cases place_of_part h with
    | testing args => exact ⟨if_pos hset, List.forall_mem_singleton.mpr rfl⟩
  works point h := by
    rcases h with h | h
    · cases place_of_part h with
      | testing args => exact List.mem_singleton_self _
    · cases place_of_part h with
      | working hunset =>
          cases hunset with
          | reported args => exact List.mem_cons_of_mem _ (List.mem_singleton_self _)
          | _ => exact List.mem_singleton_self _
  finishes l point h := by
    rintro x hx rfl
    obtain ⟨args, rfl⟩ := eq_setCalled_of_writes hx
    cases h

end Initialising

section Logging

/-- The mutexes of what log calls write. -/
def logMutex : Global → Option Mutex
  | .sslctx => some .write_mutex
  | .cSSL => some .write_mutex
  | .sockfd => some .write_mutex
  | .daap_log_output_str => some .daap_log_print_mutex
  | _ => none

theorem zone_ne_elsewhere_of_caller {m : Message} (h : m.origin = .caller) {z : Zone}
    (hz : z ≠ .elsewhere) : Message.zone m z ≠ .elsewhere := by
  rw [zone_of_caller h]
  exact hz

/-- In front of its section a log call only goes on to the section or comes to its end. -/
theorem next_of_front {l : Library} {point : Point} (h : Front point) :
    ∀ next ∈ next? (code l point), zone next ≠ .elsewhere := by
  have hone {next : Point} (hnext : zone next ≠ .elsewhere) :
      ∀ next' ∈ some next, zone next' ≠ .elsewhere := by
    rintro next' ⟨⟩
    exact hnext
  have hlast {m : Message} (hcaller : m.origin = .caller) (ret_val : Int) :
      zone (afterLog ret_val m.origin) ≠ .elsewhere := by
    rw [hcaller]
    exact Zone.noConfusion
  cases h with
  | @call c hlogs =>
      cases c with
      | daapInit args => cases hlogs
      | daapFinalize env io => cases hlogs
      | daapSetRank rank => cases hlogs
      | _ => exact hone Zone.noConfusion
  | @log m hcaller =>
      rw [code]
      split
      · exact hone (hlast hcaller _)
      · split
        · exact hone (zone_ne_elsewhere_of_caller hcaller Zone.noConfusion)
        · exact hone (zone_ne_elsewhere_of_caller hcaller Zone.noConfusion)
  | @warn m hcaller => exact hone (zone_ne_elsewhere_of_caller hcaller Zone.noConfusion)
  | @build m hcaller =>
      rw [code]
      split
      · rintro next ⟨⟩
      · exact hone (zone_ne_elsewhere_of_caller hcaller Zone.noConfusion)
  | @transmit m line influx_str hcaller =>
      rw [code]
      split
      · exact hone (hlast hcaller _)
      · exact hone (hlast hcaller _)
      · exact hone (zone_ne_elsewhere_of_caller hcaller Zone.noConfusion)

theorem closed_zone : Closed code fun point => zone point ≠ .elsewhere := by
  intro l point h
  rcases front_or_locked point h with ⟨-, hfront⟩ | ⟨-, hlocked⟩ | ⟨ret_val, rfl⟩
  · exact next_of_front hfront
  · exact next_of_inside (inside_code l hlocked)
  · rintro next ⟨⟩

theorem guards_of_write_mutex {l : Library} {point : Point} (hheld : .write_mutex ∈ held point)
    (hwrites : ∀ x ∈ writes l point, logMutex x = some .write_mutex)
    (hreads : ∀ x ∈ reads l point, logMutex x = some .write_mutex) :
    Guards reads writes held logMutex l point where
  writes x hx := ⟨.write_mutex, hwrites x hx, hheld⟩
  reads x hx _ hm := Option.some.inj ((hreads x hx).symm.trans hm) ▸ hheld

theorem guards_of_zone {l : Library} {point : Point} (h : zone point ≠ .elsewhere) :
    Guards reads writes held logMutex l point := by
  rcases front_or_locked point h with ⟨-, hfront⟩ | ⟨-, hlocked⟩ | ⟨ret_val, rfl⟩
  · cases hfront with
    | @call c hlogs =>
        cases c with
        | daapInit args => cases hlogs
        | daapFinalize env io => cases hlogs
        | daapSetRank rank => cases hlogs
        | _ => exact ⟨by simp [writes], by simp [reads, logMutex]⟩
    | warn hcaller =>
        exact ⟨List.forall_mem_singleton.mpr ⟨_, rfl, List.mem_cons_self⟩,
          by simp [reads, logMutex]⟩
    | build hcaller =>
        refine ⟨by simp [writes], ?_⟩
        rw [reads]
        split
        · simp
        · simp [logMutex]
    | _ => exact ⟨by simp [writes], by simp [reads, logMutex]⟩
  · cases hlocked with
    | _ =>
        exact guards_of_write_mutex List.mem_cons_self (by simp [writes, logMutex])
          (by simp [reads, logMutex])
  · exact ⟨by simp [writes], by simp [reads]⟩

end Logging

section Phases

variable {ι : Type*} [DecidableEq ι] {l : Library} {calls : ι → List Call} {schedule : List ι}
  {r : Process ι Mutex Library Event Point (Option Int) × List (ι × Event)}
  (hrun : run (step code) (Process.start l fun i => (calls i).map .call) schedule = some r)

include hrun

/-- Threads that initialise the library do so without races. -/
theorem not_racy_of_inits (hinits : ∀ i, ∀ c ∈ calls i, ∃ args, c = .daapInit args) :
    ¬Racy reads writes r.1 := by
  have hentries : ∀ i, ∀ point ∈ (calls i).map Point.call, part point = .entry := by
    intro i point hpoint
    obtain ⟨c, hc, rfl⟩ := List.mem_map.mp hpoint
    obtain ⟨args, rfl⟩ := hinits i c hc
    rfl
  exact not_racy_of_once onceAccesses_code (owned_of_run hrun) hentries
    (once_run once_code hentries hrun)

/-- Threads that log do so without races. -/
theorem not_racy_of_logs (hlogs : ∀ i, ∀ c ∈ calls i, Call.logs c = true) :
    ¬Racy reads writes r.1 := by
  have hentries : ∀ i, ∀ point ∈ (calls i).map Point.call, zone point ≠ .elsewhere := by
    intro i point hpoint
    obtain ⟨c, hc, rfl⟩ := List.mem_map.mp hpoint
    rw [zone, if_pos (hlogs i c hc)]
    exact Zone.noConfusion
  have hzones := closed_run closed_zone hentries hrun
  exact not_racy_of_guards (owned_of_run hrun) fun i point hpoint =>
    guards_of_zone (hzones i point hpoint)

end Phases

/-- A thread that logs while another one is about to set the flag races with it. -/
theorem racy_of_log_during_init {ι : Type*}
    {p : Process ι Mutex Library Event Point (Option Int)} {i j : ι} {args : InitArgs}
    {m : Message} {calls calls' : List Point} (halive : p.ending = .running) (hij : i ≠ j)
    (hi : p.threads i = .setCalled args :: calls) (hj : p.threads j = .log m :: calls') :
    Racy reads writes p :=
  ⟨halive, i, j, _, _, calls, calls', .daapInit_called, hij, hi, hj, List.mem_cons_self,
    List.mem_cons_self⟩

end DaapLog.GlobalAccesses
