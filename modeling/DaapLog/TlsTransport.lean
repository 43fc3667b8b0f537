import DaapLog.BuildInflux
import DaapLog.TcpLogWrite
import DaapLog.TracedCalls

/-!
The TLS transport: its set-up, a connection for each message and the shutdown. The
results of the system and OpenSSL calls are arguments, and what the functions do to the
context and the connection is recorded.
-/

namespace DaapLog.TlsTransport

open DaapLog.CStrings
open DaapLog.BuildInflux
open DaapLog.TcpLogWrite
open DaapLog.TracedCalls

/-- What a pointer to an object of OpenSSL stands for. -/
inductive Handle
  | null
  | live
  | freed
  deriving DecidableEq, Repr

/-- The globals of the transport, with the numbers of sockets that are open and of
connection objects that exist. -/
structure Tls where
  sslctx : Handle := .null
  cSSL : Handle := .null
  handshaken : Bool := false
  sockets : Nat := 0
  connections : Nat := 0
  deriving DecidableEq, Repr

/-- The calls that use or free an object, with what they are given. -/
inductive TlsEvent
  | SSL_new (sslctx : Handle)
  | SSL_write (cSSL : Handle) (handshaken : Bool)
  | SSL_CTX_free (sslctx : Handle)
  | SSL_free (cSSL : Handle)
  deriving DecidableEq, Repr

def PATH_MAX : Nat := 4096

def SSL_CLIENT_CERT : Text := "client_cert.pem"

def SSL_CLIENT_KEY : Text := "client_key.pem"

/-- What the set-up finds: the environment variable, the files that can be read and
whether `SSL_CTX_new` gives a context. -/
structure Setup where
  DAAP_CERTS : Option Text
  access : Text → Bool
  SSL_CTX_new : Bool

/-- The set-up, which returns `-1` on failure and no value (`none`) at its end. A path
that passes the test of the lengths may still be one byte longer than its array. -/
def daapInitializeSSL (setup : Setup) (t : Tls) : Tls × Ending (Option Int) :=
  match setup.DAAP_CERTS with
  | none => (t, .returns (some (-1)))
  | some cert_dir =>
      if cert_dir.length + SSL_CLIENT_KEY.length < PATH_MAX ∧
          cert_dir.length + SSL_CLIENT_CERT.length < PATH_MAX then
        if PATH_MAX < cert_dir.length + SSL_CLIENT_CERT.length + 2 then (t, .undefined)
        else if !setup.access (cert_dir ++ "/" ++ SSL_CLIENT_CERT) ||
            !setup.access (cert_dir ++ "/" ++ SSL_CLIENT_KEY) then (t, .returns (some (-1)))
        else if !setup.SSL_CTX_new then ({ t with sslctx := .null }, .returns (some (-1)))
        else ({ t with sslctx := .live }, .returns none)
      else (t, .returns (some (-1)))

/-- The connection part of the shutdown: nothing for a null pointer, which `SSL_free`
does not reset. -/
def freeConnection (t : Tls) : Traced Tls TlsEvent Unit :=
  match t.cSSL with
  | .null => (t, [], .returns ())
  | .live => ({ t with cSSL := .freed, connections := t.connections - 1 }, [.SSL_free .live],
      .returns ())
  | .freed => (t, [.SSL_free .freed], .undefined)

/-- The pointers keep their values; freeing a freed object is undefined. -/
def daapShutdownSSL (t : Tls) : Traced Tls TlsEvent Unit :=
  match t.sslctx with
  | .freed => (t, [.SSL_CTX_free .freed], .undefined)
  | .null =>
      let r := freeConnection t
      (r.1, .SSL_CTX_free .null :: r.2.1, r.2.2)
  | .live =>
      let r := freeConnection { t with sslctx := .freed }
      (r.1, .SSL_CTX_free .live :: r.2.1, r.2.2)

/-- The results of the calls that write one message. The loop is looked at `rounds`
rounds behind its first. -/
structure WriteIo where
  socket : Int
  connect : Int
  SSL_connect : Int
  SSL_write : Nat → Int → Int
  rounds : Nat

namespace Tls

def openSocket (t : Tls) : Tls := { t with sockets := t.sockets + 1 }

def closeSocket (t : Tls) : Tls := { t with sockets := t.sockets - 1 }

def openConnection (t : Tls) (handshaken : Bool) : Tls :=
  { t with cSSL := .live, handshaken := handshaken, connections := t.connections + 1 }

def released (t : Tls) : Tls :=
  { t with sslctx := .freed, cSSL := .freed, connections := t.connections - 1 }

end Tls

/-- `SSL_new` gives a connection for a live context; without one the calls behind it
have undefined behaviour. A shutdown right behind it finds both objects live. -/
def daapTCPConnect (io : WriteIo) (t : Tls) : Traced Tls TlsEvent Int :=
  if io.socket < 0 then (t, [], .returns io.socket)
  else if io.connect ≠ 0 then (t.openSocket, [], .returns (-1))
  else if t.sslctx ≠ .live then (t.openSocket, [.SSL_new t.sslctx], .undefined)
  else
    let t := t.openSocket.openConnection (io.SSL_connect = 1)
    if io.SSL_connect < 0 then
      let r := daapShutdownSSL t
      (r.1, .SSL_new .live :: r.2.1, .returns (-1))
    else (t, [.SSL_new .live], .returns 0)

/-- The loop of a message of `buf_size` bytes on an open connection, and the end of
`daapTCPLogWrite` behind it. -/
def writeLoop (io : WriteIo) (buf_size : Nat) (t : Tls) : Traced Tls TlsEvent Int :=
  let loop := loopAfter io.SSL_write buf_size (io.rounds + 1)
  let events := loop.calls.map fun _ => .SSL_write t.cSSL t.handshaken
  match loop.control with
  | .left => (t.closeSocket, events, .returns loop.count)
  | .exited => (t, events, .exits 2)
  | .writing => (t, events, .running)

def daapTCPLogWrite (io : WriteIo) (buf_size : Nat) (t : Tls) :
    Traced Tls TlsEvent Int :=
  andThen (daapTCPConnect io t) fun t ret =>
    if ret < 0 then (t, [], .returns DAAP_ERROR) else writeLoop io buf_size t

theorem daapShutdownSSL_live {t : Tls} (hctx : t.sslctx = .live) (hconn : t.cSSL = .live) :
    daapShutdownSSL t = (t.released, [.SSL_CTX_free .live, .SSL_free .live], .returns ()) := by
  rw [daapShutdownSSL, hctx]
  simp only [freeConnection, hconn, Tls.released]

/-- The TCP connection of a message comes about. -/
def WriteIo.Reaches (io : WriteIo) : Prop := 0 ≤ io.socket ∧ io.connect = 0

instance (io : WriteIo) : Decidable io.Reaches := inferInstanceAs (Decidable (_ ∧ _))

/-- What a message does to the transport, by how far it gets. -/
inductive WriteCases (io : WriteIo) (buf_size : Nat) (t : Tls) :
    Traced Tls TlsEvent Int → Prop
  | noSocket (h : io.socket < 0) : WriteCases io buf_size t (t, [], .returns DAAP_ERROR)
  | noServer (hsocket : 0 ≤ io.socket) (h : io.connect ≠ 0) :
      WriteCases io buf_size t (t.openSocket, [], .returns DAAP_ERROR)
  | noContext (hreaches : io.Reaches) (h : t.sslctx ≠ .live) :
      WriteCases io buf_size t (t.openSocket, [.SSL_new t.sslctx], .undefined)
  | noHandshake (hreaches : io.Reaches) (hctx : t.sslctx = .live) (h : io.SSL_connect < 0) :
      WriteCases io buf_size t ((t.openSocket.openConnection false).released,
        [.SSL_new .live, .SSL_CTX_free .live, .SSL_free .live], .returns DAAP_ERROR)
  | connected (hreaches : io.Reaches) (hctx : t.sslctx = .live) (h : 0 ≤ io.SSL_connect) :
      WriteCases io buf_size t
        ((writeLoop io buf_size (t.openSocket.openConnection (io.SSL_connect = 1))).1,
          .SSL_new .live ::
            (writeLoop io buf_size (t.openSocket.openConnection (io.SSL_connect = 1))).2.1,
          (writeLoop io buf_size (t.openSocket.openConnection (io.SSL_connect = 1))).2.2)

theorem daapTCPLogWrite_cases (io : WriteIo) (buf_size : Nat) (t : Tls) :
    WriteCases io buf_size t (daapTCPLogWrite io buf_size t) := by
  by_cases hsocket : io.socket < 0
  · have hret : daapTCPConnect io t = (t, [], .returns io.socket) := by
      rw [daapTCPConnect, if_pos hsocket]
    rw [daapTCPLogWrite, hret, andThen_of_returns rfl, if_pos hsocket]
    exact .noSocket hsocket
  by_cases hconnect : io.connect ≠ 0
  · have hret : daapTCPConnect io t = (t.openSocket, [], .returns (-1)) := by
      rw [daapTCPConnect, if_neg hsocket, if_pos hconnect]
    rw [daapTCPLogWrite, hret, andThen_of_returns rfl, if_pos (by decide)]
    exact .noServer (not_lt.mp hsocket) hconnect
  have hreaches : io.Reaches := ⟨not_lt.mp hsocket, not_not.mp hconnect⟩
  by_cases hctx : t.sslctx ≠ .live
  · have hret : daapTCPConnect io t = (t.openSocket, [.SSL_new t.sslctx], .undefined) := by
      rw [daapTCPConnect, if_neg hsocket, if_neg hconnect, if_pos hctx]
    rw [daapTCPLogWrite, hret, andThen]
    exact .noContext hreaches hctx
  have hlive : t.sslctx = .live := not_not.mp hctx
  by_cases hshake : io.SSL_connect < 0
  · have hone : decide (io.SSL_connect = 1) = false := decide_eq_false (by omega)
    have hshutdown := daapShutdownSSL_live (t := t.openSocket.openConnection false) hlive rfl
    have hret : daapTCPConnect io t = ((t.openSocket.openConnection false).released,
        [.SSL_new .live, .SSL_CTX_free .live, .SSL_free .live], .returns (-1)) := by
      rw [daapTCPConnect, if_neg hsocket, if_neg hconnect, if_neg hctx]
      simp only [hone, if_pos hshake, hshutdown]
    rw [daapTCPLogWrite, hret, andThen_of_returns rfl, if_pos (by decide)]
    exact .noHandshake hreaches hlive hshake
  · have hret : daapTCPConnect io t =
        (t.openSocket.openConnection (io.SSL_connect = 1), [.SSL_new .live], .returns 0) := by
      rw [daapTCPConnect, if_neg hsocket, if_neg hconnect, if_neg hctx]
      simp only [if_neg hshake]
    rw [daapTCPLogWrite, hret, andThen_of_returns rfl, if_neg (by decide)]
    exact .connected hreaches hlive (not_lt.mp hshake)

section Loop

variable {io : WriteIo} {buf_size : Nat} {t : Tls}

theorem writeLoop_returns {ret : Int} (h : (writeLoop io buf_size t).2.2 = .returns ret) :
    (writeLoop io buf_size t).1 = t.closeSocket := by
  rw [writeLoop] at h ⊢
  cases hcontrol : (loopAfter io.SSL_write buf_size (io.rounds + 1)).control with
  | left => simp only
  | exited => simp [hcontrol] at h
  | writing => simp [hcontrol] at h

theorem writeLoop_handles (io : WriteIo) (buf_size : Nat) (t : Tls) :
    (writeLoop io buf_size t).1.sslctx = t.sslctx ∧ (writeLoop io buf_size t).1.cSSL = t.cSSL := by
  rw [writeLoop]
  cases (loopAfter io.SSL_write buf_size (io.rounds + 1)).control with
  | left => exact ⟨rfl, rfl⟩
  | exited => exact ⟨rfl, rfl⟩
  | writing => exact ⟨rfl, rfl⟩

theorem writeLoop_events (io : WriteIo) (buf_size : Nat) (t : Tls) :
    (writeLoop io buf_size t).2.1 =
      (loopAfter io.SSL_write buf_size (io.rounds + 1)).calls.map
        fun _ => .SSL_write t.cSSL t.handshaken := by
  rw [writeLoop]
  cases (loopAfter io.SSL_write buf_size (io.rounds + 1)).control with
  | left => rfl
  | exited => rfl
  | writing => rfl

theorem calls_ne_nil (sslWrite : Nat → Int → Int) {n : Nat} (hn : n ≠ 0) (k : Nat) :
    (loopAfter sslWrite n (k + 1)).calls ≠ [] := by
  have hone : (loopAfter sslWrite n 1).calls ≠ [] := by
    have hzero : (0 : Int) ≠ n := by exact_mod_cast hn.symm
    simp only [loopAfter, Function.iterate_one, iteration, if_neg hzero]
    split
    · exact List.cons_ne_nil _ _
    · split
      · exact List.cons_ne_nil _ _
      · exact List.cons_ne_nil _ _
  have hprefix := calls_prefix_loopAfter sslWrite n 1 k
  rw [Nat.add_comm 1 k] at hprefix
  exact fun h => hone (List.prefix_nil.mp (h ▸ hprefix))

end Loop

def promptWrite : WriteIo where
  socket := 3
  connect := 0
  SSL_connect := 1
  SSL_write _ len := len
  rounds := 1

end DaapLog.TlsTransport
