import DaapLog.LibraryLifeCycle

/-!
What a successful `daapInit` says about the TLS transport: nothing, since the result of
the set-up is dropped.
-/

namespace DaapLog.InitTransport

open DaapLog.BuildInflux (DAAP_SUCCESS)
open DaapLog.CStrings
open DaapLog.LibraryCalls
open DaapLog.LibraryLifeCycle
open DaapLog.TlsTransport
open DaapLog.TracedCalls

/-- Certificate and key are found by paths that fit, and there is a context. -/
def Setup.Succeeds (setup : Setup) : Prop :=
  ∃ cert_dir, setup.DAAP_CERTS = some cert_dir ∧
    cert_dir.length + SSL_CLIENT_CERT.length + 2 ≤ PATH_MAX ∧
    setup.access (cert_dir ++ "/" ++ SSL_CLIENT_CERT) = true ∧
    setup.access (cert_dir ++ "/" ++ SSL_CLIENT_KEY) = true ∧ setup.SSL_CTX_new = true

theorem daapInitializeSSL_of_succeeds {setup : Setup} (h : Setup.Succeeds setup) (t : Tls) :
    daapInitializeSSL setup t = ({ t with sslctx := .live }, .returns none) := by
  obtain ⟨cert_dir, hdir, hlength, hcert, hkey, hctx⟩ := h
  have hlengths : SSL_CLIENT_KEY.length = 14 ∧ SSL_CLIENT_CERT.length = 15 := ⟨rfl, rfl⟩
  rw [daapInitializeSSL, hdir]
  simp only [hcert, hkey, hctx]
  rw [if_pos (by omega), if_neg (by omega)]
  rfl

theorem succeeds_of_runsToEnd {setup : Setup} {t : Tls}
    (h : (daapInitializeSSL setup t).2 = .returns none) : Setup.Succeeds setup := by
  rw [daapInitializeSSL] at h
  split at h
  · exact absurd h nofun
  next cert_dir hdir =>
  split at h
  · split at h
    · exact absurd h nofun
    next hlength =>
    split at h
    · exact absurd h nofun
    next haccess =>
    split at h
    · exact absurd h nofun
    next hctx =>
    simp only [Bool.or_eq_true, Bool.not_eq_true', not_or, Bool.not_eq_false] at haccess hctx
    exact ⟨cert_dir, hdir, by omega, haccess.1, haccess.2, hctx⟩
  · exact absurd h nofun

/-- `daapInit` succeeds only behind a set-up that ran to its end, and reports one that
failed. -/
structure TransportOk (l : Library) (args : InitArgs) : Prop where
  usable : (l.daapInit args).2.2 = .returns DAAP_SUCCESS →
    (l.daapInit args).1.daapInit_called = true →
      (daapInitializeSSL args.setup l.tls).2 = .returns none ∧
        (daapInitializeSSL args.setup l.tls).1.sslctx = .live
  failing : (daapInitializeSSL args.setup l.tls).2 ≠ .returns none →
    (∃ ret, ret ≠ DAAP_SUCCESS ∧ (l.daapInit args).2.2 = .returns ret) ∧
      (l.daapInit args).1.daapInit_called = false

/-- The context is still there when `daapInit` returns. -/
def LeavesContext (l : Library) (args : InitArgs) : Prop :=
  (l.daapInit args).2.2 = .returns DAAP_SUCCESS →
    (l.daapInit args).1.daapInit_called = true → (l.daapInit args).1.tls.sslctx = .live

/-- No handshake fails in the message about the start of the job, if `daapInit` sends it. -/
def StartServed (l : Library) (args : InitArgs) : Prop :=
  (l.readRank args.env).daapRank_zero = true → args.env.automatic = true →
    args.io.write.Reaches → 0 ≤ args.io.write.SSL_connect

section Starting

variable {l : Library} {args : InitArgs}

theorem finishInit_called (l : Library) (args : InitArgs) :
    (l.finishInit args).1.daapInit_called = true := by
  have hread := (sameStrings_readRank { l with daapInit_called := true } args.env).1
  rw [Library.finishInit]
  split
  · obtain ⟨tls, htls⟩ := daapLogWrite_frame
      ({ l with daapInit_called := true }.readRank args.env) .jobStart jobstartText args.io
    rw [htls]
    exact hread
  · exact hread

/-- A message on a live context frees it exactly if its handshake fails. -/
theorem sslctx_daapTCPLogWrite {t : Tls} (hctx : t.sslctx = .live) (io : WriteIo)
    (buf_size : Nat) :
    (∀ ret, (daapTCPLogWrite io buf_size t).2.2 = .returns ret →
      (daapTCPLogWrite io buf_size t).1.sslctx = .live) ↔
      (io.Reaches → 0 ≤ io.SSL_connect) := by
  have hcases := daapTCPLogWrite_cases io buf_size t
  generalize daapTCPLogWrite io buf_size t = r at hcases
  cases hcases with
  | noSocket h =>
      exact iff_of_true (fun _ _ => hctx) fun hreaches => absurd hreaches.1 (not_le.mpr h)
  | noServer hsocket h => exact iff_of_true (fun _ _ => hctx) fun hreaches => absurd hreaches.2 h
  | noContext hreaches h => exact absurd hctx h
  | noHandshake hreaches hctx h =>
      refine iff_of_false (fun hall => ?_) fun hall => absurd (hall hreaches) (not_le.mpr h)
      exact absurd (hall _ rfl) nofun
  | connected hreaches hctx h =>
      refine iff_of_true (fun _ _ => ?_) fun _ => h
      rw [(writeLoop_handles _ _ _).1]
      exact hctx

theorem sslctx_daapLogWrite {names : Names} (hcalled : l.daapInit_called = true)
    (hholds : Holds l names) (htcp : l.transport_type = .TCP) (hctx : l.tls.sslctx = .live)
    (origin : Origin) (formatted : Text) (io : LogIo) :
    ((l.daapLogWrite origin formatted io).2.2 = .returns DAAP_SUCCESS →
      (l.daapLogWrite origin formatted io).1.tls.sslctx = .live) ↔
      (io.write.Reaches → 0 ≤ io.write.SSL_connect) := by
  obtain ⟨init_data, hdata⟩ :=
    Option.isSome_iff_exists.mp (init_data_isSome_iff.mpr ⟨names, hholds⟩)
  rw [Library.daapLogWrite, if_neg (by simp [hcalled]), hdata]
  simp only [transmit_of_tcp l htcp]
  rw [← sslctx_daapTCPLogWrite hctx io.write]
  constructor
  · intro h ret hret
    exact h (Ending.map_eq_returns_iff.mpr ⟨ret, hret, rfl⟩)
  · intro h hret
    obtain ⟨ret, hret, -⟩ := Ending.map_eq_returns_iff.mp hret
    exact h ret hret

theorem sslctx_finishInit {names : Names} (hholds : Holds l names)
    (htcp : l.transport_type = .TCP) (hctx : l.tls.sslctx = .live) (args : InitArgs) :
    ((l.finishInit args).2.2 = .returns DAAP_SUCCESS →
      (l.finishInit args).1.tls.sslctx = .live) ↔ StartServed l args := by
  obtain ⟨zero, rank, hrank⟩ := readRank_frame { l with daapInit_called := true } args.env
  have hzero : (l.readRank args.env).daapRank_zero = zero := by
    rw [readRank_daapRank_zero, ← readRank_daapRank_zero { l with daapInit_called := true }, hrank]
  rw [StartServed, hzero, Library.finishInit, hrank]
  cases zero with
  | false => exact iff_of_true (fun _ => hctx) fun h => Bool.noConfusion h
  | true =>
      cases hauto : args.env.automatic with
      | false => exact iff_of_true (fun _ => hctx) fun _ h => Bool.noConfusion h
      | true =>
          simp only [forall_true_left]
          exact sslctx_daapLogWrite (l := { l with
            daapInit_called := true, daapRank_zero := true, mpi_rank := rank }) rfl hholds htcp hctx
            .jobStart jobstartText args.io

end Starting

section Settling

variable {l : Library} {args : InitArgs}

theorem transportOk_of_error {error : HostnameError} (hcalled : l.daapInit_called = false)
    (h : args.hostname = .error error) : TransportOk l args ∧ LeavesContext l args := by
  have hinit := daapInit_of_error hcalled h
  have hstate : (l.daapInit args).1.daapInit_called = false := by
    rw [hinit]
    exact hcalled
  have hcode : error.code ≠ DAAP_SUCCESS := by
    cases error <;> decide
  refine ⟨⟨fun _ hafter => ?_, fun _ => ⟨⟨error.code, hcode, by rw [hinit]⟩, hstate⟩⟩, ?_⟩
  · exact absurd (hstate.symm.trans hafter) nofun
  · intro _ hafter
    exact absurd (hstate.symm.trans hafter) nofun

theorem not_transportOk_of_setup {name : Text} (hcalled : l.daapInit_called = false)
    (htcp : args.transport_type = .TCP) (hname : args.hostname = .ok name)
    (h : (daapInitializeSSL args.setup l.tls).2 ≠ .returns none) : ¬TransportOk l args := by
  intro hok
  obtain ⟨⟨ret, -, hret⟩, hafter⟩ := hok.failing h
  rw [daapInit_of_ok hcalled hname] at hret hafter
  rcases initTransport_cases (l.populate args name) args with
    ⟨hne, -⟩ | ⟨value, -, hinit⟩ | hinit
  · exact absurd htcp hne
  · rw [hinit, finishInit_called] at hafter
    exact Bool.noConfusion hafter
  · rw [hinit] at hret
    exact absurd hret nofun

theorem leavesContext_iff_of_succeeds {name : Text} (hcalled : l.daapInit_called = false)
    (htcp : args.transport_type = .TCP) (hname : args.hostname = .ok name)
    (h : Setup.Succeeds args.setup) :
    TransportOk l args ∧ (LeavesContext l args ↔ StartServed l args) := by
  have hsetup := daapInitializeSSL_of_succeeds h l.tls
  refine ⟨⟨fun _ _ => by rw [hsetup]; exact ⟨rfl, rfl⟩, fun hfails => absurd (by rw [hsetup]) hfails⟩, ?_⟩
  have hinit : l.daapInit args =
      { l.populate args name with tls := { l.tls with sslctx := .live } }.finishInit args := by
    rw [daapInit_of_ok hcalled hname]
    exact initTransport_of_setup htcp hsetup
  have hlive := sslctx_finishInit (holds_populate l args name { l.tls with sslctx := .live }) htcp
    rfl args
  have hstart : StartServed
      { l.populate args name with tls := { l.tls with sslctx := .live } } args ↔
        StartServed l args := by
    rw [StartServed, StartServed, readRank_daapRank_zero, readRank_daapRank_zero]
    exact Iff.rfl
  rw [LeavesContext, hinit, finishInit_called, ← hstart, ← hlive]
  exact ⟨fun h hret => h hret rfl, fun h hret _ => h hret⟩

end Settling

/-- On a library that is not initialised, a `daapInit` over TCP succeeds only behind a
set-up that ran to its end, and reports one that failed, exactly if the host name fails or
the set-up succeeds; and it returns with the context still there exactly if moreover no
handshake fails in its message about the start of the job. -/
theorem daapInit_transportOk_iff (l : Library) (args : InitArgs)
    (hcalled : l.daapInit_called = false) (htcp : args.transport_type = .TCP) :
    (TransportOk l args ↔
      (∃ error, args.hostname = .error error) ∨ Setup.Succeeds args.setup) ∧
    (TransportOk l args ∧ LeavesContext l args ↔
      (∃ error, args.hostname = .error error) ∨
        Setup.Succeeds args.setup ∧ StartServed l args) := by
  cases hname : args.hostname with
  | error error =>
      have hok := transportOk_of_error hcalled hname
      exact ⟨iff_of_true hok.1 (.inl ⟨error, rfl⟩), iff_of_true hok (.inl ⟨error, rfl⟩)⟩
  | ok name =>
      simp only [reduceCtorEq, exists_false, false_or]
      by_cases hsetup : Setup.Succeeds args.setup
      · obtain ⟨hok, hleaves⟩ := leavesContext_iff_of_succeeds hcalled htcp hname hsetup
        exact ⟨iff_of_true hok hsetup, by rw [and_iff_right hok, and_iff_right hsetup, hleaves]⟩
      · have hnot := not_transportOk_of_setup hcalled htcp hname
          fun h => hsetup (succeeds_of_runsToEnd h)
        exact ⟨iff_of_false hnot hsetup, iff_of_false (fun h => hnot h.1) fun h => hsetup h.1⟩

theorem transportOk_tcpInit : TransportOk {} tcpInit :=
  (daapInit_transportOk_iff {} tcpInit rfl rfl).1.mpr
    (.inr ⟨"/etc/daap".toList, rfl, by decide, rfl, rfl, rfl⟩)

/-- Without `DAAP_CERTS` the set-up fails and `daapInit` succeeds. -/
theorem transportOk_fails_without_certs :
    ¬TransportOk {} { tcpInit with setup := { tcpInit.setup with DAAP_CERTS := none } } := by
  refine not_transportOk_of_setup rfl rfl rfl ?_
  exact fun h => absurd (Ending.returns.inj h) nofun

end DaapLog.InitTransport
