import DaapLog.TlsTransport

/-!
The two arrays in which the set-up of the TLS transport builds the paths of certificate
and key, and what it does with them.
-/

namespace DaapLog.CertificatePaths

open DaapLog.CStrings
open DaapLog.TlsTransport
open DaapLog.TracedCalls

/-- What the set-up does with a path: it writes a number of bytes to the array of a
file name, tests the path or loads it. -/
inductive PathEvent
  | snprintf (name : Text) (bytes : Nat)
  | access (path : Text)
  | use_file (path : Text)
  deriving DecidableEq

/-- The bytes that `snprintf` writes, its NUL included. -/
def writtenBytes (size : Nat) (formatted : Text) : Nat :=
  if size = 0 then 0 else (snprintf size [] formatted).length + 1

def fullPath (cert_dir name : Text) : Text := cert_dir ++ "/" ++ name

/-- The size that `snprintf` is given for the path of a file name. -/
def pathSize (cert_dir name : Text) : Nat := cert_dir.length + name.length + 2

/-- The path as it stands in its array. -/
def pathOf (cert_dir name : Text) : Text :=
  snprintf (pathSize cert_dir name) [] (fullPath cert_dir name)

/-- The write to the array of a file name; bytes behind the array are not the program's. -/
def writePath (cert_dir name : Text) : Traced Unit PathEvent Unit :=
  let bytes := writtenBytes (pathSize cert_dir name) (fullPath cert_dir name)
  ((), [.snprintf name bytes], if bytes ≤ PATH_MAX then .returns () else .undefined)

/-- The test of both files, the context and the loading of both files. -/
def usePaths (setup : Setup) (cert key : Text) : Traced Unit PathEvent (Option Int) :=
  if !setup.access cert then ((), [.access cert], .returns (some (-1)))
  else if !setup.access key || !setup.SSL_CTX_new then
    ((), [.access cert, .access key], .returns (some (-1)))
  else ((), [.access cert, .access key, .use_file cert, .use_file key], .returns none)

def LengthGuard (cert_dir : Text) : Prop :=
  cert_dir.length + SSL_CLIENT_KEY.length < PATH_MAX ∧
    cert_dir.length + SSL_CLIENT_CERT.length < PATH_MAX

instance (cert_dir : Text) : Decidable (LengthGuard cert_dir) :=
  inferInstanceAs (Decidable (_ ∧ _))

/-- The set-up as far as the two paths are concerned. -/
def initializePaths (setup : Setup) : Traced Unit PathEvent (Option Int) :=
  match setup.DAAP_CERTS with
  | none => ((), [], .returns (some (-1)))
  | some cert_dir =>
      if LengthGuard cert_dir then
        andThen (writePath cert_dir SSL_CLIENT_CERT) fun _ _ =>
          andThen (writePath cert_dir SSL_CLIENT_KEY) fun _ _ =>
            usePaths setup (pathOf cert_dir SSL_CLIENT_CERT) (pathOf cert_dir SSL_CLIENT_KEY)
      else ((), [], .returns (some (-1)))

/-- Both paths are written within their arrays, and the complete paths are used. -/
structure PathsFit (setup : Setup) (cert_dir : Text) : Prop where
  written : ∀ name bytes, .snprintf name bytes ∈ (initializePaths setup).2.1 → bytes ≤ PATH_MAX
  used : ∃ cert_bytes key_bytes, (initializePaths setup).2.1 =
    .snprintf SSL_CLIENT_CERT cert_bytes :: .snprintf SSL_CLIENT_KEY key_bytes ::
      (usePaths setup (fullPath cert_dir SSL_CLIENT_CERT) (fullPath cert_dir SSL_CLIENT_KEY)).2.1

section Sizes

variable {setup : Setup} {cert_dir : Text}

theorem length_fullPath (cert_dir name : Text) :
    (fullPath cert_dir name).length + 1 = pathSize cert_dir name := by
  rw [fullPath, pathSize, List.length_append, List.length_append]
  change cert_dir.length + 1 + name.length + 1 = _
  omega

/-- The size argument is what the path needs, so no path is cut. -/
theorem pathOf_eq (cert_dir name : Text) : pathOf cert_dir name = fullPath cert_dir name := by
  have hlength := length_fullPath cert_dir name
  rw [pathOf, snprintf_eq_self_iff (by omega)]
  omega

theorem writtenBytes_eq (cert_dir name : Text) :
    writtenBytes (pathSize cert_dir name) (fullPath cert_dir name) = pathSize cert_dir name := by
  have hlength := length_fullPath cert_dir name
  rw [writtenBytes, if_neg (by omega), ← pathOf, pathOf_eq, hlength]

theorem writePath_eq (cert_dir name : Text) :
    writePath cert_dir name = ((), [.snprintf name (pathSize cert_dir name)],
      if pathSize cert_dir name ≤ PATH_MAX then .returns () else .undefined) := by
  rw [writePath, writtenBytes_eq]

/-- The path of the key is one byte shorter, so only the other one can be too long. -/
theorem key_fits (hguard : LengthGuard cert_dir) : pathSize cert_dir SSL_CLIENT_KEY ≤ PATH_MAX := by
  have hlengths : SSL_CLIENT_KEY.length = 14 ∧ SSL_CLIENT_CERT.length = 15 := ⟨rfl, rfl⟩
  have hcert := hguard.2
  rw [pathSize]
  omega

theorem initializePaths_of_fits (hdir : setup.DAAP_CERTS = some cert_dir)
    (hguard : LengthGuard cert_dir) (hfits : pathSize cert_dir SSL_CLIENT_CERT ≤ PATH_MAX) :
    initializePaths setup =
      let used := usePaths setup (fullPath cert_dir SSL_CLIENT_CERT)
        (fullPath cert_dir SSL_CLIENT_KEY)
      ((), .snprintf SSL_CLIENT_CERT (pathSize cert_dir SSL_CLIENT_CERT) ::
        .snprintf SSL_CLIENT_KEY (pathSize cert_dir SSL_CLIENT_KEY) :: used.2.1, used.2.2) := by
  have hcert : (writePath cert_dir SSL_CLIENT_CERT).2.2 = .returns () := by
    rw [writePath_eq, if_pos hfits]
  have hkey : (writePath cert_dir SSL_CLIENT_KEY).2.2 = .returns () := by
    rw [writePath_eq, if_pos (key_fits hguard)]
  rw [initializePaths, hdir]
  dsimp only
  rw [if_pos hguard, andThen_of_returns hcert, andThen_of_returns hkey, pathOf_eq, pathOf_eq,
    writePath_eq, writePath_eq]
  rfl

theorem initializePaths_of_long (hdir : setup.DAAP_CERTS = some cert_dir)
    (hguard : LengthGuard cert_dir) (hlong : PATH_MAX < pathSize cert_dir SSL_CLIENT_CERT) :
    initializePaths setup =
      ((), [.snprintf SSL_CLIENT_CERT (pathSize cert_dir SSL_CLIENT_CERT)], .undefined) := by
  rw [initializePaths, hdir]
  dsimp only
  rw [if_pos hguard, writePath_eq, if_neg (not_le.mpr hlong), andThen]

end Sizes

theorem usePaths_ending (setup : Setup) (cert key : Text) (t : Tls) :
    (usePaths setup cert key).2.2 =
      (if !setup.access cert || !setup.access key then (t, .returns (some (-1)))
        else if !setup.SSL_CTX_new then ({ t with sslctx := .null }, .returns (some (-1)))
        else ({ t with sslctx := .live }, .returns none) : Tls × Ending (Option Int)).2 := by
  rw [usePaths]
  cases setup.access cert with
  | false => rfl
  | true =>
      cases setup.access key with
      | false => rfl
      | true => cases setup.SSL_CTX_new <;> rfl

/-- The paths decide how the set-up of the transport ends. -/
theorem initializePaths_ending (setup : Setup) (t : Tls) :
    (initializePaths setup).2.2 = (daapInitializeSSL setup t).2 := by
  rw [daapInitializeSSL]
  cases hdir : setup.DAAP_CERTS with
  | none => rw [initializePaths, hdir]
  | some cert_dir =>
      dsimp only
      by_cases hguard : LengthGuard cert_dir
      · have hlengths := hguard
        rw [LengthGuard] at hlengths
        rw [if_pos hlengths]
        rcases lt_or_ge PATH_MAX (pathSize cert_dir SSL_CLIENT_CERT) with hlong | hfits
        · rw [initializePaths_of_long hdir hguard hlong]
          rw [pathSize] at hlong
          rw [if_pos hlong]
        · rw [initializePaths_of_fits hdir hguard hfits]
          rw [pathSize] at hfits
          rw [if_neg (not_lt.mpr hfits)]
          exact usePaths_ending setup (fullPath cert_dir SSL_CLIENT_CERT)
            (fullPath cert_dir SSL_CLIENT_KEY) t
      · have hlengths := hguard
        rw [LengthGuard] at hlengths
        rw [if_neg hlengths, initializePaths, hdir]
        dsimp only
        rw [if_neg hguard]

theorem not_snprintf_mem_usePaths (setup : Setup) (cert key name : Text) (bytes : Nat) :
    .snprintf name bytes ∉ (usePaths setup cert key).2.1 := by
  rw [usePaths]
  split
  · simp
  · split
    · simp
    · simp

/-- Behind the guard the paths fit unless the directory has the greatest length that passes
it. -/
theorem pathsFit_iff {setup : Setup} {cert_dir : Text} (hdir : setup.DAAP_CERTS = some cert_dir)
    (hguard : LengthGuard cert_dir) :
    PathsFit setup cert_dir ↔ cert_dir.length + SSL_CLIENT_CERT.length + 1 ≠ PATH_MAX := by
  have hlimit : cert_dir.length + SSL_CLIENT_CERT.length < PATH_MAX := hguard.2
  rcases lt_or_ge PATH_MAX (pathSize cert_dir SSL_CLIENT_CERT) with hlong | hfits
  · have hevents := initializePaths_of_long hdir hguard hlong
    refine iff_of_false (fun h => ?_) fun hne => ?_
    · refine absurd (h.written SSL_CLIENT_CERT _ ?_) (not_le.mpr hlong)
      rw [hevents]
      exact List.mem_singleton_self _
    · rw [pathSize] at hlong
      omega
  · have hevents := initializePaths_of_fits hdir hguard hfits
    refine iff_of_true ⟨?_, _, _, congrArg (fun r => r.2.1) hevents⟩ ?_
    · intro name bytes hmem
      rw [hevents] at hmem
      rcases List.mem_cons.mp hmem with hcert | hmem
      · rw [(PathEvent.snprintf.inj hcert).2]
        exact hfits
      · rcases List.mem_cons.mp hmem with hkey | hmem
        · rw [(PathEvent.snprintf.inj hkey).2]
          exact key_fits hguard
        · exact absurd hmem (not_snprintf_mem_usePaths _ _ _ _ _)
    · rw [pathSize] at hfits
      omega

def certsAt (cert_dir : Text) : Setup where
  DAAP_CERTS := some cert_dir
  access := fun _ => true
  SSL_CTX_new := true

theorem pathsFit_etc : PathsFit (certsAt "/etc/daap") "/etc/daap" :=
  (pathsFit_iff rfl (by decide)).mpr (by decide)

/-- The path of the certificate of a directory of 4080 bytes ends one byte behind its array. -/
theorem pathsFit_fails_at_limit :
    LengthGuard (List.replicate 4080 'd') ∧
      ¬PathsFit (certsAt (List.replicate 4080 'd')) (List.replicate 4080 'd') := by
  have hlength : (List.replicate 4080 'd').length = 4080 := List.length_replicate
  have hguard : LengthGuard (List.replicate 4080 'd') := by
    rw [LengthGuard, hlength]
    decide
  have hlong : PATH_MAX < pathSize (List.replicate 4080 'd') SSL_CLIENT_CERT := by
    rw [pathSize, hlength]
    decide
  refine ⟨hguard, fun h => absurd (h.written SSL_CLIENT_CERT _ ?_) (not_le.mpr hlong)⟩
  rw [initializePaths_of_long rfl hguard hlong]
  exact List.mem_singleton_self _

end DaapLog.CertificatePaths
