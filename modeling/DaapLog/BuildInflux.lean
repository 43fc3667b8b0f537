import DaapLog.CStrings

/-!
`daapBuildInflux`, `daapBuildRawInflux` and the message that the log functions hand to
them. The clock, the result of `vfprintf` on the null device, the formatted text
and the indeterminate content of `full_message` are arguments.
-/

namespace DaapLog.BuildInflux

open DaapLog.CStrings

inductive Transport
  | NONE
  | SYSLOG
  | TCP
  deriving DecidableEq, Repr

/-- The part of `daap_init_t` that the writing functions read. -/
structure daap_init_t where
  appname : Text
  hostname : Text
  cluster_name : Text
  mpi_rank : Int
  level : Int
  transport_type : Transport
  start_time : Nat

def APP_KEY : Text := "appname"
def HOST_KEY : Text := "hostname"
def CLUSTER_NAME_KEY : Text := "cluster"
def MPI_RANK_KEY : Text := "mpirank"
def MSG_KEY : Text := "message"

def DAAP_SUCCESS : Int := 0
def DAAP_ERROR : Int := -1
def DAAP_MAX_MSG_LEN : Nat := 8096

/-- The text of the `snprintf` format of `daapBuildInflux` in front of the
message, up to and including the opening quote. -/
def influxHead (init_data : daap_init_t) : Text :=
  List.flatten
    ["daap,", APP_KEY, "=", init_data.appname, ",", HOST_KEY, "=", init_data.hostname, ",",
      CLUSTER_NAME_KEY, "=", init_data.cluster_name, ",", MPI_RANK_KEY, "=",
      decimal init_data.mpi_rank, " ", MSG_KEY, "=\""]

def influxLine (init_data : daap_init_t) (message : Text) (tstamp : Int) : Text :=
  influxHead init_data ++ List.flatten [message, "\" ", decimal tstamp]

def daapBuildInflux (init_data : daap_init_t) (timestamp : Int) (message : Text) : Text :=
  let max_size := 2048
  let tstamp := toInt64 (timestamp * 1000000)
  snprintf max_size [] (influxLine init_data message tstamp)

def daapBuildRawInflux (message : Text) : Text :=
  let max_size := 2048
  snprintf max_size [] ("daap," ++ message)

/-- The string in `full_message` after both formatting passes: `msg_len` is the
result of `vfprintf`, `old` the content of the uninitialised buffer. -/
def fullMessage (msg_len : Int) (old formatted : Text) : Text :=
  let msg_len := if msg_len > DAAP_MAX_MSG_LEN then (DAAP_MAX_MSG_LEN : Int) else msg_len
  snprintf (toSize (msg_len + 1)) old formatted

/-- The two passes of `daapLogWrite` keep the first `DAAP_MAX_MSG_LEN` bytes. -/
theorem fullMessage_eq_take (old formatted : Text) :
    fullMessage formatted.length old formatted = formatted.take DAAP_MAX_MSG_LEN := by
  unfold fullMessage DAAP_MAX_MSG_LEN
  dsimp only
  split
  · rw [show ((8096 : Nat) : Int) + 1 = ((8097 : Nat) : Int) by norm_num,
      toSize_natCast (by norm_num), snprintf_pos (by norm_num)]
  · rename_i h
    have hle : formatted.length ≤ 8096 := by omega
    rw [show (formatted.length : Int) + 1 = ((formatted.length + 1 : Nat) : Int) by push_cast; rfl,
      toSize_natCast (by omega), snprintf_pos (by omega)]
    simp [List.take_of_length_le hle]

theorem length_keys :
    APP_KEY.length = 7 ∧ HOST_KEY.length = 8 ∧ CLUSTER_NAME_KEY.length = 7 ∧
      MPI_RANK_KEY.length = 7 ∧ MSG_KEY.length = 7 :=
  ⟨rfl, rfl, rfl, rfl, rfl⟩

theorem length_influxHead (init_data : daap_init_t) :
    (influxHead init_data).length =
      init_data.appname.length + init_data.hostname.length + init_data.cluster_name.length +
        (decimal init_data.mpi_rank).length + 51 := by
  obtain ⟨happ, hhost, hcluster, hrank, hmessage⟩ := length_keys
  unfold influxHead
  simp [happ, hhost, hcluster, hrank, hmessage]
  omega

theorem length_influxLine (init_data : daap_init_t) (message : Text) (tstamp : Int) :
    (influxLine init_data message tstamp).length =
      (influxHead init_data).length + message.length + (decimal tstamp).length + 2 := by
  simp [influxLine]
  omega

/-- The whole line and its NUL fit into the buffer of `daapBuildInflux`, and the
stamp in nanoseconds fits into `long`. -/
def FitsInflux (init_data : daap_init_t) (timestamp : Int) (message : Text) : Prop :=
  init_data.appname.length + init_data.hostname.length + init_data.cluster_name.length +
      (decimal init_data.mpi_rank).length + message.length +
      (decimal (timestamp * 1000000)).length + 53 < 2048 ∧
    -2 ^ 63 ≤ timestamp * 1000000 ∧ timestamp * 1000000 < 2 ^ 63

theorem length_daapBuildInflux_lt (init_data : daap_init_t) (timestamp : Int) (message : Text) :
    (daapBuildInflux init_data timestamp message).length < 2048 := by
  unfold daapBuildInflux
  rw [snprintf_pos (by norm_num), List.length_take]
  omega

theorem daapBuildInflux_ne_nil (init_data : daap_init_t) (timestamp : Int) (message : Text) :
    daapBuildInflux init_data timestamp message ≠ [] := by
  unfold daapBuildInflux
  rw [snprintf_pos (by norm_num), ← List.length_pos_iff, List.length_take, length_influxLine,
    length_influxHead]
  omega

theorem daapBuildRawInflux_ne_nil (message : Text) : daapBuildRawInflux message ≠ [] := by
  unfold daapBuildRawInflux
  rw [snprintf_pos (by norm_num), ← List.length_pos_iff, List.length_take, List.length_append,
    String.length_toList, show "daap,".length = 5 from rfl]
  omega

theorem daapBuildInflux_of_fits {init_data : daap_init_t} {timestamp : Int} {message : Text}
    (h : FitsInflux init_data timestamp message) :
    daapBuildInflux init_data timestamp message =
      influxLine init_data message (timestamp * 1000000) := by
  obtain ⟨hlength, hrange⟩ := h
  unfold daapBuildInflux
  dsimp only
  rw [(toInt64_eq_self_iff _).mpr hrange, snprintf_eq_self_iff (by norm_num),
    length_influxLine, length_influxHead]
  omega

theorem fits_of_daapBuildInflux {init_data : daap_init_t} {timestamp : Int} {message : Text}
    (h : daapBuildInflux init_data timestamp message =
      influxLine init_data message (timestamp * 1000000)) :
    FitsInflux init_data timestamp message := by
  have hlength := length_daapBuildInflux_lt init_data timestamp message
  rw [h, length_influxLine, length_influxHead] at hlength
  refine ⟨by omega, ?_⟩
  -- the returned text starts the untruncated one, so only the stamps can differ
  have hprefix : influxLine init_data message (timestamp * 1000000) <+:
      influxLine init_data message (toInt64 (timestamp * 1000000)) := by
    rw [← h, daapBuildInflux, snprintf_pos (by norm_num)]
    exact List.take_prefix _ _
  simp only [influxLine, List.flatten_cons, List.flatten_nil, List.append_nil,
    List.prefix_append_right_inj] at hprefix
  obtain ⟨habs, hsign⟩ := natAbs_le_of_decimal_prefix hprefix
  have hrange := (toInt64_eq_self_iff (toInt64 (timestamp * 1000000))).mp
    (Int.bmod_bmod ..)
  omega

theorem daapBuildRawInflux_eq_iff (message : Text) :
    daapBuildRawInflux message = "daap," ++ message ↔ message.length < 2043 := by
  unfold daapBuildRawInflux
  dsimp only
  rw [snprintf_eq_self_iff (by norm_num), List.length_append, String.length_toList,
    show "daap,".length = 5 from rfl]
  omega

/-- A message that went through the formatting passes of the write functions
comes back whole exactly when its line fits into 2048 bytes, far less than
`DAAP_MAX_MSG_LEN` suggests. -/
theorem daapBuildInflux_complete_iff (init_data : daap_init_t) (timestamp : Int)
    (old formatted : Text) :
    (daapBuildInflux init_data timestamp (fullMessage formatted.length old formatted) =
        influxLine init_data (formatted.take DAAP_MAX_MSG_LEN) (timestamp * 1000000) ↔
      FitsInflux init_data timestamp (formatted.take DAAP_MAX_MSG_LEN)) ∧
    (daapBuildRawInflux (fullMessage formatted.length old formatted) =
        "daap," ++ formatted.take DAAP_MAX_MSG_LEN ↔
      formatted.length < 2043) := by
  rw [fullMessage_eq_take, daapBuildRawInflux_eq_iff, List.length_take, DAAP_MAX_MSG_LEN]
  refine ⟨⟨fits_of_daapBuildInflux, daapBuildInflux_of_fits⟩, ?_⟩
  omega

/-- A message of 3000 bytes loses its end, the closing quote and the stamp. -/
theorem daapBuildInflux_cuts_long_message :
    daapBuildInflux ⟨"flag", "gr0959", "grizzly", 0, 5, .TCP, 1635185068⟩ 1635185068000
        (fullMessage (3000 : Nat) [] (List.replicate 3000 'x')) ≠
      influxLine ⟨"flag", "gr0959", "grizzly", 0, 5, .TCP, 1635185068⟩
        ((List.replicate 3000 'x').take DAAP_MAX_MSG_LEN) (1635185068000 * 1000000) := by
  intro h
  have hmessage := fullMessage_eq_take [] (List.replicate 3000 'x')
  rw [List.length_replicate] at hmessage
  rw [hmessage] at h
  have hlength := (fits_of_daapBuildInflux h).1
  simp only [List.length_take, List.length_replicate, DAAP_MAX_MSG_LEN] at hlength
  omega

end DaapLog.BuildInflux
