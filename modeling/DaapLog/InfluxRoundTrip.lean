import DaapLog.BuildInflux
import DaapLog.LineProtocol

/-!
Reading back the lines of `daapBuildInflux`. The library writes names and
message into the line as they are.
-/

namespace DaapLog.InfluxRoundTrip

open DaapLog.CStrings
open DaapLog.BuildInflux
open DaapLog.LineProtocol

/-- The point that a log line is meant to carry. -/
def loggedPoint (init_data : daap_init_t) (message : Text) (tstamp : Int) : Point :=
  { measurement := "daap"
    tags :=
      [(APP_KEY, init_data.appname), (HOST_KEY, init_data.hostname),
        (CLUSTER_NAME_KEY, init_data.cluster_name), (MPI_RANK_KEY, decimal init_data.mpi_rank)]
    field := (MSG_KEY, message)
    stamp := decimal tstamp }

theorem influxLine_eq_renderPoint (init_data : daap_init_t) (message : Text) (tstamp : Int) :
    influxLine init_data message tstamp = renderPoint (loggedPoint init_data message tstamp) := by
  simp [influxLine, influxHead, renderPoint, loggedPoint, renderTags]

@[simp]
theorem clean_decimal (x : Int) : Clean tagStop (decimal x) := by
  have hchar (c : Char) (hc : c ∈ decimal x) : c ≠ ',' ∧ c ≠ ' ' ∧ c ≠ '\\' := by
    rcases mem_decimal hc with hdigit | rfl
    · refine ⟨?_, ?_, ?_⟩ <;> rintro rfl <;> exact absurd hdigit (by decide)
    · decide
  refine ⟨fun c hc => ?_, fun hlast => (hchar _ (List.mem_of_getLast? hlast)).2.2 rfl⟩
  obtain ⟨hcomma, hspace, -⟩ := hchar c hc
  simp [tagStop, hcomma, hspace]

@[simp]
theorem quote_not_mem_decimal (x : Int) : '"' ∉ decimal x := by
  intro h
  rcases mem_decimal h with hdigit | hdash
  · exact absurd hdigit (by decide)
  · exact absurd hdash (by decide)

/-- A name that survives as the value of a tag. -/
def TagValue (name : Text) : Prop :=
  name ≠ [] ∧ Clean tagStop name

instance (name : Text) : Decidable (TagValue name) :=
  inferInstanceAs (Decidable (_ ∧ _))

theorem readPoint_influxLine_iff (init_data : daap_init_t) (message : Text) (tstamp : Int) :
    readPoint (influxLine init_data message tstamp) =
        some (loggedPoint init_data message tstamp) ↔
      (TagValue init_data.appname ∧ TagValue init_data.hostname ∧
        TagValue init_data.cluster_name) ∧ Plain message := by
  have hkeys : ∀ tag ∈ (loggedPoint init_data message tstamp).tags, Clean keyStop tag.1 := by
    simp only [loggedPoint, List.forall_mem_cons]
    decide
  have hkey : Clean keyStop (loggedPoint init_data message tstamp).field.1 := by
    change Clean keyStop MSG_KEY
    decide
  have hname : Clean tagStop (loggedPoint init_data message tstamp).measurement := by
    change Clean tagStop "daap"
    decide
  rw [influxLine_eq_renderPoint,
    readPoint_renderPoint_iff hname hkeys hkey (quote_not_mem_decimal tstamp)]
  simp [loggedPoint, TagValue, decimal_ne_nil, clean_decimal]

/-- A line that fits into the buffer is read back to what was put in exactly when
the three names are nonempty and need no escaping and the message has no quote, no
doubled backslash and no backslash at its end. -/
theorem daapBuildInflux_readPoint_iff (init_data : daap_init_t) (timestamp : Int) (message : Text)
    (hfits : (influxLine init_data message (toInt64 (timestamp * 1000000))).length < 2048) :
    readPoint (daapBuildInflux init_data timestamp message) =
        some (loggedPoint init_data message (toInt64 (timestamp * 1000000))) ↔
      (TagValue init_data.appname ∧ TagValue init_data.hostname ∧
        TagValue init_data.cluster_name) ∧ Plain message := by
  rw [daapBuildInflux, (snprintf_eq_self_iff (by norm_num) _ _).mpr hfits]
  exact readPoint_influxLine_iff _ _ _

theorem daapBuildInflux_readPoint_heartbeat :
    readPoint (daapBuildInflux ⟨"flag", "gr0959", "grizzly", 0, 5, .TCP, 1635185068⟩ 1635185068000
        "__daap_heartbeat") =
      some (loggedPoint ⟨"flag", "gr0959", "grizzly", 0, 5, .TCP, 1635185068⟩ "__daap_heartbeat"
        (toInt64 (1635185068000 * 1000000))) :=
  (daapBuildInflux_readPoint_iff _ _ _ (by decide)).mpr (by decide +kernel)

/-- A message with a quote is cut at it. -/
theorem daapBuildInflux_readPoint_quoted :
    readPoint (daapBuildInflux ⟨"flag", "gr0959", "grizzly", 0, 5, .TCP, 1635185068⟩ 1635185068000
        "input \"deck\" read") ≠
      some (loggedPoint ⟨"flag", "gr0959", "grizzly", 0, 5, .TCP, 1635185068⟩
        "input \"deck\" read" (toInt64 (1635185068000 * 1000000))) := by
  rw [daapBuildInflux, (snprintf_eq_self_iff (by norm_num) _ _).mpr (by decide), Ne,
    readPoint_influxLine_iff]
  decide

end DaapLog.InfluxRoundTrip
