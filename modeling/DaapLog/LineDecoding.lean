import DaapLog.InfluxRoundTrip

/-!
Lines of `daapBuildInflux` determine what they were built from. The tags are read from
the left and the stamp from the right, so that the message may hold anything.
-/

namespace DaapLog.LineDecoding

open DaapLog.CStrings
open DaapLog.BuildInflux
open DaapLog.InfluxRoundTrip

theorem append_cons_inj_left {α : Type*} {c : α} {front front' back back' : List α}
    (hfront : c ∉ front) (hfront' : c ∉ front') (h : front ++ c :: back = front' ++ c :: back') :
    front = front' ∧ back = back' := by
  induction front generalizing front' with
  | nil =>
      cases front' with
      | nil => exact ⟨rfl, (List.cons.inj h).2⟩
      | cons d front' => exact absurd ((List.cons.inj h).1 ▸ List.mem_cons_self) hfront'
  | cons d front ih =>
      cases front' with
      | nil => exact absurd ((List.cons.inj h).1 ▸ List.mem_cons_self) hfront
      | cons d' front' =>
          obtain ⟨rfl, htail⟩ := List.cons.inj h
          obtain ⟨rfl, hback⟩ := ih (fun hmem => hfront (List.mem_cons_of_mem _ hmem))
            (fun hmem => hfront' (List.mem_cons_of_mem _ hmem)) htail
          exact ⟨rfl, hback⟩

theorem append_cons_inj_right {α : Type*} {c : α} {front front' back back' : List α}
    (hback : c ∉ back) (hback' : c ∉ back') (h : front ++ c :: back = front' ++ c :: back') :
    front = front' ∧ back = back' := by
  have hreverse := congrArg List.reverse h
  simp only [List.reverse_append, List.reverse_cons, List.append_assoc, List.singleton_append]
    at hreverse
  obtain ⟨hbacks, hfronts⟩ := append_cons_inj_left (by simpa using hback) (by simpa using hback')
    hreverse
  exact ⟨List.reverse_injective hfronts, List.reverse_injective hbacks⟩

/-- The names hold no comma, at which the tags end. -/
structure CommaFree (init_data : daap_init_t) : Prop where
  appname : ',' ∉ init_data.appname
  hostname : ',' ∉ init_data.hostname
  cluster_name : ',' ∉ init_data.cluster_name

theorem space_not_mem_decimal (x : Int) : ' ' ∉ decimal x := by
  intro h
  rcases mem_decimal h with hdigit | hdash
  · exact absurd hdigit (by decide)
  · exact absurd hdash (by decide)

/-- What is behind the tags of the names. -/
def influxTail (mpi_rank : Int) (message : Text) (tstamp : Int) : Text :=
  (MPI_RANK_KEY ++ ['=']) ++ (decimal mpi_rank ++ ' ' ::
    ((MSG_KEY ++ ['=', '"']) ++ (message ++ ['"'] ++ ' ' :: decimal tstamp)))

theorem influxLine_eq (init_data : daap_init_t) (message : Text) (tstamp : Int) :
    influxLine init_data message tstamp =
      ("daap," ++ APP_KEY ++ ['=']) ++ (init_data.appname ++ ',' ::
        ((HOST_KEY ++ ['=']) ++ (init_data.hostname ++ ',' ::
          ((CLUSTER_NAME_KEY ++ ['=']) ++ (init_data.cluster_name ++ ',' ::
            influxTail init_data.mpi_rank message tstamp))))) := by
  simp [influxLine, influxHead, influxTail]

theorem influxTail_injective {mpi_rank mpi_rank' tstamp tstamp' : Int} {message message' : Text}
    (h : influxTail mpi_rank message tstamp = influxTail mpi_rank' message' tstamp') :
    mpi_rank = mpi_rank' ∧ message = message' ∧ tstamp = tstamp' := by
  have hrank := append_cons_inj_left (space_not_mem_decimal mpi_rank)
    (space_not_mem_decimal mpi_rank') (List.append_cancel_left h)
  have hstamp := append_cons_inj_right (space_not_mem_decimal tstamp)
    (space_not_mem_decimal tstamp') (List.append_cancel_left hrank.2)
  exact ⟨decimal_injective hrank.1, List.append_cancel_right hstamp.1, decimal_injective hstamp.2⟩

theorem influxLine_injective {init_data init_data' : daap_init_t} (hnames : CommaFree init_data)
    (hnames' : CommaFree init_data') {message message' : Text} {tstamp tstamp' : Int}
    (h : influxLine init_data message tstamp = influxLine init_data' message' tstamp') :
    init_data.appname = init_data'.appname ∧ init_data.hostname = init_data'.hostname ∧
      init_data.cluster_name = init_data'.cluster_name ∧
      init_data.mpi_rank = init_data'.mpi_rank ∧ message = message' ∧ tstamp = tstamp' := by
  rw [influxLine_eq, influxLine_eq] at h
  obtain ⟨happname, hhost⟩ := append_cons_inj_left hnames.appname hnames'.appname
    (List.append_cancel_left h)
  obtain ⟨hhostname, hcluster⟩ := append_cons_inj_left hnames.hostname hnames'.hostname
    (List.append_cancel_left hhost)
  obtain ⟨hcluster_name, htail⟩ := append_cons_inj_left hnames.cluster_name hnames'.cluster_name
    (List.append_cancel_left hcluster)
  exact ⟨happname, hhostname, hcluster_name, influxTail_injective htail⟩

/-- Two calls of `daapBuildInflux` whose lines fit into the buffer and whose names hold
no comma give the same line only for the same names, rank, message and timestamp. -/
theorem daapBuildInflux_decodable {init_data init_data' : daap_init_t}
    (hnames : CommaFree init_data) (hnames' : CommaFree init_data') {timestamp timestamp' : Int}
    {message message' : Text} (hfits : FitsInflux init_data timestamp message)
    (hfits' : FitsInflux init_data' timestamp' message')
    (h : daapBuildInflux init_data timestamp message =
      daapBuildInflux init_data' timestamp' message') :
    init_data.appname = init_data'.appname ∧ init_data.hostname = init_data'.hostname ∧
      init_data.cluster_name = init_data'.cluster_name ∧
      init_data.mpi_rank = init_data'.mpi_rank ∧ message = message' ∧
      timestamp = timestamp' := by
  rw [daapBuildInflux_of_fits hfits, daapBuildInflux_of_fits hfits'] at h
  obtain ⟨happname, hhostname, hcluster_name, hrank, hmessage, hstamp⟩ :=
    influxLine_injective hnames hnames' h
  exact ⟨happname, hhostname, hcluster_name, hrank, hmessage,
    mul_right_cancel₀ (by norm_num) hstamp⟩

def flagData : daap_init_t := ⟨"flag", "gr0959", "grizzly", 0, 5, .TCP, 1635185068⟩

/-- A message that looks like the end of a line. -/
def quotedMessage : Text := "deck\" 12,mpirank=3 message=\"x"

theorem fits_quotedMessage : FitsInflux flagData 1635185068000 quotedMessage := by
  refine ⟨by decide, by norm_num, by norm_num⟩

theorem daapBuildInflux_decodable_quotedMessage :
    flagData.appname = flagData.appname ∧ flagData.hostname = flagData.hostname ∧
      flagData.cluster_name = flagData.cluster_name ∧ flagData.mpi_rank = flagData.mpi_rank ∧
      quotedMessage = quotedMessage ∧ (1635185068000 : Int) = 1635185068000 :=
  daapBuildInflux_decodable ⟨by decide, by decide, by decide⟩ ⟨by decide, by decide, by decide⟩
    fits_quotedMessage fits_quotedMessage rfl

end DaapLog.LineDecoding
