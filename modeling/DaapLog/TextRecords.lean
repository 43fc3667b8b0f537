import DaapLog.MessageDispatch

/-!
The record of a text message: what its branch leaves of the items under keys that it does
not deal with itself, and where the record is among those of a call.
-/

namespace DaapLog.TextRecords

open DaapLog.CStrings
open DaapLog.OrderedHash
open DaapLog.RubyValues
open DaapLog.PluginActions
open DaapLog.PluginMessages
open DaapLog.TextDispatch
open DaapLog.PluginProcess
open DaapLog.ErrorIsolation
open DaapLog.MessageDispatch

/-- The event hands `message` to the branches for text messages. -/
def IsText (rb : Runtime) (e : Event) (message : Text) : Prop :=
  ∃ record, parsedRecord rb e.2 = some record ∧ hasKey record "metrics".toList = false ∧
    get record "message".toList = some (.str message)

/-- In every call the event adds one record to what is emitted for the others. -/
def Emits (rb : Runtime) (e : Event) (out : Val × Record) : Prop :=
  ∀ cur_ts jobs past future, (process rb cur_ts jobs (past ++ e :: future)).2 =
    (process rb cur_ts jobs past).2.bind fun before =>
      (process rb cur_ts jobs future).2.map fun after => before ++ out :: after

theorem map_toVal_str_iff {o : Option Scalar} {text : Text} :
    o.map Scalar.toVal = some (.str text) ↔ o = some (.str text) := by
  cases o with
  | none => exact iff_of_false (Option.some_ne_none _).symm (Option.some_ne_none _).symm
  | some v => cases v <;> simp [Scalar.toVal]

theorem map_toVal_num_iff {o : Option Scalar} {x : ℚ} :
    o.map Scalar.toVal = some (.num x) ↔ o = some (.num x) := by
  cases o with
  | none => exact iff_of_false (Option.some_ne_none _).symm (Option.some_ne_none _).symm
  | some v => cases v <;> simp [Scalar.toVal]

section Events

variable {rb : Runtime} {e : Event} {message : Text}

theorem eventActions_of_isText (h : IsText rb e message) :
    eventActions rb e = textActions rb message := by
  obtain ⟨record, hrecord, hmetrics, hmessage⟩ := h
  have hfetch : fetch record "message".toList = .str message := by rw [fetch, hmessage]; rfl
  have hkey : hasKey record "message".toList = true := by rw [hasKey, hmessage]; rfl
  have hnext : (hasKey e.2 "metrics".toList || hasKey e.2 "message".toList) = true := by
    cases hmissing : hasKey e.2 "message".toList with
    | true => exact Bool.or_true _
    | false =>
        rw [parsedRecord, fetch_of_not_hasKey hmissing] at hrecord
        obtain rfl := Option.some.inj hrecord
        exact absurd (hkey.symm.trans hmissing) Bool.noConfusion
  rw [eventActions, if_pos hnext, hrecord]
  simp only [recordActions, hmetrics, hkey, hfetch, messageActions, Bool.not_false, Bool.and_self,
    if_pos]

theorem emits_iff {out : Val × Record} :
    Emits rb e out ↔ (eventActions rb e).mapM (emit rb) = some [out] := by
  constructor
  · intro h
    have halone := h 0 [] [] []
    rw [List.nil_append, process_emits, List.flatMap_singleton] at halone
    exact halone
  · intro h cur_ts jobs past future
    have hevent : (process rb cur_ts jobs [e]).2 = some [out] := by
      rw [process_emits, List.flatMap_singleton, h]
    have hfuture : (process rb cur_ts jobs (e :: future)).2 =
        (process rb cur_ts jobs future).2.map fun after => out :: after := by
      rw [← List.singleton_append, process_append, hevent]
      rfl
    rw [process_append, hfuture]
    simp only [Option.map_map]
    rfl

/-- A record with seconds as its time is emitted at that time. -/
theorem emits_of_push {new_rec : Fields} {ts : ℚ}
    (hpush : eventActions rb e = [.push new_rec.toRecord])
    (hts : get new_rec "timestamp".toList = some (.num ts)) :
    ∃ m, Emits rb e (.num ts, m) ∧
      ∀ key ≠ "timestamp".toList, get m key = (get new_rec key).map Scalar.toVal := by
  have hfetch : fetch new_rec.toRecord "timestamp".toList = .num ts := by
    rw [fetch, get_toRecord, hts]
    rfl
  have hstamp : ∃ m, stampRecord rb new_rec.toRecord = some (.num ts, m) := by
    rw [stampRecord, hfetch]
    split
    · exact ⟨_, rfl⟩
    · exact ⟨_, rfl⟩
  obtain ⟨m, hm⟩ := hstamp
  refine ⟨m, emits_iff.mpr ?_, fun key hkey => ?_⟩
  · rw [hpush, mapM_cons_some, emit, hm]
    rfl
  · rw [stampRecord_get hm hkey, get_toRecord]

theorem not_emits_of_raise (hraise : eventActions rb e = [.raise]) (out : Val × Record) :
    ¬Emits rb e out := by
  rw [emits_iff, hraise]
  exact (Option.some_ne_none [out]).symm

theorem Emits.unique {out out' : Val × Record} (h : Emits rb e out) (h' : Emits rb e out') :
    out = out' := by
  rw [emits_iff] at h h'
  exact (List.cons.inj (Option.some.inj (h.symm.trans h'))).1

end Events

section Branches

/-- What a branch does to the fields behind their items. -/
def convert (rb : Runtime) (code : Code) (new_rec : Fields) : Fields :=
  match code with
  | .lap => lapFields rb new_rec
  | .poisson => poissonFields rb new_rec
  | .jayenne => jayenneFields rb new_rec
  | .mcatk => mcatkFields rb new_rec
  | .sap => sapFields rb new_rec
  | .xrage =>
      if metricIncludes new_rec "xrage_metrics".toList then xrageFields rb new_rec
      else driverFields rb new_rec

/-- The items of a message that are in the record before the branch deals with some. -/
def itemFields (code : Code) (message : Text) : Option Fields :=
  addItems [("metric".toList, .str code.metric)] (kv_pairs code message)

theorem actions_eq_push {rb : Runtime} {code : Code} {message : Text} {r : Fields}
    (hitems : itemFields code message = some r) (hsome : kv_pairs code message ≠ []) :
    code.actions rb message = [.push (stamp (convert rb code r)).toRecord] := by
  rw [itemFields] at hitems
  have hbranch (change : Fields → Fields) :
      branch code change message = [.push (stamp (change r)).toRecord] := by
    rw [branch, hitems]
    rfl
  cases code with
  | lap => exact hbranch (lapFields rb)
  | poisson => exact hbranch (poissonFields rb)
  | jayenne => exact hbranch (jayenneFields rb)
  | mcatk => exact hbranch (mcatkFields rb)
  | sap => exact hbranch (sapFields rb)
  | xrage =>
      have hlength : ¬(kv_pairs .xrage message).length < 1 := by
        simpa [Nat.lt_one_iff] using hsome
      rw [Code.actions, xrage_metrics, hitems]
      simp only [if_neg hlength, convert]
      split
      · rfl
      · rfl

theorem actions_eq_raise {rb : Runtime} {code : Code} {message : Text}
    (hitems : itemFields code message = none) : code.actions rb message = [.raise] := by
  rw [itemFields] at hitems
  have hbranch (change : Fields → Fields) : branch code change message = [.raise] := by
    rw [branch, hitems]
    rfl
  cases code with
  | lap => exact hbranch (lapFields rb)
  | poisson => exact hbranch (poissonFields rb)
  | jayenne => exact hbranch (jayenneFields rb)
  | mcatk => exact hbranch (mcatkFields rb)
  | sap => exact hbranch (sapFields rb)
  | xrage => rw [Code.actions, xrage_metrics, hitems]

/-- The keys whose values a branch converts to numbers, renames or strips of dashes, as
long as its metric is its own. -/
def dealtWith : Code → List Text
  | .lap => ["tot-time_cycles-1", "adjusted_runtime", "total_number_of_zones",
      "number_of_cycles-1", "total_number_of_processors"].map String.toList
  | .poisson => ["jobid", "cpu", "cycle_time", "numpe", "cycles", "cells", "nodes", "ppn"].map
      String.toList
  | .jayenne => ["runtime", "n_cores", "n_particles"].map String.toList
  | .mcatk => ["total_solve_time", "ppn", "nodes", "numpe"].map String.toList
  | .sap => ["cpu_time_per_cell", "runtime_per_cycle", "npes", "cells"].map String.toList
  | .xrage => ["job_id", "scm_id_0.EH0", "scm_id_0.EB0", "scm_id_1.EB1", "scm_id_1.EH1",
      "scm_id_2.EH2", "scm_id_2.EB2", "numpe", "nodes", "ppn_min", "ppn_max", "dims",
      "n_cycles", "scale", "rss_min", "rss_avg", "rss_max", "cyc_cc_min", "cyc_cc_avg",
      "cyc_cc_max", "cyc_sec_min", "cyc_sec_avg", "cyc_sec_max", "sum_cyc_sec", "rss_max_min",
      "rss_max_avg", "rss_max_max", "avg_cells_min", "avg_cells_avg", "avg_cells_max",
      "elapsed_s", "elapsed_minus_first_s"].map String.toList

/-- The new names. -/
def overwritten : Code → List Text
  | .lap => ["tot_time_cycles_1", "number_of_cycles_1"].map String.toList
  | .xrage => ["scm_id_0_EH0", "scm_id_0_EB0", "scm_id_1_EB1", "scm_id_1_EH1", "scm_id_2_EH2",
      "scm_id_2_EB2"].map String.toList
  | _ => []

section Untouched

variable {key : Text} {code : Code}

theorem lapFields_get (hkey : key ∉ dealtWith .lap ++ overwritten .lap) (rb : Runtime)
    (new_rec : Fields) : get (lapFields rb new_rec) key = get new_rec key := by
  have hne {item : Text} (h : item ∈ dealtWith .lap ++ overwritten .lap) : key ≠ item :=
    fun heq => hkey (heq ▸ h)
  have hnot {items : List Text} (h : ∀ item ∈ items, item ∈ dealtWith .lap ++ overwritten .lap) :
      key ∉ items := fun hmem => hkey (h key hmem)
  rw [lapFields, get_ints (hnot (by decide)), get_rename (hne (by decide)) (hne (by decide)),
    get_ints (hnot (by decide)), get_floats (hnot (by decide)),
    get_rename (hne (by decide)) (hne (by decide)), get_floats (hnot (by decide))]

theorem poissonFields_get (hkey : key ∉ dealtWith .poisson) (rb : Runtime) (new_rec : Fields) :
    get (poissonFields rb new_rec) key = get new_rec key := by
  have hne {item : Text} (h : item ∈ dealtWith .poisson) : key ≠ item := fun heq => hkey (heq ▸ h)
  have hnot {items : List Text} (h : ∀ item ∈ items, item ∈ dealtWith .poisson) : key ∉ items :=
    fun hmem => hkey (h key hmem)
  rw [poissonFields, get_ints (hnot (by decide)), get_floats (hnot (by decide)),
    get_dropDashes (hne (by decide))]

theorem jayenneFields_get (hkey : key ∉ dealtWith .jayenne) (rb : Runtime) (new_rec : Fields) :
    get (jayenneFields rb new_rec) key = get new_rec key := by
  have hnot {items : List Text} (h : ∀ item ∈ items, item ∈ dealtWith .jayenne) : key ∉ items :=
    fun hmem => hkey (h key hmem)
  rw [jayenneFields, get_ints (hnot (by decide)), get_floats (hnot (by decide))]

theorem mcatkFields_get (hkey : key ∉ dealtWith .mcatk) (rb : Runtime) (new_rec : Fields) :
    get (mcatkFields rb new_rec) key = get new_rec key := by
  have hnot {items : List Text} (h : ∀ item ∈ items, item ∈ dealtWith .mcatk) : key ∉ items :=
    fun hmem => hkey (h key hmem)
  rw [mcatkFields, get_ints (hnot (by decide)), get_floats (hnot (by decide))]

theorem sapFields_get (hkey : key ∉ dealtWith .sap) (rb : Runtime) (new_rec : Fields) :
    get (sapFields rb new_rec) key = get new_rec key := by
  have hnot {items : List Text} (h : ∀ item ∈ items, item ∈ dealtWith .sap) : key ∉ items :=
    fun hmem => hkey (h key hmem)
  rw [sapFields, get_ints (hnot (by decide)), get_floats (hnot (by decide))]

theorem xrageFields_get (hkey : key ∉ dealtWith .xrage ++ overwritten .xrage) (rb : Runtime)
    {new_rec : Fields}
    (htime : key = "timestamp".toList → hasKey new_rec "run_date".toList = false) :
    get (xrageFields rb new_rec) key = get new_rec key := by
  have hne {item : Text} (h : item ∈ dealtWith .xrage ++ overwritten .xrage) : key ≠ item :=
    fun heq => hkey (heq ▸ h)
  have hnot {items : List Text}
      (h : ∀ item ∈ items, item ∈ dealtWith .xrage ++ overwritten .xrage) : key ∉ items :=
    fun hmem => hkey (h key hmem)
  rw [xrageFields, get_floats (hnot (by decide)), get_ints (hnot (by decide)),
    get_scmId (hne (by decide)) (hne (by decide)), get_scmId (hne (by decide)) (hne (by decide)),
    get_scmId (hne (by decide)) (hne (by decide)), get_scmId (hne (by decide)) (hne (by decide)),
    get_scmId (hne (by decide)) (hne (by decide)), get_scmId (hne (by decide)) (hne (by decide))]
  have hdashes : get (dropDashes "job_id".toList new_rec) key = get new_rec key :=
    get_dropDashes (hne (by decide)) new_rec
  split
  · next hdate =>
      have hkeep : key ≠ "timestamp".toList := by
        intro heq
        have hmissing := htime heq
        rw [hasKey, get_dropDashes (by decide), ← hasKey, hmissing] at hdate
        exact absurd hdate Bool.false_ne_true
      rw [get_set_of_ne hkeep, hdashes]
  · exact hdashes

/-- The numbers in an xrage record with another `metric`. -/
def driverItems : List Text :=
  ["driver_after_cyclemin", "driver_after_cyclemax", "driver_after_cycleavg"].map String.toList

theorem driverFields_get (hkey : key ∉ driverItems) (rb : Runtime) (new_rec : Fields) :
    get (driverFields rb new_rec) key = get new_rec key := by
  have hne : ∀ item ∈ driverItems, key ≠ id item := fun item hitem heq => hkey (heq ▸ hitem)
  have hkeep := get_foldl_set id (fun r item => .num (to_f rb r item)) hne new_rec
  rw [driverFields]
  exact hkeep

/-- A branch leaves the values under other keys than its own alone. -/
theorem get_convert (hdealt : key ∉ dealtWith code) (hover : key ∉ overwritten code)
    (htime : key ≠ "timestamp".toList) (rb : Runtime) {new_rec : Fields}
    (hmetric : code = .xrage →
      metricIncludes new_rec "xrage_metrics".toList ∨ key ∉ driverItems) :
    get (convert rb code new_rec) key = get new_rec key := by
  have hboth : key ∉ dealtWith code ++ overwritten code := by
    rw [List.mem_append, not_or]
    exact ⟨hdealt, hover⟩
  cases code with
  | lap => exact lapFields_get hboth rb new_rec
  | poisson => exact poissonFields_get hdealt rb new_rec
  | jayenne => exact jayenneFields_get hdealt rb new_rec
  | mcatk => exact mcatkFields_get hdealt rb new_rec
  | sap => exact sapFields_get hdealt rb new_rec
  | xrage =>
      rw [convert]
      split
      · exact xrageFields_get hboth rb fun heq => absurd heq htime
      · next hother =>
          exact driverFields_get ((hmetric rfl).resolve_left hother) rb new_rec

theorem get_convert_timestamp (rb : Runtime) {new_rec : Fields}
    (hdate : code = .xrage → hasKey new_rec "run_date".toList = false) :
    get (convert rb code new_rec) "timestamp".toList = get new_rec "timestamp".toList := by
  cases code with
  | lap => exact lapFields_get (by decide) rb new_rec
  | poisson => exact poissonFields_get (by decide) rb new_rec
  | jayenne => exact jayenneFields_get (by decide) rb new_rec
  | mcatk => exact mcatkFields_get (by decide) rb new_rec
  | sap => exact sapFields_get (by decide) rb new_rec
  | xrage =>
      rw [convert]
      split
      · exact xrageFields_get (by decide) rb fun _ => hdate rfl
      · exact driverFields_get (by decide) rb new_rec

end Untouched

end Branches

section NewNames

theorem get_rename_new {old new : Text} {new_rec : Fields} {v : Scalar}
    (hv : get new_rec old = some v) (hne : new ≠ old) :
    get (rename old new new_rec) new = some v := by
  rw [rename, hv]
  simp only [get_delete_of_ne hne, get_set_self]

theorem get_ints_self {item : Text} {items : List Text} (hitem : item ∈ items)
    (new_rec : Fields) : ∃ x, get (ints items new_rec) item = some (.num x) := by
  rw [ints]
  induction items generalizing new_rec with
  | nil => exact absurd hitem List.not_mem_nil
  | cons item' items ih =>
      rw [List.foldl_cons]
      by_cases hlater : item ∈ items
      · exact ih hlater _
      · obtain rfl : item = item' := (List.mem_cons.mp hitem).resolve_right hlater
        have hkeep := get_ints hlater (set new_rec item (.num (to_i new_rec item)))
        rw [ints, get_set_self] at hkeep
        exact ⟨_, hkeep⟩

theorem lapFields_get_new {key : Text} (hkey : key ∈ overwritten .lap) (rb : Runtime)
    (new_rec : Fields) : ∃ x, get (lapFields rb new_rec) key = some (.num x) := by
  simp only [overwritten, List.map_cons, List.map_nil, List.mem_cons, List.not_mem_nil,
    or_false] at hkey
  rcases hkey with rfl | rfl
  · have hfloat (digits : Nat) (item : Text) (r : Fields) :
        get (floats rb digits [item] r) item = some (.num (rb.round (to_f rb r item) digits)) :=
      get_set_self _ _ _
    refine ⟨rb.round (to_f rb new_rec "tot-time_cycles-1".toList) 8, ?_⟩
    rw [lapFields, get_ints (by decide), get_rename (by decide) (by decide),
      get_ints (by decide), get_floats (by decide),
      get_rename_new (hfloat _ _ _) (by decide)]
  · obtain ⟨x, hx⟩ := get_ints_self
      (show "number_of_cycles-1".toList ∈
        ["total_number_of_zones".toList, "number_of_cycles-1".toList] by decide)
      (floats rb 8 ["adjusted_runtime".toList]
        (rename "tot-time_cycles-1".toList "tot_time_cycles_1".toList
          (floats rb 8 ["tot-time_cycles-1".toList] new_rec)))
    refine ⟨x, ?_⟩
    rw [lapFields, get_ints (by decide), get_rename_new hx (by decide)]

/-- An item that gets a new name, and has a value there if it is missing. -/
structure ScmId where
  old : Text
  new : Text
  default : Text

def scmIds : List ScmId :=
  [⟨"scm_id_0.EH0".toList, "scm_id_0_EH0".toList,
      "9c29c13659d2e995cbd4f22fb8634bc7c5b47b5b".toList⟩,
    ⟨"scm_id_0.EB0".toList, "scm_id_0_EB0".toList, "master".toList⟩,
    ⟨"scm_id_1.EB1".toList, "scm_id_1_EB1".toList, "master".toList⟩,
    ⟨"scm_id_1.EH1".toList, "scm_id_1_EH1".toList,
      "72df37ead555035ba71867782fe6a69b216ff30a".toList⟩,
    ⟨"scm_id_2.EH2".toList, "scm_id_2_EH2".toList,
      "b877a35ac8480f5f05280f760f47e4a43f1b24c3".toList⟩,
    ⟨"scm_id_2.EB2".toList, "scm_id_2_EB2".toList, "master".toList⟩]

theorem get_scmId_new {old new default : Text} (hne : new ≠ old) (new_rec : Fields) :
    get (scmId old new default new_rec) new = some ((get new_rec old).getD (.str default)) := by
  rw [scmId, hasKey]
  cases hold : get new_rec old with
  | none =>
      rw [Option.isSome_none, if_neg Bool.false_ne_true, get_set_self]
      rfl
  | some v =>
      rw [Option.isSome_some, if_pos rfl, get_rename_new hold hne]
      rfl

/-- No two of the items have a name in common. -/
def NamesDiffer (n n' : ScmId) : Prop :=
  n.old ≠ n'.old ∧ n.old ≠ n'.new ∧ n.new ≠ n'.old ∧ n.new ≠ n'.new

instance (n n' : ScmId) : Decidable (NamesDiffer n n') := inferInstanceAs (Decidable (_ ∧ _))

theorem get_foldl_scmId {ids : List ScmId} (hids : ids.Pairwise NamesDiffer)
    (hne : ∀ n ∈ ids, n.new ≠ n.old) {n : ScmId} (hn : n ∈ ids) (new_rec : Fields) :
    get (ids.foldl (fun r n => scmId n.old n.new n.default r) new_rec) n.new =
      some ((get new_rec n.old).getD (.str n.default)) := by
  have hkeep {ids : List ScmId} {key : Text}
      (hkey : ∀ n ∈ ids, key ≠ n.old ∧ key ≠ n.new) (r : Fields) :
      get (ids.foldl (fun r n => scmId n.old n.new n.default r) r) key = get r key := by
    induction ids generalizing r with
    | nil => rfl
    | cons n ids ih =>
        rw [List.forall_mem_cons] at hkey
        rw [List.foldl_cons, ih hkey.2, get_scmId hkey.1.1 hkey.1.2]
  induction ids generalizing new_rec with
  | nil => exact absurd hn List.not_mem_nil
  | cons n' ids ih =>
      rw [List.pairwise_cons] at hids
      rw [List.forall_mem_cons] at hne
      rw [List.foldl_cons]
      rcases List.mem_cons.mp hn with rfl | hmem
      · rw [hkeep fun n' hn' => ⟨(hids.1 n' hn').2.2.1, (hids.1 n' hn').2.2.2⟩,
          get_scmId_new hne.1]
      · have hnames := hids.1 n hmem
        rw [ih hids.2 hne.2 hmem, get_scmId hnames.1.symm hnames.2.2.1.symm]

/-- An xrage record in front of its new names. -/
def datedFields (new_rec : Fields) : Fields :=
  let new_rec := dropDashes "job_id".toList new_rec
  if hasKey new_rec "run_date".toList then
    set new_rec "timestamp".toList (.num (to_i new_rec "run_date".toList))
  else new_rec

theorem get_datedFields {key : Text} (hjob : key ≠ "job_id".toList)
    (htime : key ≠ "timestamp".toList) (new_rec : Fields) :
    get (datedFields new_rec) key = get new_rec key := by
  rw [datedFields]
  split
  · rw [get_set_of_ne htime, get_dropDashes hjob]
  · exact get_dropDashes hjob new_rec

/-- The new names of `xrage` have the values of the old ones. -/
theorem xrageFields_get_new {n : ScmId} (hn : n ∈ scmIds) (rb : Runtime) (new_rec : Fields) :
    get (xrageFields rb new_rec) n.new = some ((get new_rec n.old).getD (.str n.default)) := by
  have hold : ∀ n ∈ scmIds, n.old ≠ "job_id".toList ∧ n.old ≠ "timestamp".toList := by decide
  have hnew : ∀ n ∈ scmIds, n.new ∉ dealtWith .xrage := by decide
  have hsubset {items : List Text} (h : ∀ item ∈ items, item ∈ dealtWith .xrage) :
      n.new ∉ items := fun hmem => hnew n hn (h _ hmem)
  have hnames := get_foldl_scmId (by decide) (by decide) hn (datedFields new_rec)
  rw [get_datedFields (hold n hn).1 (hold n hn).2] at hnames
  simp only [scmIds, List.foldl_cons, List.foldl_nil, datedFields] at hnames
  rw [xrageFields, get_floats (hsubset (by decide)), get_ints (hsubset (by decide))]
  exact hnames

end NewNames

end DaapLog.TextRecords
