import DaapLog.PluginActions

/-!
The branches of `process` for messages that are plain text: the six benchmark codes
and the caliper reports.
-/

namespace DaapLog.PluginMessages

open DaapLog.CStrings
open DaapLog.OrderedHash
open DaapLog.LinearPatterns
open DaapLog.RubyValues
open DaapLog.PluginActions
open DaapLog.RubyStrings (split words splitItem HasValue)

/-- What a text branch stores in its record. -/
inductive Scalar
  | num (x : ℚ)
  | str (s : Text)

abbrev Fields := Hash Text Scalar

def Scalar.toVal : Scalar → Val
  | num x => .num x
  | str s => .str s

def Fields.toRecord (new_rec : Fields) : Record := new_rec.map fun e => (e.1, e.2.toVal)

/-- `new_rec[item].to_f`, also for a missing item. -/
def to_f (rb : Runtime) (new_rec : Fields) (item : Text) : ℚ :=
  match get new_rec item with
  | none => 0
  | some (.num x) => x
  | some (.str s) => rb.to_f s

/-- `new_rec[item].to_i`, also for a missing item. -/
def to_i (new_rec : Fields) (item : Text) : Int :=
  match get new_rec item with
  | none => 0
  | some (.num x) => truncate x
  | some (.str s) => RubyStrings.to_i s

def floats (rb : Runtime) (digits : Nat) (items : List Text) (new_rec : Fields) : Fields :=
  items.foldl (fun r item => set r item (.num (rb.round (to_f rb r item) digits))) new_rec

def ints (items : List Text) (new_rec : Fields) : Fields :=
  items.foldl (fun r item => set r item (.num (to_i r item))) new_rec

/-- Nanoseconds become seconds. -/
def stamp (new_rec : Fields) : Fields :=
  set new_rec "timestamp".toList (.num (to_i new_rec "timestamp".toList / 1000000000 : Int))

theorem get_floats {rb : Runtime} {digits : Nat} {items : List Text} {key : Text}
    (hkey : key ∉ items) (new_rec : Fields) :
    get (floats rb digits items new_rec) key = get new_rec key := by
  refine get_foldl_set id _ ?_ new_rec
  rintro item hitem rfl
  exact hkey hitem

theorem get_ints {items : List Text} {key : Text} (hkey : key ∉ items) (new_rec : Fields) :
    get (ints items new_rec) key = get new_rec key := by
  refine get_foldl_set id _ ?_ new_rec
  rintro item hitem rfl
  exact hkey hitem

def dropDashes (item : Text) (new_rec : Fields) : Fields :=
  match get new_rec item with
  | some (.str s) => set new_rec item (.str (remove (lit "-".toList 0) s))
  | _ => new_rec

theorem get_dropDashes {item key : Text} (hne : key ≠ item) (new_rec : Fields) :
    get (dropDashes item new_rec) key = get new_rec key := by
  rw [dropDashes]
  split
  · exact get_set_of_ne hne _ _
  · rfl

def addItem (new_rec : Fields) (item : Text) : Option Fields :=
  (splitItem item).map fun kv => set new_rec kv.1 (.str kv.2)

def addItems (new_rec : Fields) (kv_pairs : List Text) : Option Fields :=
  kv_pairs.foldlM addItem new_rec

theorem addItems_isSome_iff (new_rec : Fields) (kv_pairs : List Text) :
    (addItems new_rec kv_pairs).isSome ↔ ∀ item ∈ kv_pairs, HasValue item := by
  induction kv_pairs generalizing new_rec with
  | nil => simp [addItems]
  | cons item kv_pairs ih =>
      rw [List.forall_mem_cons, ← RubyStrings.splitItem_isSome_iff, addItems, List.foldlM_cons,
        addItem]
      cases splitItem item with
      | none => simp
      | some kv => simpa [addItems] using ih (set new_rec kv.1 (.str kv.2))

/-- The value that the items leave under a key: that of the last item with it. -/
def itemValue (key : Text) (kv_pairs : List Text) : Option Text :=
  ((kv_pairs.filterMap splitItem).reverse.find? (·.1 = key)).map Prod.snd

theorem get_addItems {new_rec r : Fields} {kv_pairs : List Text} (key : Text)
    (h : addItems new_rec kv_pairs = some r) :
    get r key = ((itemValue key kv_pairs).map Scalar.str).or (get new_rec key) := by
  induction kv_pairs generalizing new_rec with
  | nil =>
      obtain rfl : new_rec = r := by simpa [addItems] using h
      rfl
  | cons item kv_pairs ih =>
      rw [addItems, List.foldlM_cons, addItem] at h
      cases hsplit : splitItem item with
      | none => simp [hsplit] at h
      | some kv =>
          rw [hsplit] at h
          rw [ih h, get_set, itemValue, itemValue, List.filterMap_cons_some hsplit,
            List.reverse_cons, List.find?_append]
          cases (kv_pairs.filterMap splitItem).reverse.find? (·.1 = key) with
          | some last => rfl
          | none =>
              by_cases hkey : kv.1 = key
              · simp [hkey]
              · have hne : ¬key = kv.1 := fun h => hkey h.symm
                simp [hkey, hne]

/-- The codes with a branch of their own, in the order in which they are tried. -/
inductive Code
  | lap
  | poisson
  | jayenne
  | mcatk
  | sap
  | xrage
  deriving DecidableEq

namespace Code

def all : List Code := [lap, poisson, jayenne, mcatk, sap, xrage]

theorem mem_all (code : Code) : code ∈ all := by
  cases code <;> decide

def text : Code → Text
  | lap => "lap-metrics".toList
  | poisson => "poisson-metrics".toList
  | jayenne => "jayenne".toList
  | mcatk => "mcatk".toList
  | sap => "sap".toList
  | xrage => "xrage".toList

/-- These two have a space behind their name, the others a comma. -/
def spaced (code : Code) : Bool := code = mcatk || code = poisson

def separator (code : Code) : Char := if code.spaced then ' ' else ','

/-- The text that selects the branch. -/
def trigger (code : Code) : Text := code.text ++ [code.separator]

def first_field : Code → Text
  | lap => "problem_name".toList
  | poisson => "app".toList
  | jayenne => "runtime".toList
  | mcatk => []
  | sap => "npes".toList
  | xrage => "job_id".toList

def metric : Code → Text
  | lap => "lap_metrics".toList
  | poisson => "ristra_metrics".toList
  | jayenne => "jayenne_metrics".toList
  | mcatk => "mcatk_metrics".toList
  | sap => "sap_metrics".toList
  | xrage => "xrage_metrics".toList

theorem metric_injective : Function.Injective metric := by
  intro code code' h
  cases code <;> cases code' <;> first | rfl | exact absurd h (by decide)

end Code

/-- `^(.*) (\d+).*` -/
def timestampPattern : Pattern :=
  bol ++ star inLine 1 ++ lit " ".toList 0 ++ plus Char.isDigit 2 ++ star inLine 0

/-- `\s+(first_field=)` -/
def fieldsPattern (first_field : Text) : Pattern :=
  plus isspace 0 ++ lit (first_field ++ "=".toList) 1

def common_clean (message : Text) (code : Code) (first_field : Text) : Text :=
  let message := remove (bol ++ lit code.trigger 0) message
  let message := remove (lit ".localdomain".toList 0) message
  let message := remove (lit ".lanl.gov".toList 0) message
  let message := remove (lit "\\".toList 0) message
  let message := remove (lit "\"".toList 0) message
  let message :=
    if code.spaced then message
    else
      gsub (fieldsPattern first_field)
        (fun parts => ",".toList ++ capture (fieldsPattern first_field) parts 1) message
  gsub timestampPattern
    (fun parts => capture timestampPattern parts 1 ++ ",timestamp=".toList ++
      capture timestampPattern parts 2) message

def kv_pairs (code : Code) (message : Text) : List Text :=
  split ',' (common_clean message code code.first_field)

/-- The record of a branch; `none` is the exception for an item without value. -/
def pushed : Option Fields → List Action
  | none => [.raise]
  | some new_rec => [.push new_rec.toRecord]

/-- The branch of a code; the codes differ in the numbers they `convert`. -/
def branch (code : Code) (convert : Fields → Fields) (message : Text) : List Action :=
  pushed ((addItems [("metric".toList, .str code.metric)] (kv_pairs code message)).map
    fun new_rec => stamp (convert new_rec))

/-- A field under a new name. -/
def rename (old new : Text) (new_rec : Fields) : Fields :=
  match get new_rec old with
  | none => new_rec
  | some v => delete (set new_rec new v) old

theorem get_rename {old new key : Text} (hold : key ≠ old) (hnew : key ≠ new)
    (new_rec : Fields) : get (rename old new new_rec) key = get new_rec key := by
  rw [rename]
  split
  · rfl
  · rw [get_delete_of_ne hold, get_set_of_ne hnew]

def lapFields (rb : Runtime) (new_rec : Fields) : Fields :=
  let new_rec := floats rb 8 ["tot-time_cycles-1".toList] new_rec
  let new_rec := rename "tot-time_cycles-1".toList "tot_time_cycles_1".toList new_rec
  let new_rec := floats rb 8 ["adjusted_runtime".toList] new_rec
  let new_rec := ints ["total_number_of_zones".toList, "number_of_cycles-1".toList] new_rec
  let new_rec := rename "number_of_cycles-1".toList "number_of_cycles_1".toList new_rec
  ints ["total_number_of_processors".toList] new_rec

def lap_metrics (rb : Runtime) : Text → List Action := branch .lap (lapFields rb)

def poissonFields (rb : Runtime) (new_rec : Fields) : Fields :=
  let new_rec := dropDashes "jobid".toList new_rec
  let new_rec := floats rb 3 (["cpu", "cycle_time"].map String.toList) new_rec
  ints (["numpe", "cycles", "cells", "nodes", "ppn"].map String.toList) new_rec

def poisson_metrics (rb : Runtime) : Text → List Action := branch .poisson (poissonFields rb)

def jayenneFields (rb : Runtime) (new_rec : Fields) : Fields :=
  let new_rec := floats rb 3 ["runtime".toList] new_rec
  ints (["n_cores", "n_particles"].map String.toList) new_rec

def jayenne_metrics (rb : Runtime) : Text → List Action := branch .jayenne (jayenneFields rb)

def mcatkFields (rb : Runtime) (new_rec : Fields) : Fields :=
  let new_rec := floats rb 3 ["total_solve_time".toList] new_rec
  ints (["ppn", "nodes", "numpe"].map String.toList) new_rec

def mcatk_metrics (rb : Runtime) : Text → List Action := branch .mcatk (mcatkFields rb)

def sapFields (rb : Runtime) (new_rec : Fields) : Fields :=
  let new_rec := floats rb 3 (["cpu_time_per_cell", "runtime_per_cycle"].map String.toList) new_rec
  ints (["npes", "cells"].map String.toList) new_rec

def sap_metrics (rb : Runtime) : Text → List Action := branch .sap (sapFields rb)

/-- `scm_id_0.EH0` becomes `scm_id_0_EH0`, which has a value if there is none. -/
def scmId (old new default : Text) (new_rec : Fields) : Fields :=
  if hasKey new_rec old then rename old new new_rec else set new_rec new (.str default)

theorem get_scmId {old new default key : Text} (hold : key ≠ old) (hnew : key ≠ new)
    (new_rec : Fields) : get (scmId old new default new_rec) key = get new_rec key := by
  rw [scmId]
  split
  · exact get_rename hold hnew new_rec
  · exact get_set_of_ne hnew _ _

/-- The fields of an xrage record whose `metric` has not been overwritten. -/
def xrageFields (rb : Runtime) (new_rec : Fields) : Fields :=
  let new_rec := dropDashes "job_id".toList new_rec
  let new_rec :=
    if hasKey new_rec "run_date".toList then
      set new_rec "timestamp".toList (.num (to_i new_rec "run_date".toList))
    else new_rec
  let new_rec := scmId "scm_id_0.EH0".toList "scm_id_0_EH0".toList
    "9c29c13659d2e995cbd4f22fb8634bc7c5b47b5b".toList new_rec
  let new_rec := scmId "scm_id_0.EB0".toList "scm_id_0_EB0".toList "master".toList new_rec
  let new_rec := scmId "scm_id_1.EB1".toList "scm_id_1_EB1".toList "master".toList new_rec
  let new_rec := scmId "scm_id_1.EH1".toList "scm_id_1_EH1".toList
    "72df37ead555035ba71867782fe6a69b216ff30a".toList new_rec
  let new_rec := scmId "scm_id_2.EH2".toList "scm_id_2_EH2".toList
    "b877a35ac8480f5f05280f760f47e4a43f1b24c3".toList new_rec
  let new_rec := scmId "scm_id_2.EB2".toList "scm_id_2_EB2".toList "master".toList new_rec
  let new_rec := ints (["numpe", "nodes", "ppn_min", "ppn_max", "dims", "n_cycles"].map
    String.toList) new_rec
  floats rb 3 (["scale", "rss_min", "rss_avg", "rss_max", "cyc_cc_min", "cyc_cc_avg",
    "cyc_cc_max", "cyc_sec_min", "cyc_sec_avg", "cyc_sec_max", "sum_cyc_sec", "rss_max_min",
    "rss_max_avg", "rss_max_max", "avg_cells_min", "avg_cells_avg", "avg_cells_max",
    "elapsed_s", "elapsed_minus_first_s"].map String.toList) new_rec

/-- The fields of an xrage record with another `metric`. -/
def driverFields (rb : Runtime) (new_rec : Fields) : Fields :=
  (["driver_after_cyclemin", "driver_after_cyclemax", "driver_after_cycleavg"].map
    String.toList).foldl (fun r item => set r item (.num (to_f rb r item))) new_rec

theorem lapFields_metric (rb : Runtime) (new_rec : Fields) :
    get (lapFields rb new_rec) "metric".toList = get new_rec "metric".toList := by
  rw [lapFields, get_ints (by decide), get_rename (by decide) (by decide), get_ints (by decide),
    get_floats (by decide), get_rename (by decide) (by decide), get_floats (by decide)]

theorem poissonFields_metric (rb : Runtime) (new_rec : Fields) :
    get (poissonFields rb new_rec) "metric".toList = get new_rec "metric".toList := by
  rw [poissonFields, get_ints (by decide), get_floats (by decide), get_dropDashes (by decide)]

theorem jayenneFields_metric (rb : Runtime) (new_rec : Fields) :
    get (jayenneFields rb new_rec) "metric".toList = get new_rec "metric".toList := by
  rw [jayenneFields, get_ints (by decide), get_floats (by decide)]

theorem mcatkFields_metric (rb : Runtime) (new_rec : Fields) :
    get (mcatkFields rb new_rec) "metric".toList = get new_rec "metric".toList := by
  rw [mcatkFields, get_ints (by decide), get_floats (by decide)]

theorem sapFields_metric (rb : Runtime) (new_rec : Fields) :
    get (sapFields rb new_rec) "metric".toList = get new_rec "metric".toList := by
  rw [sapFields, get_ints (by decide), get_floats (by decide)]

theorem xrageFields_metric (rb : Runtime) (new_rec : Fields) :
    get (xrageFields rb new_rec) "metric".toList = get new_rec "metric".toList := by
  rw [xrageFields, get_floats (by decide), get_ints (by decide)]
  rw [get_scmId (by decide) (by decide), get_scmId (by decide) (by decide),
    get_scmId (by decide) (by decide), get_scmId (by decide) (by decide),
    get_scmId (by decide) (by decide), get_scmId (by decide) (by decide)]
  split
  · rw [get_set_of_ne (by decide), get_dropDashes (by decide)]
  · exact get_dropDashes (by decide) new_rec

theorem driverFields_metric (rb : Runtime) (new_rec : Fields) :
    get (driverFields rb new_rec) "metric".toList = get new_rec "metric".toList :=
  get_foldl_set id _ (by decide) new_rec

/-- `new_rec['metric'].include?(needle)`. -/
def metricIncludes (new_rec : Fields) (needle : Text) : Bool :=
  match get new_rec "metric".toList with
  | some (.str s) => strstr s needle
  | _ => false

/-- A message without items is bad data and yields no record. -/
def xrage_metrics (rb : Runtime) (message : Text) : List Action :=
  match addItems [("metric".toList, .str Code.xrage.metric)] (kv_pairs .xrage message) with
  | none => [.raise]
  | some new_rec =>
      if (kv_pairs .xrage message).length < 1 then []
      else if metricIncludes new_rec "xrage_metrics".toList then
        [.push (stamp (xrageFields rb new_rec)).toRecord]
      else [.push (stamp (driverFields rb new_rec)).toRecord]

def Code.actions (rb : Runtime) : Code → Text → List Action
  | lap => lap_metrics rb
  | poisson => poisson_metrics rb
  | jayenne => jayenne_metrics rb
  | mcatk => mcatk_metrics rb
  | sap => sap_metrics rb
  | xrage => xrage_metrics rb

/-- The metric of the record of a branch: a `metric` item replaces that of the code. -/
def metricOf (code : Code) (message : Text) : Text :=
  (itemValue "metric".toList (kv_pairs code message)).getD code.metric

/-- A record with the metric of a branch and seconds for its time. -/
def Fields.IsFrom (new_rec : Fields) (code : Code) (message : Text) : Prop :=
  get new_rec "metric".toList = some (.str (metricOf code message)) ∧
    ∃ ts : Int, get new_rec "timestamp".toList = some (.num ts)

theorem stamp_isFrom {code : Code} {message : Text} {new_rec r : Fields}
    {convert : Fields → Fields}
    (hmetric : ∀ r, get (convert r) "metric".toList = get r "metric".toList)
    (hr : addItems [("metric".toList, .str code.metric)] (kv_pairs code message) = some r)
    (hnew : new_rec = stamp (convert r)) : new_rec.IsFrom code message := by
  subst hnew
  refine ⟨?_, _, get_set_self _ _ _⟩
  rw [stamp, get_set_of_ne (by decide), hmetric, get_addItems _ hr, get_cons, if_pos rfl, metricOf]
  cases itemValue "metric".toList (kv_pairs code message) <;> rfl

def ItemsValued (code : Code) (message : Text) : Prop :=
  ∀ item ∈ kv_pairs code message, HasValue item

instance (code : Code) (message : Text) : Decidable (ItemsValued code message) :=
  decidable_of_iff (∀ item ∈ kv_pairs code message, (splitItem item).isSome)
    (forall₂_congr fun item _ => RubyStrings.splitItem_isSome_iff item)

/-- What a branch does: it raises, it skips a message (xrage only), or it pushes a
record. -/
def BranchCases (code : Code) (message : Text) (actions : List Action) : Prop :=
  (¬ItemsValued code message ∧ actions = [.raise]) ∨
  (ItemsValued code message ∧ code = .xrage ∧ kv_pairs code message = [] ∧ actions = []) ∨
  (ItemsValued code message ∧ (code = .xrage → kv_pairs code message ≠ []) ∧
    ∃ new_rec : Fields, new_rec.IsFrom code message ∧ actions = [.push new_rec.toRecord])

theorem branch_cases {code : Code} (hcode : code ≠ .xrage) {convert : Fields → Fields}
    (hmetric : ∀ r, get (convert r) "metric".toList = get r "metric".toList) (message : Text) :
    BranchCases code message (branch code convert message) := by
  have hvalued := addItems_isSome_iff [("metric".toList, .str code.metric)] (kv_pairs code message)
  cases hr : addItems [("metric".toList, .str code.metric)] (kv_pairs code message) with
  | none =>
      rw [hr] at hvalued
      refine .inl ⟨fun h => absurd (hvalued.mpr h) (by simp), ?_⟩
      rw [branch, hr]
      rfl
  | some r =>
      rw [hr] at hvalued
      refine .inr (.inr ⟨hvalued.mp rfl, fun h => absurd h hcode, stamp (convert r),
        stamp_isFrom hmetric hr rfl, ?_⟩)
      rw [branch, hr]
      rfl

theorem xrage_metrics_cases (rb : Runtime) (message : Text) :
    BranchCases .xrage message (xrage_metrics rb message) := by
  have hvalued := addItems_isSome_iff [("metric".toList, .str Code.xrage.metric)]
    (kv_pairs .xrage message)
  rw [xrage_metrics]
  cases hr : addItems [("metric".toList, .str Code.xrage.metric)] (kv_pairs .xrage message) with
  | none =>
      rw [hr] at hvalued
      exact .inl ⟨fun h => absurd (hvalued.mpr h) (by simp), rfl⟩
  | some r =>
      rw [hr] at hvalued
      have hitems : ItemsValued .xrage message := hvalued.mp rfl
      by_cases hnil : kv_pairs .xrage message = []
      · exact .inr (.inl ⟨hitems, rfl, hnil, by simp [hnil]⟩)
      · have hlength : ¬(kv_pairs .xrage message).length < 1 := by
          simpa [Nat.lt_one_iff] using hnil
        refine .inr (.inr ⟨hitems, fun _ => hnil, ?_⟩)
        simp only [if_neg hlength]
        split
        · exact ⟨_, stamp_isFrom (xrageFields_metric rb) hr rfl, rfl⟩
        · exact ⟨_, stamp_isFrom (driverFields_metric rb) hr rfl, rfl⟩

theorem Code.actions_cases (rb : Runtime) (code : Code) (message : Text) :
    BranchCases code message (code.actions rb message) := by
  cases code with
  | lap => exact branch_cases (by decide) (lapFields_metric rb) message
  | poisson => exact branch_cases (by decide) (poissonFields_metric rb) message
  | jayenne => exact branch_cases (by decide) (jayenneFields_metric rb) message
  | mcatk => exact branch_cases (by decide) (mcatkFields_metric rb) message
  | sap => exact branch_cases (by decide) (sapFields_metric rb) message
  | xrage => exact xrage_metrics_cases rb message

end DaapLog.PluginMessages
