import DaapLog.NumberedValues

/-!
The names that the values of a row are sent under. A name belongs to the place of a value
in the row; the loop counts only the values that it comes to.
-/

namespace DaapLog.ValueNames

open DaapLog.CStrings
open DaapLog.TableTemplates
open DaapLog.ResultsParser
open DaapLog.Tokens
open DaapLog.Ranks
open DaapLog.RowValues
open DaapLog.NumberedValues

/-- The number of names that a template gives. -/
def numNames (table : table_t) : Nat := (table.val_names.rdropWhile List.isEmpty).length

/-- A row without the line terminators at its end. -/
def trimmed (line : Text) : List Placed := (placed line).rdropWhile isTerminator

def trimmedColumns (table : table_t) (line : Text) : List (List Placed) :=
  tokens (fun c => decide (c.1 ∈ table.sep)) (trimmed line)

/-- The values of a row from left to right across its columns. A column without `val_sep`
is one value. -/
def values (table : table_t) (line : Text) : List (List Placed) :=
  (trimmedColumns table line).flatMap (tokens fun c => decide (c.1 ∈ table.val_sep))

/-- A row is read; the value with the number of a name is sent once, under that name, or
nothing of it is if the name says so. -/
structure KeepsNames (table : table_t) (line : Text) (columns : Nat → Text) : Prop where
  read : (readRow table line columns).map Prod.snd =
    some ((calls table line columns).map (eventOf table))
  named : ∀ p < numNames table, ∀ value, (values table line)[p]? = some value →
    ¬Skips table p → ∃ slot, name table slot = name table p ∧
      (slot, value) ∈ calls table line columns ∧
        ∀ call ∈ calls table line columns, call = (slot, value) ∨ value.Disjoint call.2
  skipped : ∀ p < numNames table, ∀ value, (values table line)[p]? = some value →
    Skips table p → ∀ call ∈ calls table line columns, value.Disjoint call.2

/-- The row fits into the arrays. For a name without `_skip`, the loop comes to all values
up to the one with its number, and that one is followed by a separator or by one line
terminator that ends the column. -/
structure CountsAll (table : table_t) (line : Text) : Prop where
  row_columns : (rowColumns table line).length ≤ MAX_COLS
  row_values : (printed table line).countP (reached table) ≤ MAX_VALS
  named : ∀ p < numNames table, ∀ value, (values table line)[p]? = some value →
    ¬Skips table p →
      (∀ q ≤ p, ∃ r, (printed table line)[q]? = some r ∧ reached table r = true) ∧
        ∃ r, (printed table line)[p]? = some r ∧ kept r = value

variable {table : table_t} {line : Text} {columns : Nat → Text}

theorem exists_placed_eq (line : Text) :
    ∃ terminators, placed line = trimmed line ++ terminators := by
  obtain ⟨terminators, h⟩ := List.rdropWhile_prefix isTerminator (placed line)
  exact ⟨terminators, h.symm⟩

theorem prolongs_rowColumns (table : table_t) (line : Text) :
    Prolongs (trimmedColumns table line) (rowColumns table line) := by
  obtain ⟨terminators, h⟩ := exists_placed_eq line
  rw [trimmedColumns, rowColumns, h]
  exact prolongs_tokens_append _ _ _

theorem exists_printed (hcols : ((trimmedColumns table line).length : Int) = table.cols)
    {p : Nat} {value : List Placed} (h : (values table line)[p]? = some value) :
    ∃ r, (printed table line)[p]? = some r ∧ value <+: r.value := by
  have hlength : table.cols.toNat = (trimmedColumns table line).length := by omega
  have hprolongs := (prolongs_rowColumns table line).take.flatMap_tokens
    fun c => decide (c.1 ∈ table.val_sep)
  rw [← hlength, ← map_printed] at hprolongs
  obtain ⟨value', hvalue', hprefix⟩ := hprolongs.getElem? h
  rw [List.getElem?_map, Option.map_eq_some_iff] at hvalue'
  obtain ⟨r, hr, rfl⟩ := hvalue'
  exact ⟨r, hr, hprefix⟩

theorem leftovers_eq_nil (hcols : ((trimmedColumns table line).length : Int) = table.cols) :
    leftovers table line columns = [] := by
  have hlength := (prolongs_rowColumns table line).length_le
  rw [leftovers, List.drop_eq_nil_of_le, List.flatMap_nil]
  rw [List.length_range]
  omega

theorem mem_calls_of_columns (hcols : ((trimmedColumns table line).length : Int) = table.cols)
    {slot : Nat} {value : List Placed} :
    (slot, value) ∈ calls table line columns ↔
      ¬Skips table slot ∧ ∃ p r, (printed table line)[p]? = some r ∧ reached table r = true ∧
        rank (reached table) (printed table line) p = slot ∧ kept r = value := by
  rw [mem_calls, leftovers_eq_nil hcols]
  refine and_congr_right fun _ => or_iff_left ?_
  rintro ⟨j, hj, -⟩
  exact absurd hj nofun

theorem values_ne_nil {p : Nat} {value : List Placed} (h : (values table line)[p]? = some value) :
    value ≠ [] := by
  obtain ⟨column, -, hvalue⟩ := List.mem_flatMap.mp (List.mem_of_getElem? h)
  exact (mem_tokens hvalue).1

theorem disjoint_kept {p q : Nat} {r r' : Printed} {value : List Placed}
    (hr : (printed table line)[p]? = some r) (hvalue : value <+: r.value)
    (hr' : (printed table line)[q]? = some r') (hpq : p ≠ q) : value.Disjoint (kept r') := by
  have hdisjoint := disjoint_of_getElem?_tokens (nodup_placed line)
    (getElem?_tokens_of_printed hr) (getElem?_tokens_of_printed hr') hpq
  intro c hc hc'
  exact hdisjoint (hvalue.subset hc) ((kept_isPrefix r').subset hc')

theorem eq_of_mem_calls (hcols : ((trimmedColumns table line).length : Int) = table.cols)
    {p slot : Nat} {r : Printed} {value value' : List Placed}
    (hr : (printed table line)[p]? = some r) (hvalue : value <+: r.value)
    (hcall : (slot, value') ∈ calls table line columns) :
    (¬Skips table slot ∧ reached table r = true ∧
        rank (reached table) (printed table line) p = slot ∧ kept r = value') ∨
      value.Disjoint value' := by
  obtain ⟨hskip, q, r', hr', hreached, hrank, hkept⟩ := (mem_calls_of_columns hcols).mp hcall
  rcases eq_or_ne p q with rfl | hpq
  · obtain rfl := Option.some.inj (hr.symm.trans hr')
    exact .inl ⟨hskip, hreached, hrank, hkept⟩
  · rw [← hkept]
    exact .inr (disjoint_kept hr hvalue hr' hpq)

theorem countsAll_of_keepsNames (hcols : ((trimmedColumns table line).length : Int) = table.cols)
    (h : KeepsNames table line columns) : CountsAll table line := by
  have hcall {p : Nat} (hp : p < numNames table) {value : List Placed}
      (hvalue : (values table line)[p]? = some value) (hskip : ¬Skips table p) :
      ∃ r, (printed table line)[p]? = some r ∧ reached table r = true ∧ kept r = value ∧
        ¬Skips table (rank (reached table) (printed table line) p) := by
    obtain ⟨r, hr, hprefix⟩ := exists_printed hcols hvalue
    obtain ⟨slot, -, hsent, -⟩ := h.named p hp value hvalue hskip
    rcases eq_of_mem_calls hcols hr hprefix hsent with ⟨hslot, hreached, rfl, hkept⟩ | hdisjoint
    · exact ⟨r, hr, hreached, hkept, hslot⟩
    · obtain ⟨c, hc⟩ := List.exists_mem_of_ne_nil value (values_ne_nil hvalue)
      exact (hdisjoint hc hc).elim
  have hfits := readRow_calls_iff.mp h.read
  refine ⟨hfits.row_columns, le_of_add_le_left hfits.values, fun p hp value hvalue hskip => ?_⟩
  obtain ⟨r, hr, hreached, hkept, -⟩ := hcall hp hvalue hskip
  refine ⟨fun q hq => ?_, r, hr, hkept⟩
  have hrank : rank (reached table) (printed table line) p = p := by
    refine rank_eq_self_of_matters
      (fun i => ¬Skips table i ∧ ∃ value, (values table line)[i]? = some value) ?_ ?_ hp
      ⟨hskip, value, hvalue⟩
    · rintro i hi ⟨hskip, value, hvalue⟩
      obtain ⟨r, hr, hreached, -⟩ := hcall hi hvalue hskip
      exact ⟨r, hr, hreached⟩
    · rintro i hi ⟨hskip, value, hvalue⟩
      obtain ⟨-, -, -, -, hslot⟩ := hcall hi hvalue hskip
      refine ⟨hslot, ?_⟩
      have hlength := (List.getElem?_eq_some_iff.mp hvalue).1
      exact ⟨_, List.getElem?_eq_getElem ((rank_le _ _ i).trans_lt hlength)⟩
  rcases hq.lt_or_eq with hlt | rfl
  · exact (rank_eq_self_iff (List.getElem?_eq_some_iff.mp hr).1.le).mp hrank q hlt
  · exact ⟨r, hr, hreached⟩

theorem rank_of_countsAll (h : CountsAll table line) {p : Nat} (hp : p < numNames table)
    {value : List Placed} (hvalue : (values table line)[p]? = some value)
    (hskip : ¬Skips table p) : rank (reached table) (printed table line) p = p := by
  obtain ⟨hall, r, hr, -⟩ := h.named p hp value hvalue hskip
  exact (rank_eq_self_iff (List.getElem?_eq_some_iff.mp hr).1.le).mpr fun q hq => hall q hq.le

/-- The number of a value that is to be skipped is not that of a name to send: a smaller
number would be that of a value that is reached itself. -/
theorem skips_rank_of_countsAll (h : CountsAll table line) {p : Nat} (hp : p < numNames table)
    {value : List Placed} (hvalue : (values table line)[p]? = some value)
    (hskip : Skips table p) : Skips table (rank (reached table) (printed table line) p) := by
  by_contra hslot
  rcases (rank_le (reached table) (printed table line) p).lt_or_eq with hlt | heq
  · have hother := List.getElem?_eq_getElem (hlt.trans (List.getElem?_eq_some_iff.mp hvalue).1)
    obtain ⟨s, hs, hreached⟩ := (h.named _ (hlt.trans hp) _ hother hslot).1 _ le_rfl
    have hnext := rank_succ hs hreached
    rw [rank_of_countsAll h (hlt.trans hp) hother hslot] at hnext
    have hmono : rank (reached table) (printed table line)
        (rank (reached table) (printed table line) p + 1) ≤ _ := rank_mono _ _ hlt
    omega
  · rw [heq] at hslot
    exact hslot hskip

theorem keepsNames_of_countsAll (hcols : ((trimmedColumns table line).length : Int) = table.cols)
    (h : CountsAll table line) : KeepsNames table line columns := by
  constructor
  · refine readRow_calls_iff.mpr ⟨h.row_columns, ?_, ?_⟩
    · have hlength := (prolongs_rowColumns table line).length_le
      have hmax := h.row_columns
      omega
    · rw [leftovers_eq_nil hcols]
      exact h.row_values
  · intro p hp value hvalue hskip
    have hrank := rank_of_countsAll h hp hvalue hskip
    obtain ⟨hall, r, hr, hkept⟩ := h.named p hp value hvalue hskip
    obtain ⟨r', hr', hreached⟩ := hall p le_rfl
    obtain rfl := Option.some.inj (hr.symm.trans hr')
    refine ⟨p, rfl, ?_, ?_⟩
    · exact (mem_calls_of_columns hcols).mpr ⟨hskip, p, r, hr, hreached, hrank, hkept⟩
    · rintro ⟨slot, value'⟩ hcall
      have hprefix : value <+: r.value := hkept ▸ kept_isPrefix r
      refine (eq_of_mem_calls hcols hr hprefix hcall).imp_left ?_
      rintro ⟨-, -, hslot, hvalue'⟩
      rw [← hslot, ← hvalue', hrank, hkept]
  · rintro p hp value hvalue hskip ⟨slot, value'⟩ hcall
    obtain ⟨r, hr, hprefix⟩ := exists_printed hcols hvalue
    refine (eq_of_mem_calls hcols hr hprefix hcall).resolve_left ?_
    rintro ⟨hslot, -, hnumber, -⟩
    rw [← hnumber] at hslot
    exact hslot (skips_rank_of_countsAll h hp hvalue hskip)

/-- The values of a row keep their names exactly when the loop comes to all values that are
in front of one with a name to send, and to that one as a whole. -/
theorem keepsNames_iff (hcols : ((trimmedColumns table line).length : Int) = table.cols) :
    KeepsNames table line columns ↔ CountsAll table line :=
  ⟨countsAll_of_keepsNames hcols, keepsNames_of_countsAll hcols⟩

theorem keepsNames_runout : KeepsNames runout "sort  |12 3.5 " fun _ => [] := by
  refine (keepsNames_iff (by decide)).mpr ⟨by decide, by decide, ?_⟩
  have hreached : ∀ r ∈ printed runout "sort  |12 3.5 ", reached runout r = true := by decide
  have hkept : values runout "sort  |12 3.5 " = (printed runout "sort  |12 3.5 ").map kept := by
    decide
  intro p _ value hvalue _
  rw [hkept, List.getElem?_map, Option.map_eq_some_iff] at hvalue
  obtain ⟨r, hr, rfl⟩ := hvalue
  refine ⟨fun q hq => ?_, r, hr, rfl⟩
  have hlength := hq.trans_lt (List.getElem?_eq_some_iff.mp hr).1
  exact ⟨_, List.getElem?_eq_getElem hlength, hreached _ (List.getElem_mem hlength)⟩

/-- A column of one value does not count, and the names of the row move on. -/
theorem not_keepsNames_runout :
    (readRow runout "sort|12 3.5 " fun _ => []).map Prod.snd = some [.send "pct" "3.5"] ∧
      ¬KeepsNames runout "sort|12 3.5 " fun _ => [] := by
  refine ⟨by decide, fun h => ?_⟩
  obtain ⟨slot, -, hsent, -⟩ :=
    h.named 1 (by decide) [('1', some 5), ('2', some 6)] (by decide) (by decide)
  have hcalls : ∀ call ∈ calls runout "sort|12 3.5 " fun _ => [],
      call.2 ≠ [('1', some 5), ('2', some 6)] := by decide
  exact hcalls _ hsent rfl

end DaapLog.ValueNames
