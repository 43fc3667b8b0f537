import DaapLog.RowHistory
import DaapLog.RowValues
import DaapLog.TableEntry

/-!
The array indices of `parseResults` on any results file, with tables that may have no
header lines: which headers the scan reads, and which columns and values a row uses.
-/

namespace DaapLog.RowBounds

open DaapLog.CStrings
open DaapLog.TableEntry
open DaapLog.TableTemplates
open DaapLog.TableRecognition
open DaapLog.Runs
open DaapLog.ResultsParser
open DaapLog.RowHistory
open DaapLog.RowValues

/-- The parser with the tables of a template. -/
def templateParser {ρ : Type} (table_template : Option Text) (key_regexes : List ρ)
    (pcre_exec : ρ → Text → Int × List Int) : Parser ρ where
  tables := (parseTableTemplate table_template).2
  key_regexes := key_regexes
  pcre_exec := pcre_exec

/-- The headers that are looked for in a line are those of their table's array, and a row
is read without an index that is out of range. -/
structure IndicesInside {ρ : Type} (p : Parser ρ) (s : ParserState) (line : Text) : Prop where
  headers : ∀ read ∈ (scanAll p.tables s.toRecognizer line).2, read.2 < MAX_HEADERS
  row : ∀ t, (recognize p.tables s.toRecognizer line).2 = .row t →
    (readRow (tableAt p.tables t) line s.columns).isSome

/-- A row has no more columns and values than there is room for, and its table does not
announce more columns. -/
structure RowFits (table : table_t) (line : Text) (columns : Nat → Text) : Prop where
  tokens : (strtok table.sep line).length ≤ MAX_COLS
  cols : table.cols ≤ MAX_COLS
  values : (textValues table line columns).length ≤ MAX_VALS

instance (tables : List table_t) (s : Recognizer) (t : Nat) (line : Text) :
    Decidable (Reaches tables s t line) :=
  inferInstanceAs (Decidable (_ ∧ _ ∧ _))

/-- How many of the lines the scan takes for a table. -/
def taken (tables : List table_t) (t : Nat) : Recognizer → List Text → Nat
  | _, [] => 0
  | s, line :: rest =>
      (if Reaches tables s t line then 1 else 0) + taken tables t (recognize tables s line).1 rest

/-- Outside of a table, a table without header lines that the scan gets to has been given
fewer than `MAX_HEADERS` of the lines so far; inside of one, a row fits. -/
structure StepFits {ρ : Type} (p : Parser ρ) (past : List Text) (s : ParserState)
    (line : Text) : Prop where
  headerless : s.in_table = false → ∀ t < p.tables.length, (tableAt p.tables t).num_headers = 0 →
    (∀ u < t, ¬strstr line (nextHeader p.tables s.headers_found u)) →
    taken p.tables t {} past < MAX_HEADERS
  row : s.in_table = true → ∀ t, s.table = some t → strstr line (tableAt p.tables t).sep →
    RowFits (tableAt p.tables t) line s.columns

section Templates

theorem keywordLine_num_headers {line : Text} {s : table_t × Nat}
    (h : s.1.num_headers ≤ MAX_HEADERS) : (keywordLine line s).1.num_headers ≤ MAX_HEADERS := by
  rcases s with ⟨table, vals_found⟩
  simp only [keywordLine, apply_ite Prod.fst, apply_ite Prod.snd, apply_ite table_t.num_headers,
    ite_self]
  split
  · next hroom => exact hroom.2
  · exact h

theorem templateLine_num_headers {s : TemplateState}
    (h : ∀ table ∈ s.tables, table.num_headers ≤ MAX_HEADERS) (line : Text) :
    ∀ table ∈ (templateLine s line).tables, table.num_headers ≤ MAX_HEADERS := by
  have hnew : ({} : table_t).num_headers ≤ MAX_HEADERS := Nat.zero_le _
  rw [templateLine]
  split
  · exact h
  · dsimp only
    split
    · split
      · rw [List.forall_mem_append, List.forall_mem_singleton]
        exact ⟨h, hnew⟩
      · exact h
    · rw [List.forall_mem_append, List.forall_mem_singleton]
      refine ⟨fun table htable => h table (List.mem_of_mem_dropLast htable), ?_⟩
      apply keywordLine_num_headers
      rw [List.getLastD_eq_getLast?]
      cases hlast : s.tables.getLast? with
      | none => exact hnew
      | some table => exact h table (List.mem_of_getLast? hlast)

theorem num_headers_le (table_template : Option Text) (t : Nat) :
    (tableAt (parseTableTemplate table_template).2 t).num_headers ≤ MAX_HEADERS := by
  have hall : ∀ table ∈ (parseTableTemplate table_template).2,
      table.num_headers ≤ MAX_HEADERS := by
    cases table_template with
    | none => exact fun table htable => absurd htable List.not_mem_nil
    | some file =>
        exact List.foldlRecOn (motive := fun s : TemplateState =>
          ∀ table ∈ s.tables, table.num_headers ≤ MAX_HEADERS) _ _
          (fun table htable => absurd htable List.not_mem_nil)
          fun s hs line _ => templateLine_num_headers hs line
  rw [tableAt, List.getD_eq_getElem?_getD]
  cases hget : (parseTableTemplate table_template).2[t]? with
  | none => exact Nat.zero_le _
  | some table => exact hall table (List.mem_of_getElem? hget)

end Templates

/-- The counters of the tables with header lines stay below the number of these lines,
and only that of the table that is being read has reached it. -/
structure Counting (tables : List table_t) (s : Recognizer) : Prop where
  started : Started s
  complete : s.in_table = true → ∀ t, s.table = some t →
    s.headers_found t = (tableAt tables t).num_headers
  below : ∀ t, 1 ≤ (tableAt tables t).num_headers →
    s.headers_found t < (tableAt tables t).num_headers ∨
      s.headers_found t = (tableAt tables t).num_headers ∧ s.in_table = true ∧ s.table = some t

section Steps

variable {tables : List table_t} {s : Recognizer} {line : Text} {t : Nat}

theorem counting_start (tables : List table_t) : Counting tables {} where
  started := fun hin => absurd hin Bool.false_ne_true
  complete := fun hin => absurd hin Bool.false_ne_true
  below := fun _ hheaders => .inl hheaders

theorem Counting.lt (hs : Counting tables s) (hin : s.in_table = false)
    (hheaders : 1 ≤ (tableAt tables t).num_headers) :
    s.headers_found t < (tableAt tables t).num_headers := by
  rcases hs.below t hheaders with hlt | ⟨-, htrue, -⟩
  · exact hlt
  · exact absurd (htrue.symm.trans hin) Bool.noConfusion

theorem dropUnstarted_headers_found (s : Recognizer) :
    (dropUnstarted s).headers_found = s.headers_found := by
  rcases s with ⟨_ | t, in_table, headers_found⟩
  · rfl
  · rw [dropUnstarted]
    dsimp only
    split <;> rfl

theorem dropUnstarted_of_ne_zero (htable : s.table = some t) (hfound : s.headers_found t ≠ 0) :
    (dropUnstarted s).table = some t := by
  rw [dropUnstarted, htable]
  dsimp only
  rw [if_neg hfound, htable]

/-- Behind the scan of a line outside of a table, only the counter of the table in the
pointer can have reached the number of its header lines. -/
theorem scanAll_below (hs : Counting tables s) (hin : s.in_table = false) (line : Text) (t : Nat)
    (hheaders : 1 ≤ (tableAt tables t).num_headers) :
    (scanAll tables s line).1.headers_found t < (tableAt tables t).num_headers ∨
      (scanAll tables s line).1.headers_found t = (tableAt tables t).num_headers ∧
        (scanAll tables s line).1.table = some t := by
  have hlt := hs.lt hin hheaders
  rw [scanAll]
  rcases headerScan_outside tables line s hin (List.range tables.length) with
    ⟨front, u, rest, -, -, -, hscan⟩ | ⟨-, hscan⟩
  · rw [hscan]
    dsimp only
    rcases eq_or_ne t u with rfl | hne
    · rw [Function.update_self]
      rcases Nat.lt_or_ge (s.headers_found t + 1) (tableAt tables t).num_headers with hmore | hlast
      · exact .inl hmore
      · exact .inr ⟨by omega, rfl⟩
    · rw [Function.update_of_ne hne]
      exact .inl hlt
  · rw [hscan]
    exact .inl hlt

theorem complete_recognize (hs : Counting tables s) (line : Text) :
    (recognize tables s line).1.in_table = true → ∀ t,
      (recognize tables s line).1.table = some t →
      (recognize tables s line).1.headers_found t = (tableAt tables t).num_headers := by
  cases hin : s.in_table with
  | true =>
      obtain ⟨u, htable, hfound⟩ := hs.started hin
      rw [recognize_inside hin htable hfound, classify, htable, hin]
      dsimp only
      split
      · exact fun _ => hs.complete hin
      · exact fun h => absurd h Bool.false_ne_true
  | false =>
      have hout := scanned_outside tables hin line
      rw [recognize, classify, hout]
      generalize dropUnstarted (scanAll tables s line).1 = s' at hout
      rcases htable : s'.table with _ | u
      · exact fun h => absurd (h.symm.trans hout) Bool.noConfusion
      · dsimp only
        split
        · next hall =>
            intro _ t ht
            obtain rfl : u = t := Option.some.inj ht
            exact hall
        · exact fun h => absurd (h.symm.trans hout) Bool.noConfusion

theorem counting_recognize (hs : Counting tables s) (line : Text) :
    Counting tables (recognize tables s line).1 := by
  refine ⟨started_recognize hs.started line, complete_recognize hs line, ?_⟩
  intro t hheaders
  cases hin : s.in_table with
  | true =>
      obtain ⟨u, htable, hfound⟩ := hs.started hin
      rw [recognize_inside hin htable hfound, classify, htable, hin]
      dsimp only
      split
      · exact hs.below t hheaders
      · dsimp only
        rcases eq_or_ne t u with rfl | hne
        · rw [Function.update_self]
          exact .inl hheaders
        · rw [Function.update_of_ne hne]
          rcases hs.below t hheaders with hlt | ⟨-, -, hother⟩
          · exact .inl hlt
          · exact absurd (Option.some.inj (hother.symm.trans htable)) hne
  | false =>
      have hout := scanned_outside tables hin line
      have hbelow : (dropUnstarted (scanAll tables s line).1).headers_found t <
            (tableAt tables t).num_headers ∨
          (dropUnstarted (scanAll tables s line).1).headers_found t =
            (tableAt tables t).num_headers ∧
            (dropUnstarted (scanAll tables s line).1).table = some t := by
        rw [dropUnstarted_headers_found]
        rcases scanAll_below hs hin line t hheaders with hlt | ⟨heq, htable⟩
        · exact .inl hlt
        · exact .inr ⟨heq, dropUnstarted_of_ne_zero htable (by omega)⟩
      rw [recognize, classify, hout]
      generalize dropUnstarted (scanAll tables s line).1 = s' at hout hbelow
      rcases htable : s'.table with _ | u
      · refine .inl (hbelow.resolve_right fun h => ?_)
        exact absurd (h.2.symm.trans htable) (Option.some_ne_none t)
      · dsimp only
        split
        · rcases hbelow with hlt | ⟨heq, hother⟩
          · exact .inl hlt
          · exact .inr ⟨heq, rfl, htable.symm.trans hother⟩
        · next hmore =>
            refine .inl (hbelow.resolve_right fun h => hmore ?_)
            obtain rfl := Option.some.inj (htable.symm.trans h.2)
            exact h.1

theorem counting_recognizeAll (tables : List table_t) (lines : List Text) :
    Counting tables (recognizeAll tables lines) :=
  List.foldlRecOn (motive := Counting tables) lines _ (counting_start tables)
    fun _ hs line _ => counting_recognize hs line

/-- The counter of a table without header lines is never reset: it counts the lines that
the scan takes for the table. -/
theorem headers_found_headerless (hs : Counting tables s) (ht : t < tables.length)
    (hheaders : (tableAt tables t).num_headers = 0) (line : Text) :
    (recognize tables s line).1.headers_found t =
      s.headers_found t + if Reaches tables s t line then 1 else 0 := by
  cases hin : s.in_table with
  | true =>
      obtain ⟨u, htable, hfound⟩ := hs.started hin
      have hne : t ≠ u := by
        rintro rfl
        exact hfound ((hs.complete hin t htable).trans hheaders)
      rw [if_neg fun h => Bool.noConfusion (h.1.symm.trans hin), Nat.add_zero,
        recognize_inside hin htable hfound, classify, htable, hin]
      dsimp only
      split
      · rfl
      · exact Function.update_of_ne hne _ _
  | false =>
      rcases recognize_outside hin line with ⟨u, -, hu, hstate⟩ | ⟨hnone, hsame⟩
      · rw [hstate]
        rcases eq_or_ne t u with rfl | hne
        · rw [if_pos hu]
          exact Function.update_self ..
        · rw [if_neg fun h => hne (reaches_unique hu h), Nat.add_zero]
          exact Function.update_of_ne hne _ _
      · rw [hsame, if_neg fun h => hnone t ht h.2.1, Nat.add_zero]

theorem taken_concat (past : List Text) (line : Text) :
    taken tables t s (past ++ [line]) =
      taken tables t s past + if Reaches tables (recognizeFrom tables s past) t line then 1 else 0 := by
  induction past generalizing s with
  | nil => rw [List.nil_append, taken, taken, taken, Nat.add_zero, Nat.zero_add]; rfl
  | cons first past ih =>
      rw [List.cons_append, taken, ih, taken, Nat.add_assoc]
      rfl

theorem headers_found_eq_taken (ht : t < tables.length)
    (hheaders : (tableAt tables t).num_headers = 0) (lines : List Text) :
    (recognizeAll tables lines).headers_found t = taken tables t {} lines := by
  induction lines using List.reverseRecOn with
  | nil => rfl
  | append_singleton past line ih =>
      rw [recognizeAll_concat, taken_concat, ← ih]
      exact headers_found_headerless (counting_recognizeAll tables past) ht hheaders line

theorem front_of_range {n first : Nat} {front rest : List Nat}
    (h : List.range n = front ++ first :: rest) : front = List.range first ∧ first < n := by
  rw [List.range_eq_range', List.range'_eq_append_iff] at h
  obtain ⟨k, -, rfl, hrest⟩ := h
  obtain ⟨hfirst, hlt, -⟩ := List.range'_eq_cons_iff.mp hrest.symm
  rw [Nat.zero_add, Nat.mul_one] at hfirst
  subst hfirst
  exact ⟨List.range_eq_range'.symm, by omega⟩

/-- The scan of a line outside of a table reads the headers of the tables up to the first
that has its next header in the line. -/
theorem read_mem_scanAll_iff (hin : s.in_table = false) (line : Text) (read : Nat × Nat) :
    read ∈ (scanAll tables s line).2 ↔
      read.1 < tables.length ∧ read.2 = s.headers_found read.1 ∧
        ∀ u < read.1, ¬strstr line (nextHeader tables s.headers_found u) := by
  rcases read with ⟨t, index⟩
  rw [scanAll]
  rcases headerScan_outside tables line s hin (List.range tables.length) with
    ⟨front, first, rest, hrange, hfound, hfront, hscan⟩ | ⟨hnone, hscan⟩
  · obtain ⟨rfl, hfirst_lt⟩ := front_of_range hrange
    rw [hscan, ← List.range_succ]
    simp only [List.mem_map, List.mem_range, Prod.mk.injEq]
    constructor
    · rintro ⟨u, hu, rfl, rfl⟩
      refine ⟨by omega, rfl, fun v hv => ?_⟩
      exact hfront v (List.mem_range.mpr (by omega))
    · rintro ⟨ht, rfl, hbefore⟩
      refine ⟨t, ?_, rfl, rfl⟩
      refine Nat.lt_succ_of_le (Nat.le_of_not_lt fun hlater => ?_)
      exact hbefore first hlater hfound
  · rw [hscan]
    simp only [List.mem_map, List.mem_range, Prod.mk.injEq]
    constructor
    · rintro ⟨u, hu, rfl, rfl⟩
      exact ⟨hu, rfl, fun v hv => hnone v (List.mem_range.mpr (by omega))⟩
    · rintro ⟨ht, rfl, -⟩
      exact ⟨t, ht, rfl, rfl⟩

theorem headers_inside_iff (hs : Counting tables s)
    (hheaders : ∀ t, (tableAt tables t).num_headers ≤ MAX_HEADERS) (hin : s.in_table = false)
    (line : Text) :
    (∀ read ∈ (scanAll tables s line).2, read.2 < MAX_HEADERS) ↔
      ∀ t < tables.length, (tableAt tables t).num_headers = 0 →
        (∀ u < t, ¬strstr line (nextHeader tables s.headers_found u)) →
        s.headers_found t < MAX_HEADERS := by
  constructor
  · intro h t ht _ hbefore
    exact h (t, s.headers_found t) ((read_mem_scanAll_iff hin line _).mpr ⟨ht, rfl, hbefore⟩)
  · intro h read hread
    obtain ⟨ht, hindex, hbefore⟩ := (read_mem_scanAll_iff hin line read).mp hread
    rw [hindex]
    rcases Nat.eq_zero_or_pos (tableAt tables read.1).num_headers with hzero | hpos
    · exact h read.1 ht hzero hbefore
    · exact lt_of_lt_of_le (hs.lt hin hpos) (hheaders read.1)

theorem recognize_row_iff (hs : Counting tables s) (line : Text) (t : Nat) :
    (recognize tables s line).2 = .row t ↔
      s.in_table = true ∧ s.table = some t ∧ strstr line (tableAt tables t).sep := by
  cases hin : s.in_table with
  | true =>
      obtain ⟨u, htable, hfound⟩ := hs.started hin
      rw [recognize_inside hin htable hfound, classify, htable, hin]
      dsimp only
      split
      · next hsep =>
          constructor
          · intro haction
            obtain rfl := LineAction.row.inj haction
            exact ⟨rfl, rfl, hsep⟩
          · rintro ⟨-, hother, -⟩
            exact congrArg LineAction.row (Option.some.inj hother)
      · next hsep =>
          refine iff_of_false LineAction.noConfusion ?_
          rintro ⟨-, hother, hfits⟩
          obtain rfl := Option.some.inj hother
          exact hsep hfits
  | false =>
      have hout := scanned_outside tables hin line
      refine iff_of_false ?_ fun h => Bool.noConfusion h.1
      rw [recognize, classify, hout]
      cases (dropUnstarted (scanAll tables s line).1).table with
      | none => exact LineAction.noConfusion
      | some u =>
          dsimp only
          split <;> exact LineAction.noConfusion

end Steps

theorem readRow_isSome_iff (table : table_t) (line : Text) (columns : Nat → Text) :
    (readRow table line columns).isSome ↔ RowFits table line columns := by
  have hrow := congrArg Option.isSome (readRow_eq table line columns)
  rw [Option.isSome_map] at hrow
  rw [hrow]
  split
  · next h => exact iff_of_true rfl ⟨h.1, h.2.1, h.2.2⟩
  · next h => exact iff_of_false Bool.false_ne_true fun hfits => h ⟨hfits.1, hfits.2, hfits.3⟩

section Runs

variable {ρ : Type} {p : Parser ρ} {s : ParserState}

theorem indicesInside_step_iff {past : List Text}
    (hpast : s.toRecognizer = recognizeAll p.tables past)
    (hheaders : ∀ t, (tableAt p.tables t).num_headers ≤ MAX_HEADERS) (line : Text) :
    IndicesInside p s line ↔ StepFits p past s line := by
  have hs : Counting p.tables s.toRecognizer := hpast ▸ counting_recognizeAll p.tables past
  have htaken (t : Nat) (ht : t < p.tables.length)
      (hzero : (tableAt p.tables t).num_headers = 0) :
      s.headers_found t = taken p.tables t {} past :=
    hpast ▸ headers_found_eq_taken ht hzero past
  have hrows : (∀ t, (recognize p.tables s.toRecognizer line).2 = .row t →
      (readRow (tableAt p.tables t) line s.columns).isSome) ↔
        (s.in_table = true → ∀ t, s.table = some t → strstr line (tableAt p.tables t).sep →
          RowFits (tableAt p.tables t) line s.columns) := by
    constructor
    · intro h hin t htable hsep
      have hrow := (recognize_row_iff hs line t).mpr ⟨hin, htable, hsep⟩
      exact (readRow_isSome_iff _ _ _).mp (h t hrow)
    · intro h t hrow
      obtain ⟨hin, htable, hsep⟩ := (recognize_row_iff hs line t).mp hrow
      exact (readRow_isSome_iff _ _ _).mpr (h hin t htable hsep)
  have hscan : (∀ read ∈ (scanAll p.tables s.toRecognizer line).2, read.2 < MAX_HEADERS) ↔
      (s.in_table = false → ∀ t < p.tables.length, (tableAt p.tables t).num_headers = 0 →
        (∀ u < t, ¬strstr line (nextHeader p.tables s.headers_found u)) →
        taken p.tables t {} past < MAX_HEADERS) := by
    cases hin : s.in_table with
    | true =>
        obtain ⟨t, htable, -⟩ := hs.started hin
        refine iff_of_true ?_ fun h => Bool.noConfusion h
        rw [scanAll, headerScan_inside hin htable]
        exact fun read hread => absurd hread List.not_mem_nil
    | false =>
        rw [headers_inside_iff hs hheaders hin line, imp_iff_right rfl]
        exact forall₃_congr fun t ht hzero => by rw [htaken t ht hzero]
  constructor
  · rintro ⟨hread, hrow⟩
    exact ⟨hscan.mp hread, hrows.mp hrow⟩
  · rintro ⟨hread, hrow⟩
    exact ⟨hscan.mpr hread, hrows.mpr hrow⟩

/-- With the tables of any template and on any lines, all indices of a run are inside their
arrays exactly if at every line that is reached the tables without header lines have been given
fewer lines than they have room for and a row fits. -/
theorem indicesInside_iff {ρ : Type} (table_template : Option Text) (key_regexes : List ρ)
    (pcre_exec : ρ → Text → Int × List Int) (columns : Nat → Text) (lines : List Text) :
    let p := templateParser table_template key_regexes pcre_exec
    Throughout (parseLine p) (fun _ => IndicesInside p) ⟨{}, columns⟩ lines ↔
      Throughout (parseLine p) (StepFits p) ⟨{}, columns⟩ lines := by
  intro p
  have hheaders (t : Nat) : (tableAt p.tables t).num_headers ≤ MAX_HEADERS :=
    num_headers_le table_template t
  refine throughout_iff (I := fun past s => s.toRecognizer = recognizeAll p.tables past) rfl
    (fun past s line hpast => indicesInside_step_iff hpast hheaders line) ?_
  intro past s line r hpast _ hline
  rw [parseLine_recognizer hline, hpast, recognizeAll_concat]

end Runs

/-- A template with one table that has no header lines, and no regexes. -/
def headerlessParser : Parser Unit :=
  templateParser (some "===table===\n===end_table===\n".toList) [] fun _ _ => (-1, [])

theorem headerlessParser_tables : headerlessParser.tables = [{}] := by
  have hlines := @fgetsLines_flatMap LINE_LEN ["===table===".toList, "===end_table===".toList]
    (by decide)
  have hfile : ["===table===".toList, "===end_table===".toList].flatMap (· ++ ['\n']) =
      "===table===\n===end_table===\n".toList := rfl
  rw [hfile] at hlines
  rw [headerlessParser, templateParser, parseTableTemplate]
  dsimp only
  rw [hlines]
  decide

/-- The eleventh line behind a table without header lines is compared with a header behind
the array. -/
theorem indicesInside_fails_without_headers :
    ¬Throughout (parseLine headerlessParser) (fun _ => IndicesInside headerlessParser)
      ⟨{}, fun _ => []⟩ (List.replicate 11 "x".toList) := by
  intro h
  have hparser : headerlessParser = ⟨[{}], [], fun _ _ => (-1, [])⟩ :=
    congrArg (fun tables => (⟨tables, [], fun _ _ => (-1, [])⟩ : Parser Unit))
      headerlessParser_tables
  have hrun := h (List.replicate 10 "x".toList) "x".toList [] rfl
  rw [hparser] at hrun
  have hten : ∃ r, run (parseLine (⟨[{}], [], fun _ _ => (-1, [])⟩ : Parser Unit))
      ⟨{}, fun _ => []⟩ (List.replicate 10 "x".toList) = some r ∧
        r.1.in_table = false ∧ r.1.headers_found 0 = 10 := ⟨_, rfl, rfl, rfl⟩
  obtain ⟨r, hr, hin, hfound⟩ := hten
  have hread := (hrun r hr).headers (0, 10)
    ((read_mem_scanAll_iff hin _ _).mpr ⟨by decide, hfound.symm, by simp⟩)
  exact absurd hread (by decide)

end DaapLog.RowBounds
