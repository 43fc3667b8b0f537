import DaapLog.ResultsParser

/-!
What a row of a table sends in two runs. The array `columns` is filled up to the
number of columns of the row and read up to `cols`, so a short row reads columns of
an earlier one.
-/

namespace DaapLog.RowHistory

open DaapLog.CStrings
open DaapLog.TableTemplates
open DaapLog.TableRecognition
open DaapLog.ResultsParser
open DaapLog.Runs

theorem update_agree {bound i : Nat} {columns columns' : Nat → Text} (text : Text)
    (hagree : ∀ j < bound, j ≠ i → columns j = columns' j) :
    ∀ j < bound, Function.update columns i text j = Function.update columns' i text j := by
  intro j hj
  rcases eq_or_ne j i with rfl | hne
  · rw [Function.update_self, Function.update_self]
  · rw [Function.update_of_ne hne, Function.update_of_ne hne]
    exact hagree j hj hne

theorem storeColumns_agree {tokens : List Text} {i : Nat} {columns columns' : Nat → Text}
    (hagree : ∀ j < i, columns j = columns' j) :
    (storeColumns i tokens columns = none ∧ storeColumns i tokens columns' = none) ∨
      ∃ stored stored', storeColumns i tokens columns = some stored ∧
        storeColumns i tokens columns' = some stored' ∧
        ∀ j < i + tokens.length, stored j = stored' j := by
  induction tokens generalizing i columns columns' with
  | nil => exact Or.inr ⟨columns, columns', rfl, rfl, hagree⟩
  | cons token rest ih =>
      rw [storeColumns, storeColumns]
      by_cases hi : i < MAX_COLS
      · rw [if_pos hi, if_pos hi]
        have hnext := @update_agree (i + 1) i columns columns' token.dropLast
          fun j hj hne => hagree j (by omega)
        have hlength : i + (rest.length + 1) = i + 1 + rest.length := by omega
        rw [List.length_cons, hlength]
        exact ih hnext
      · rw [if_neg hi, if_neg hi]
        exact Or.inl ⟨rfl, rfl⟩

theorem readColumns_agree (table : table_t) {bound : Nat} {is : List Nat}
    (his : ∀ i ∈ is, i < bound) {columns columns' : Nat → Text} (val_found : Nat)
    (hagree : ∀ j < bound, columns j = columns' j) :
    (readColumns table is columns val_found).map Prod.snd =
      (readColumns table is columns' val_found).map Prod.snd := by
  induction is generalizing columns columns' val_found with
  | nil => rfl
  | cons i rest ih =>
      rw [List.forall_mem_cons] at his
      rw [readColumns, readColumns, hagree i his.1]
      split
      · split
        · cases hsent : sendValues table val_found (strtok table.val_sep (columns' i)) with
          | none => rfl
          | some r =>
              have hnext := @update_agree bound i columns columns'
                (strtokRest table.val_sep (columns' i)) fun j hj _ => hagree j hj
              have hrest := congrArg (Option.map (r.2 ++ ·)) (ih his.2 r.1 hnext)
              simpa only [Option.bind_some, Option.map_map, Function.comp_def] using hrest
        · exact ih his.2 val_found hagree
      · rfl

/-- A row with as many columns as the table does not depend on earlier rows. -/
theorem readRow_agree {table : table_t} {line : Text}
    (hcols : table.cols ≤ (strtok table.sep line).length) (columns columns' : Nat → Text) :
    (readRow table line columns).map Prod.snd = (readRow table line columns').map Prod.snd := by
  rw [readRow, readRow]
  rcases @storeColumns_agree (strtok table.sep line) 0 columns columns'
      (fun j hj => absurd hj (Nat.not_lt_zero j)) with
    ⟨hnone, hnone'⟩ | ⟨stored, stored', hstored, hstored', hagree⟩
  · rw [hnone, hnone']
  · rw [hstored, hstored', Option.bind_some, Option.bind_some]
    refine readColumns_agree table (fun i hi => List.mem_range.mp hi) 0 fun j hj => ?_
    refine hagree j ?_
    omega

/-- The table that is being read has at least one header found. -/
def Started (s : Recognizer) : Prop :=
  s.in_table = true → ∃ t, s.table = some t ∧ s.headers_found t ≠ 0

theorem dropUnstarted_ne_zero {s : Recognizer} {t : Nat} (h : (dropUnstarted s).table = some t) :
    (dropUnstarted s).headers_found t ≠ 0 := by
  rcases s with ⟨_ | u, in_table, headers_found⟩
  · exact absurd h (by simp [dropUnstarted])
  · rw [dropUnstarted] at h ⊢
    dsimp only at h ⊢
    split at h
    · exact absurd h (by simp)
    · next hne =>
        obtain rfl := Option.some.inj h
        rw [if_neg hne]
        exact hne

theorem dropUnstarted_in_table (s : Recognizer) : (dropUnstarted s).in_table = s.in_table := by
  rcases s with ⟨_ | u, in_table, headers_found⟩
  · rfl
  · rw [dropUnstarted]
    dsimp only
    split <;> rfl

theorem scanned_outside (tables : List table_t) {s : Recognizer} (hin : s.in_table = false)
    (line : Text) : (dropUnstarted (scanAll tables s line).1).in_table = false := by
  rw [dropUnstarted_in_table, scanAll]
  rcases headerScan_outside tables line s hin (List.range tables.length) with
    ⟨_, _, _, -, -, -, hscan⟩ | ⟨-, hscan⟩
  · rw [hscan]
  · rw [hscan]

/-- Inside of a started table the scan and the test behind it change nothing. -/
theorem recognize_inside {tables : List table_t} {s : Recognizer} {t : Nat}
    (hin : s.in_table = true) (htable : s.table = some t) (hstarted : s.headers_found t ≠ 0)
    (line : Text) : recognize tables s line = classify tables s line := by
  rw [recognize, scanAll, headerScan_inside hin htable, dropUnstarted, htable]
  dsimp only
  rw [if_neg hstarted]

theorem started_recognize {tables : List table_t} {s : Recognizer} (hs : Started s)
    (line : Text) : Started (recognize tables s line).1 := by
  cases hin : s.in_table with
  | true =>
      obtain ⟨t, htable, hstarted⟩ := hs hin
      rw [recognize_inside hin htable hstarted, classify, htable, hin]
      dsimp only
      split
      · exact fun _ => ⟨t, htable, hstarted⟩
      · exact fun h => absurd h Bool.false_ne_true
  | false =>
      have hout := scanned_outside tables hin line
      rw [recognize, classify, hout]
      rcases htable : (dropUnstarted (scanAll tables s line).1).table with _ | t
      · exact fun h => absurd (h.symm.trans hout) (by decide)
      · dsimp only
        split
        · exact fun _ => ⟨t, rfl, dropUnstarted_ne_zero htable⟩
        · exact fun h => absurd (h.symm.trans hout) (by decide)

theorem started_parseLines {ρ : Type} {p : Parser ρ} {columns : Nat → Text} {lines : List Text}
    {r : ParserState × List Event} (h : parseLines p columns lines = some r) :
    Started r.1.toRecognizer := by
  refine run_induction (P := fun _ s => Started s.toRecognizer) ?_ ?_ h
  · exact fun hin => absurd hin Bool.false_ne_true
  · intro past s line r hs hline
    rw [parseLine_recognizer hline]
    exact started_recognize hs line

theorem parseLine_row {ρ : Type} {p : Parser ρ} {s : ParserState} {t : Nat} {line : Text}
    (hs : Started s.toRecognizer) (hin : s.in_table = true) (htable : s.table = some t)
    (hsep : strstr line (tableAt p.tables t).sep) :
    (parseLine p s line).map Prod.snd =
      (readRow (tableAt p.tables t) line s.columns).map Prod.snd := by
  obtain ⟨u, hu, hstarted⟩ := hs hin
  have hrow : recognize p.tables s.toRecognizer line = (s.toRecognizer, .row t) := by
    rw [recognize_inside hin hu hstarted, classify, htable, hin]
    dsimp only
    rw [if_pos hsep]
  rw [parseLine, hrow]
  dsimp only
  rw [Option.map_map]
  rfl

/-- The lines of a file bring the parser inside of table `t`. -/
def InsideTable {ρ : Type} (p : Parser ρ) (columns : Nat → Text) (past : List Text) (t : Nat) :
    Prop :=
  ((parseLines p columns past).map fun r => (r.1.in_table, r.1.table)) = some (true, some t)

instance {ρ : Type} (p : Parser ρ) (columns : Nat → Text) (past : List Text) (t : Nat) :
    Decidable (InsideTable p columns past t) :=
  inferInstanceAs (Decidable (_ = _))

def sentFor {ρ : Type} (p : Parser ρ) (columns : Nat → Text) (past : List Text) (line : Text) :
    Option (List Event) :=
  (parseLines p columns past).bind fun r => (parseLine p r.1 line).map Prod.snd

theorem sentFor_inside {ρ : Type} {p : Parser ρ} {columns : Nat → Text} {past : List Text}
    {t : Nat} {line : Text} (hin : InsideTable p columns past t)
    (hrow : strstr line (tableAt p.tables t).sep) :
    ∃ columns', sentFor p columns past line =
      (readRow (tableAt p.tables t) line columns').map Prod.snd := by
  obtain ⟨r, hrun, hr⟩ := Option.map_eq_some_iff.mp hin
  obtain ⟨htrue, htable⟩ := Prod.mk.inj hr
  rw [sentFor, hrun, Option.bind_some,
    parseLine_row (started_parseLines hrun) htrue htable hrow]
  exact ⟨_, rfl⟩

/-- In any two runs that are inside of the same table, a row with as many columns as
the table sends the same pairs. -/
theorem sentFor_row_independent {ρ : Type} {p : Parser ρ} {columns columns' : Nat → Text}
    {past past' : List Text} {t : Nat} {line : Text} (hin : InsideTable p columns past t)
    (hin' : InsideTable p columns' past' t) (hrow : strstr line (tableAt p.tables t).sep)
    (hcols : (tableAt p.tables t).cols ≤ (strtok (tableAt p.tables t).sep line).length) :
    sentFor p columns past line = sentFor p columns' past' line := by
  obtain ⟨stored, hsent⟩ := sentFor_inside hin hrow
  obtain ⟨stored', hsent'⟩ := sentFor_inside hin' hrow
  rw [hsent, hsent']
  exact readRow_agree hcols stored stored'

/-- A table of two columns, the name of an operation and its share of the time. -/
def shares : table_t :=
  { sep := "|"
    val_sep := " "
    num_headers := 1
    header_names := "Operation | Pct" :: List.replicate 9 []
    cols := 2
    val_names := "operation" :: "pct" :: List.replicate 18 [] }

def sharesParser : Parser Unit :=
  { tables := [shares]
    key_regexes := []
    pcre_exec := fun _ _ => (-1, []) }

theorem sentFor_row_independent_shares :
    sentFor sharesParser (fun _ => []) ["Operation | Pct", " sort | 12 |"] " merge | 48 |" =
      sentFor sharesParser (fun _ => []) ["Operation | Pct", " scan | 40 |"] " merge | 48 |" :=
  @sentFor_row_independent _ sharesParser _ _ _ _ 0 " merge | 48 |" (by decide +kernel)
    (by decide +kernel) (by decide) (by decide +kernel)

/-- A row without its second column sends that of the row in front of it. -/
theorem sentFor_row_leaks :
    InsideTable sharesParser (fun _ => []) ["Operation | Pct", " sort | 12 |"] 0 ∧
      InsideTable sharesParser (fun _ => []) ["Operation | Pct", " scan | 40 |"] 0 ∧
      strstr " merge |" (tableAt sharesParser.tables 0).sep ∧
      sentFor sharesParser (fun _ => []) ["Operation | Pct", " sort | 12 |"] " merge |" ≠
        sentFor sharesParser (fun _ => []) ["Operation | Pct", " scan | 40 |"] " merge |" := by
  decide +kernel

end DaapLog.RowHistory
