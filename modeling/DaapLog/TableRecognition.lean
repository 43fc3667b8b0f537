import DaapLog.TableTemplates

/-!
How the line loop of `parseResults` recognises tables: the scan for headers, the
flag `in_table`, the pointer `table` and one counter `headers_found` for each table.
The lines are taken as the loop body sees them.
-/

namespace DaapLog.TableRecognition

open DaapLog.CStrings
open DaapLog.TableTemplates

/-- The locals that decide what a line is. The pointer `table` is an index into the
tables, and `headers_found` is the field of each table. -/
structure Recognizer where
  table : Option Nat := none
  in_table : Bool := false
  headers_found : Nat → Nat := fun _ => 0

/-- What the loop body does with a line: `continue` at once, read it as a row, try
the key regexes, or follow a null pointer. -/
inductive LineAction
  | skip
  | row (table : Nat)
  | keys
  | fault
  deriving DecidableEq

def tableAt (tables : List table_t) (t : Nat) : table_t := tables.getD t {}

def nextHeader (tables : List table_t) (headers_found : Nat → Nat) (t : Nat) : Text :=
  (tableAt tables t).header_names.getD (headers_found t) []

/-- The loop over the table indices that are left, and the pairs of table and header
index that it reads. -/
def headerScan (tables : List table_t) (line : Text) :
    List Nat → Recognizer → Recognizer × List (Nat × Nat)
  | [], s => (s, [])
  | i :: rest, s =>
      if s.table.isSome && s.in_table then (s, [])
      else
        let s := { s with table := some i }
        let read := (i, s.headers_found i)
        if strstr line (nextHeader tables s.headers_found i) then
          ({ s with
             headers_found := Function.update s.headers_found i (s.headers_found i + 1) }, [read])
        else
          let r := headerScan tables line rest s
          (r.1, read :: r.2)

def scanAll (tables : List table_t) (s : Recognizer) (line : Text) :
    Recognizer × List (Nat × Nat) :=
  headerScan tables line (List.range tables.length) s

/-- The pointer is dropped again if the table it was left at has no header yet. -/
def dropUnstarted (s : Recognizer) : Recognizer :=
  match s.table with
  | some t => if s.headers_found t = 0 then { s with table := none } else s
  | none => s

/-- The tests on `table` and `in_table` after the scan, and the search for the
column separator. -/
def classify (tables : List table_t) (s : Recognizer) (line : Text) : Recognizer × LineAction :=
  match s.table, s.in_table with
  | some t, false =>
      if s.headers_found t = (tableAt tables t).num_headers then
        ({ s with in_table := true }, .skip)
      else (s, .skip)
  | none, false => (s, .keys)
  | some t, true =>
      if strstr line (tableAt tables t).sep then (s, .row t)
      else
        ({ table := none
           in_table := false
           headers_found := Function.update s.headers_found t 0 }, .keys)
  | none, true => (s, .fault)

/-- The loop body up to the point where a row or the key regexes are treated. -/
def recognize (tables : List table_t) (s : Recognizer) (line : Text) : Recognizer × LineAction :=
  classify tables (dropUnstarted (scanAll tables s line).1) line

def recognizeAll (tables : List table_t) (lines : List Text) : Recognizer :=
  lines.foldl (fun s line => (recognize tables s line).1) {}

def HaveHeaders (tables : List table_t) : Prop :=
  ∀ t < tables.length, 1 ≤ (tableAt tables t).num_headers

structure Sound (tables : List table_t) (s : Recognizer) : Prop where
  table_lt : ∀ t, s.table = some t → t < tables.length
  bounded : ∀ t < tables.length, s.headers_found t ≤ (tableAt tables t).num_headers
  inside : s.in_table = true → ∃ t, s.table = some t
  complete : s.in_table = true → ∀ t, s.table = some t →
    s.headers_found t = (tableAt tables t).num_headers
  only : ∀ t < tables.length, s.headers_found t = (tableAt tables t).num_headers →
    s.in_table = true ∧ s.table = some t

/-- The ways a line can be treated in a sound state. -/
inductive Treated (tables : List table_t) (s : Recognizer) (line : Text) :
    Recognizer → LineAction → Prop
  | counted (t : Nat) (ht : t < tables.length) (hin : s.in_table = false)
      (hfound : strstr line (nextHeader tables s.headers_found t))
      (hmore : s.headers_found t + 1 ≠ (tableAt tables t).num_headers) :
      Treated tables s line
        ⟨some t, false, Function.update s.headers_found t (s.headers_found t + 1)⟩ .skip
  | entered (t : Nat) (ht : t < tables.length) (hin : s.in_table = false)
      (hfound : strstr line (nextHeader tables s.headers_found t))
      (hlast : s.headers_found t + 1 = (tableAt tables t).num_headers) :
      Treated tables s line
        ⟨some t, true, Function.update s.headers_found t (s.headers_found t + 1)⟩ .skip
  | swallowed (hin : s.in_table = false)
      (hnone : ∀ t < tables.length, ¬strstr line (nextHeader tables s.headers_found t))
      (hlast : tables ≠ [] ∧ s.headers_found (tables.length - 1) ≠ 0) :
      Treated tables s line ⟨some (tables.length - 1), false, s.headers_found⟩ .skip
  | unmatched (hin : s.in_table = false)
      (hnone : ∀ t < tables.length, ¬strstr line (nextHeader tables s.headers_found t))
      (hlast : tables ≠ [] → s.headers_found (tables.length - 1) = 0) :
      Treated tables s line ⟨none, false, s.headers_found⟩ .keys
  | row (t : Nat) (hin : s.in_table = true) (htable : s.table = some t)
      (hsep : strstr line (tableAt tables t).sep) :
      Treated tables s line s (.row t)
  | left (t : Nat) (hin : s.in_table = true) (htable : s.table = some t)
      (hsep : ¬strstr line (tableAt tables t).sep) :
      Treated tables s line ⟨none, false, Function.update s.headers_found t 0⟩ .keys

theorem headerScan_inside {tables : List table_t} {line : Text} {s : Recognizer} {t : Nat}
    (hin : s.in_table = true) (htable : s.table = some t) (is : List Nat) :
    headerScan tables line is s = (s, []) := by
  cases is with
  | nil => rfl
  | cons i rest => rw [headerScan, hin, htable]; rfl

/-- Outside of a table the scan stops at the first table whose next header is in the
line, or else has gone over all tables and leaves the last one in the pointer. -/
theorem headerScan_outside (tables : List table_t) (line : Text) (s : Recognizer)
    (hin : s.in_table = false) (is : List Nat) :
    (∃ front t rest, is = front ++ t :: rest ∧ strstr line (nextHeader tables s.headers_found t) ∧
        (∀ u ∈ front, ¬strstr line (nextHeader tables s.headers_found u)) ∧
        headerScan tables line is s =
          (⟨some t, false, Function.update s.headers_found t (s.headers_found t + 1)⟩,
            (front ++ [t]).map fun u => (u, s.headers_found u))) ∨
      (∀ u ∈ is, ¬strstr line (nextHeader tables s.headers_found u)) ∧
        headerScan tables line is s =
          (⟨is.getLast?.or s.table, false, s.headers_found⟩,
            is.map fun u => (u, s.headers_found u)) := by
  induction is generalizing s with
  | nil =>
      refine Or.inr ⟨by simp, ?_⟩
      rw [headerScan, ← hin]
      rfl
  | cons i rest ih =>
      rw [headerScan, hin, Bool.and_false, if_neg Bool.false_ne_true]
      dsimp only
      by_cases hfound : strstr line (nextHeader tables s.headers_found i)
      · refine Or.inl ⟨[], i, rest, rfl, hfound, by simp, ?_⟩
        rw [if_pos hfound]
        rfl
      · rw [if_neg hfound]
        rcases ih ⟨some i, false, s.headers_found⟩ rfl with
          ⟨front, t, rest', hrest, ht, hfront, hscan⟩ | ⟨hnone, hscan⟩
        · refine Or.inl ⟨i :: front, t, rest', by rw [hrest]; rfl, ht, ?_, by rw [hscan]; rfl⟩
          exact List.forall_mem_cons.mpr ⟨hfound, hfront⟩
        · refine Or.inr ⟨List.forall_mem_cons.mpr ⟨hfound, hnone⟩, ?_⟩
          rw [hscan, List.getLast?_cons]
          cases rest.getLast? <;> rfl

theorem recognize_treated {tables : List table_t} {s : Recognizer} (hs : Sound tables s)
    (htables : HaveHeaders tables) (line : Text) :
    Treated tables s line (recognize tables s line).1 (recognize tables s line).2 := by
  rw [recognize, scanAll]
  cases hin : s.in_table with
  | true =>
      obtain ⟨t, htable⟩ := hs.inside hin
      have hfound : s.headers_found t ≠ 0 := by
        have := htables t (hs.table_lt t htable)
        rw [hs.complete hin t htable]
        omega
      rw [headerScan_inside hin htable, dropUnstarted, htable]
      dsimp only
      rw [if_neg hfound, classify, htable, hin]
      by_cases hsep : strstr line (tableAt tables t).sep
      · simp only [hsep, if_true]
        exact .row t hin htable hsep
      · simp only [hsep]
        exact .left t hin htable hsep
  | false =>
      rcases headerScan_outside tables line s hin (List.range tables.length) with
        ⟨front, t, rest, hrange, hfound, -, hscan⟩ | ⟨hnone, hscan⟩
      · have ht : t < tables.length := by
          rw [← List.mem_range, hrange]
          simp
        simp only [hscan, dropUnstarted, classify, Function.update_self, Nat.succ_ne_zero,
          if_false]
        by_cases hlast : s.headers_found t + 1 = (tableAt tables t).num_headers
        · simp only [hlast, if_true]
          exact hlast ▸ .entered t ht hin hfound hlast
        · simp only [hlast, if_false]
          exact .counted t ht hin hfound hlast
      · simp only [List.mem_range] at hnone
        rw [hscan, List.getLast?_range]
        by_cases hempty : tables.length = 0
        · have htable : s.table = none := by
            rw [Option.eq_none_iff_forall_ne_some]
            intro t htable
            have := hs.table_lt t htable
            omega
          simp only [hempty, if_true, htable, Option.or_none, dropUnstarted, classify]
          exact .unmatched hin hnone fun hne => absurd (List.length_eq_zero_iff.mp hempty) hne
        · have hlt : tables.length - 1 < tables.length := by omega
          have hne : tables ≠ [] := fun hnil => hempty (by rw [hnil]; rfl)
          simp only [hempty, if_false, Option.some_or, dropUnstarted]
          by_cases hlast : s.headers_found (tables.length - 1) = 0
          · simp only [hlast, if_true, classify]
            exact .unmatched hin hnone fun _ => hlast
          · have hincomplete : s.headers_found (tables.length - 1) ≠
                (tableAt tables (tables.length - 1)).num_headers := fun hcomplete =>
              absurd (hs.only _ hlt hcomplete).1 (by rw [hin]; exact Bool.false_ne_true)
            simp only [hlast, if_false, classify, hincomplete]
            exact .swallowed hin hnone ⟨hne, hlast⟩

theorem sound_outside {tables : List table_t} {table : Option Nat} {headers_found : Nat → Nat}
    (htable : ∀ t, table = some t → t < tables.length)
    (hfound : ∀ t < tables.length, headers_found t < (tableAt tables t).num_headers) :
    Sound tables ⟨table, false, headers_found⟩ where
  table_lt := htable
  bounded := fun t ht => (hfound t ht).le
  inside := fun hin => absurd hin Bool.false_ne_true
  complete := fun hin => absurd hin Bool.false_ne_true
  only := fun t ht hcomplete => absurd hcomplete (hfound t ht).ne

theorem headers_found_lt {tables : List table_t} {s : Recognizer} (hs : Sound tables s) {t : Nat}
    (ht : t < tables.length) (hother : s.in_table = false ∨ s.table ≠ some t) :
    s.headers_found t < (tableAt tables t).num_headers := by
  refine lt_of_le_of_ne (hs.bounded t ht) fun hcomplete => ?_
  obtain ⟨hin, htable⟩ := hs.only t ht hcomplete
  rcases hother with hother | hother
  · exact absurd hin (by rw [hother]; exact Bool.false_ne_true)
  · exact hother htable

theorem sound_start {tables : List table_t} (htables : HaveHeaders tables) :
    Sound tables {} :=
  sound_outside (by rintro t ⟨⟩) htables

theorem sound_treated {tables : List table_t} {s s' : Recognizer} {line : Text}
    {action : LineAction} (htables : HaveHeaders tables) (hs : Sound tables s)
    (h : Treated tables s line s' action) : Sound tables s' := by
  cases h with
  | counted t ht hin hfound hmore =>
      refine sound_outside (by rintro u ⟨rfl⟩; exact ht) fun u hu => ?_
      have hlt := headers_found_lt hs hu (Or.inl hin)
      rw [Function.update_apply]
      split
      · next hut =>
          subst hut
          omega
      · exact hlt
  | entered t ht hin hfound hlast =>
      have hlt (u : Nat) (hu : u < tables.length) := headers_found_lt hs hu (Or.inl hin)
      refine ⟨by rintro u ⟨rfl⟩; exact ht, fun u hu => ?_, fun _ => ⟨t, rfl⟩, ?_, ?_⟩
      · dsimp only
        rw [Function.update_apply]
        split
        · next hut =>
            subst hut
            exact hlast.le
        · exact (hlt u hu).le
      · rintro - u ⟨rfl⟩
        exact (Function.update_self ..).trans hlast
      · intro u hu hcomplete
        refine ⟨rfl, congrArg some ?_⟩
        by_contra hne
        exact (hlt u hu).ne ((Function.update_of_ne (Ne.symm hne) _ _).symm.trans hcomplete)
  | swallowed hin hnone hlast =>
      refine sound_outside ?_ fun u hu => headers_found_lt hs hu (Or.inl hin)
      rintro u ⟨rfl⟩
      exact Nat.sub_one_lt_of_lt (List.length_pos_of_ne_nil hlast.1)
  | unmatched hin hnone hlast =>
      exact sound_outside (by rintro u ⟨⟩) fun u hu => headers_found_lt hs hu (Or.inl hin)
  | row t hin htable hsep => exact hs
  | left t hin htable hsep =>
      refine sound_outside (by rintro u ⟨⟩) fun u hu => ?_
      rw [Function.update_apply]
      split
      · exact htables u hu
      · next hut =>
          refine headers_found_lt hs hu (Or.inr ?_)
          rw [htable]
          exact fun h => hut (Option.some.inj h).symm

theorem treated_ne_fault {tables : List table_t} {s s' : Recognizer} {line : Text}
    {action : LineAction} (h : Treated tables s line s' action) : action ≠ .fault := by
  cases h <;> exact LineAction.noConfusion

theorem treated_row {tables : List table_t} {s s' : Recognizer} {line : Text} {t : Nat}
    (h : Treated tables s line s' (.row t)) :
    s' = s ∧ s.in_table = true ∧ s.table = some t ∧ strstr line (tableAt tables t).sep := by
  cases h with
  | row _ hin htable hsep => exact ⟨rfl, hin, htable, hsep⟩

theorem recognizeAll_concat (tables : List table_t) (lines : List Text) (line : Text) :
    recognizeAll tables (lines ++ [line]) =
      (recognize tables (recognizeAll tables lines) line).1 := by
  simp [recognizeAll]

theorem sound_recognizeAll {tables : List table_t} (htables : HaveHeaders tables)
    (lines : List Text) : Sound tables (recognizeAll tables lines) := by
  induction lines using List.reverseRecOn with
  | nil => exact sound_start htables
  | append_singleton lines line ih =>
      rw [recognizeAll_concat]
      exact sound_treated htables ih (recognize_treated ih htables line)

theorem treated_recognizeAll {tables : List table_t} (htables : HaveHeaders tables)
    (lines : List Text) (line : Text) :
    Treated tables (recognizeAll tables lines) line (recognizeAll tables (lines ++ [line]))
      (recognize tables (recognizeAll tables lines) line).2 := by
  rw [recognizeAll_concat]
  exact recognize_treated (sound_recognizeAll htables lines) htables line

theorem scanAll_reads {tables : List table_t} {s : Recognizer} (hs : Sound tables s)
    (line : Text) :
    ∀ read ∈ (scanAll tables s line).2, read.2 < (tableAt tables read.1).num_headers := by
  intro read hread
  rw [scanAll] at hread
  cases hin : s.in_table with
  | true =>
      obtain ⟨t, htable⟩ := hs.inside hin
      rw [headerScan_inside hin htable] at hread
      exact absurd hread List.not_mem_nil
  | false =>
      have hindex : ∃ u ∈ List.range tables.length, (u, s.headers_found u) = read := by
        rcases headerScan_outside tables line s hin (List.range tables.length) with
          ⟨front, t, rest, hrange, -, -, hscan⟩ | ⟨-, hscan⟩
        · rw [hscan, List.mem_map] at hread
          obtain ⟨u, hu, rfl⟩ := hread
          refine ⟨u, ?_, rfl⟩
          rw [hrange, List.append_cons]
          exact List.mem_append_left _ hu
        · rw [hscan, List.mem_map] at hread
          exact hread
      obtain ⟨u, hu, rfl⟩ := hindex
      exact headers_found_lt hs (List.mem_range.mp hu) (Or.inl hin)

def headers (tables : List table_t) (t : Nat) : List Text :=
  (List.range (tableAt tables t).num_headers).map fun j =>
    (tableAt tables t).header_names.getD j []

/-- Since the last time that no header of table `t` was counted, the first headers of
`t` were found, in their order and on lines of their own. -/
def SeenSince (tables : List table_t) (t : Nat) (lines : List Text) (seen : List Text) : Prop :=
  ∃ before since, lines = before ++ since ∧
    (recognizeAll tables before).headers_found t = 0 ∧
    (∀ part, part ≠ [] → part <+: since →
      (recognizeAll tables (before ++ part)).headers_found t ≠ 0) ∧
    ∃ found, found.Sublist since ∧ List.Forall₂ (fun line header => strstr line header) found seen

theorem headers_found_treated {tables : List table_t} {s s' : Recognizer} {line : Text}
    {action : LineAction} (h : Treated tables s line s' action) (t : Nat) :
    s'.headers_found t = 0 ∨ s'.headers_found t = s.headers_found t ∨
      s'.headers_found t = s.headers_found t + 1 ∧
        strstr line (nextHeader tables s.headers_found t) := by
  have hcount (u : Nat) (hfound : strstr line (nextHeader tables s.headers_found u)) :
      Function.update s.headers_found u (s.headers_found u + 1) t = s.headers_found t ∨
        Function.update s.headers_found u (s.headers_found u + 1) t = s.headers_found t + 1 ∧
          strstr line (nextHeader tables s.headers_found t) := by
    rcases eq_or_ne t u with rfl | hne
    · exact Or.inr ⟨Function.update_self .., hfound⟩
    · exact Or.inl (Function.update_of_ne hne _ _)
  cases h with
  | counted u ht hin hfound hmore => exact Or.inr (hcount u hfound)
  | entered u ht hin hfound hlast => exact Or.inr (hcount u hfound)
  | swallowed hin hnone hlast => exact Or.inr (Or.inl rfl)
  | unmatched hin hnone hlast => exact Or.inr (Or.inl rfl)
  | row u hin htable hsep => exact Or.inr (Or.inl rfl)
  | left u hin htable hsep =>
      rcases eq_or_ne t u with rfl | hne
      · exact Or.inl (Function.update_self ..)
      · exact Or.inr (Or.inl (Function.update_of_ne hne _ _))

theorem seenSince_concat {tables : List table_t} {t : Nat} {lines seen more : List Text}
    {line : Text} (h : SeenSince tables t lines seen)
    (hstarted : (recognizeAll tables (lines ++ [line])).headers_found t ≠ 0)
    (hmore : more = [] ∨ ∃ header, more = [header] ∧ strstr line header) :
    SeenSince tables t (lines ++ [line]) (seen ++ more) := by
  obtain ⟨before, since, rfl, hzero, hsince, found, hfound, hseen⟩ := h
  refine ⟨before, since ++ [line], by rw [List.append_assoc], hzero, ?_, ?_⟩
  · intro part hpart hprefix
    rcases List.prefix_concat_iff.mp hprefix with rfl | hprefix
    · rwa [← List.append_assoc]
    · exact hsince part hpart hprefix
  · rcases hmore with rfl | ⟨header, rfl, hheader⟩
    · rw [List.append_nil]
      exact ⟨found, hfound.trans (List.sublist_append_left since [line]), hseen⟩
    · refine ⟨found ++ [line], hfound.append (List.Sublist.refl _), List.rel_append hseen ?_⟩
      exact .cons hheader .nil

theorem seenSince_recognizeAll {tables : List table_t} (htables : HaveHeaders tables)
    (lines : List Text) (t : Nat) :
    SeenSince tables t lines
      ((List.range ((recognizeAll tables lines).headers_found t)).map fun j =>
        (tableAt tables t).header_names.getD j []) := by
  induction lines using List.reverseRecOn with
  | nil =>
      refine ⟨[], [], rfl, rfl, fun part hpart hnil => ?_, [], .slnil, .nil⟩
      exact absurd (List.prefix_nil.mp hnil) hpart
  | append_singleton lines line ih =>
      by_cases hzero : (recognizeAll tables (lines ++ [line])).headers_found t = 0
      · rw [hzero]
        refine ⟨lines ++ [line], [], by rw [List.append_nil], hzero, fun part hpart hnil => ?_, [],
          .slnil, .nil⟩
        exact absurd (List.prefix_nil.mp hnil) hpart
      · rcases headers_found_treated (treated_recognizeAll htables lines line) t with
          h | h | ⟨h, hfound⟩
        · exact absurd h hzero
        · have hsame := seenSince_concat ih hzero (Or.inl rfl)
          rwa [List.append_nil, ← h] at hsame
        · rw [h, List.range_succ, List.map_append]
          exact seenSince_concat ih hzero (Or.inr ⟨_, rfl, hfound⟩)

theorem seenSince_headers {tables : List table_t} (htables : HaveHeaders tables)
    {lines : List Text} {t : Nat} (hin : (recognizeAll tables lines).in_table = true)
    (htable : (recognizeAll tables lines).table = some t) :
    SeenSince tables t lines (headers tables t) := by
  have hcomplete := (sound_recognizeAll htables lines).complete hin t htable
  rw [headers, ← hcomplete]
  exact seenSince_recognizeAll htables lines t

/-- After any lines the counters are in range and agree with `in_table` and `table`,
the scan of the next line stays within the headers of each table, and a table is
entered or has a row read only after all of its headers were seen in order since its
counter was 0. -/
theorem recognizeAll_sound {tables : List table_t} (htables : HaveHeaders tables)
    (lines : List Text) :
    Sound tables (recognizeAll tables lines) ∧
      ∀ line,
        (∀ read ∈ (scanAll tables (recognizeAll tables lines) line).2,
          read.2 < (tableAt tables read.1).num_headers) ∧
        (recognize tables (recognizeAll tables lines) line).2 ≠ .fault ∧
        (∀ t, (recognizeAll tables lines).in_table = false →
          (recognizeAll tables (lines ++ [line])).in_table = true →
          (recognizeAll tables (lines ++ [line])).table = some t →
          SeenSince tables t (lines ++ [line]) (headers tables t)) ∧
        ∀ t, (recognize tables (recognizeAll tables lines) line).2 = .row t →
          SeenSince tables t lines (headers tables t) := by
  have hs := sound_recognizeAll htables lines
  refine ⟨hs, fun line => ⟨scanAll_reads hs line, ?_, ?_, ?_⟩⟩
  · exact treated_ne_fault (treated_recognizeAll htables lines line)
  · intro t _ hin htable
    exact seenSince_headers htables hin htable
  · intro t hrow
    obtain ⟨-, hin, htable, -⟩ := treated_row (hrow ▸ treated_recognizeAll htables lines line)
    exact seenSince_headers htables hin htable

/-- The table of the example run: two header lines in front of rows of three columns. -/
def timings : table_t :=
  { sep := "|"
    val_sep := " "
    num_headers := 2
    header_names := ["Operation | Pct", "----------+----", [], [], [], [], [], [], [], []]
    cols := 2 }

theorem recognizeAll_sound_timings :
    Sound [timings] (recognizeAll [timings] ["Operation | Pct", "----------+----"]) ∧
      SeenSince [timings] 0 ["Operation | Pct", "----------+----"] (headers [timings] 0) := by
  have htables : HaveHeaders [timings] := by
    unfold HaveHeaders
    decide
  obtain ⟨hsound, hline⟩ := recognizeAll_sound htables ["Operation | Pct", "----------+----"]
  exact ⟨hsound, (hline "sort | 12 ").2.2.2 0 (by decide)⟩

end DaapLog.TableRecognition
