import DaapLog.NumberedValues

/-!
Values as the application printed them. Every column loses its last character before it
is cut into values.
-/

namespace DaapLog.UnalteredValues

open DaapLog.CStrings
open DaapLog.TableTemplates
open DaapLog.ResultsParser
open DaapLog.Tokens
open DaapLog.Ranks
open DaapLog.RowValues
open DaapLog.NumberedValues

/-- A row is read, and what it sends are runs of it without separators and line
terminators that are as long as they can be. -/
structure Unaltered (table : table_t) (line : Text) (columns : Nat → Text) : Prop where
  read : (readRow table line columns).map Prod.snd =
    some ((calls table line columns).map (eventOf table))
  runs : ∀ call ∈ calls table line columns,
    call.2 ∈ tokens (fun c => isSep table c || isTerminator c) (placed line)

/-- A value has no line terminator, except for one that is the last character of its
column. -/
def Whole (r : Printed) : Prop :=
  (¬r.value <:+ r.column ∧ Free isTerminator r.value) ∨
    (r.value <:+ r.column ∧
      ∃ text c, r.value = text ++ [c] ∧ Free isTerminator text ∧ isTerminator c = true)

/-- The row fits into the arrays, its values that are sent are whole, and nothing that
earlier rows left is sent. -/
structure SendsWhole (table : table_t) (line : Text) (columns : Nat → Text) : Prop where
  fits : Fits table line columns
  whole : ∀ p r, (printed table line)[p]? = some r → reached table r = true →
    ¬Skips table (rank (reached table) (printed table line) p) → Whole r
  rest : ∀ j < (leftovers table line columns).length,
    Skips table ((printed table line).countP (reached table) + j)

variable {table : table_t} {line : Text} {columns : Nat → Text}

theorem mem_tokens_terminator_iff {value text : List Placed} {c : Placed} (hne : text ≠ [])
    (hvalue : value = text ++ [c]) :
    text ∈ tokens isTerminator value ↔ Free isTerminator text ∧ isTerminator c = true := by
  subst value
  constructor
  · intro h
    have hfree := (mem_tokens h).2.1
    refine ⟨hfree, ?_⟩
    cases hc : isTerminator c with
    | true => rfl
    | false =>
        rw [tokens_of_free (hfree.append (List.forall_mem_singleton.mpr hc)) (by simp),
          List.mem_singleton] at h
        exact absurd (congrArg List.length h) (by simp)
  · rintro ⟨hfree, hc⟩
    rw [tokens_append_cons text hc [], tokens_nil, List.append_nil, tokens_of_free hfree hne]
    exact List.mem_singleton_self text

theorem kept_ne_nil {p : Nat} {r : Printed} (hr : (printed table line)[p]? = some r)
    (hreached : reached table r = true) : kept r ≠ [] := by
  have hne := (mem_tokens (List.mem_of_getElem? (getElem?_tokens_of_printed hr))).1
  rw [reached, Bool.and_eq_true] at hreached
  rw [kept]
  split
  · next hend =>
      have hlength : r.value.length ≠ 1 := by simpa [hend] using hreached.2
      intro hnil
      have hzero := congrArg List.length hnil
      have hpos := List.length_pos_iff.mpr hne
      rw [List.length_dropLast, List.length_nil] at hzero
      omega
  · exact hne

theorem mem_runs_iff {p : Nat} {r : Printed} (hr : (printed table line)[p]? = some r)
    (hreached : reached table r = true) :
    kept r ∈ tokens (fun c => isSep table c || isTerminator c) (placed line) ↔
      kept r ∈ tokens isTerminator r.value := by
  have hvalue := getElem?_tokens_of_printed hr
  rw [← flatMap_tokens, List.mem_flatMap]
  constructor
  · rintro ⟨other, hother, hmem⟩
    obtain ⟨q, hq⟩ := List.getElem?_of_mem hother
    rcases eq_or_ne p q with rfl | hpq
    · obtain rfl := Option.some.inj (hvalue.symm.trans hq)
      exact hmem
    · have hdisjoint := disjoint_of_getElem?_tokens (nodup_placed line) hvalue hq hpq
      obtain ⟨c, hc⟩ := List.exists_mem_of_ne_nil _ (kept_ne_nil hr hreached)
      exact (hdisjoint ((kept_isPrefix r).subset hc) ((mem_tokens hmem).2.2.subset hc)).elim
  · intro hmem
    exact ⟨r.value, List.mem_of_getElem? hvalue, hmem⟩

theorem kept_mem_runs_iff {p : Nat} {r : Printed} (hr : (printed table line)[p]? = some r)
    (hreached : reached table r = true) :
    kept r ∈ tokens (fun c => isSep table c || isTerminator c) (placed line) ↔ Whole r := by
  have hne := kept_ne_nil hr hreached
  rw [mem_runs_iff hr hreached, Whole]
  rcases em (r.value <:+ r.column) with hend | hend
  · have hkept : kept r = r.value.dropLast := if_pos hend
    rw [hkept] at hne ⊢
    obtain ⟨text, c, hvalue⟩ := (List.eq_nil_or_concat' r.value).resolve_left fun hnil =>
      hne (by rw [hnil]; rfl)
    have htext : r.value.dropLast = text := by rw [hvalue, List.dropLast_concat]
    rw [htext] at hne ⊢
    rw [mem_tokens_terminator_iff hne hvalue]
    constructor
    · intro h
      exact .inr ⟨hend, text, c, hvalue, h⟩
    · rintro (⟨hnot, -⟩ | ⟨-, text', c', hvalue', h⟩)
      · exact absurd hend hnot
      · obtain ⟨rfl, hc⟩ := List.append_inj' (hvalue.symm.trans hvalue') rfl
        obtain rfl := List.singleton_inj.mp hc
        exact h
  · have hkept : kept r = r.value := if_neg hend
    rw [hkept] at hne ⊢
    constructor
    · intro h
      exact .inl ⟨hend, (mem_tokens h).2.1⟩
    · rintro (⟨-, hfree⟩ | ⟨hsuffix, -⟩)
      · rw [tokens_of_free hfree hne]
        exact List.mem_singleton_self _
      · exact absurd hsuffix hend

theorem not_mem_runs_of_leftovers {j : Nat} {value : List Placed}
    (h : (leftovers table line columns)[j]? = some value) (d : Placed → Bool) :
    value ∉ tokens d (placed line) := by
  intro hmem
  obtain ⟨hne, -, hinside⟩ := mem_tokens hmem
  obtain ⟨c, hc⟩ := List.exists_mem_of_ne_nil value hne
  obtain ⟨a, -, rfl⟩ := List.mem_map.mp (hinside.subset hc)
  exact absurd (place_of_leftovers h _ hc) nofun

/-- A row sends its values as they were printed exactly when it fits into the arrays, each
value that it sends is followed by a separator in its column or by one line terminator that
ends the column, and the columns that it does not have send nothing. -/
theorem unaltered_iff (table : table_t) (line : Text) (columns : Nat → Text) :
    Unaltered table line columns ↔ SendsWhole table line columns := by
  constructor
  · rintro ⟨hread, hruns⟩
    refine ⟨readRow_calls_iff.mp hread, fun p r hr hreached hskip => ?_, fun j hj => ?_⟩
    · have hcall : (_, kept r) ∈ calls table line columns :=
        mem_calls.mpr ⟨hskip, .inl ⟨p, r, hr, hreached, rfl, rfl⟩⟩
      exact (kept_mem_runs_iff hr hreached).mp (hruns _ hcall)
    · by_contra hskip
      have hvalue := List.getElem?_eq_getElem hj
      have hcall := mem_calls.mpr ⟨hskip, .inr ⟨j, hvalue, rfl⟩⟩
      exact not_mem_runs_of_leftovers hvalue _ (hruns _ hcall)
  · intro h
    refine ⟨readRow_calls_iff.mpr h.fits, ?_⟩
    rintro ⟨slot, value⟩ hcall
    obtain ⟨hskip, ⟨p, r, hr, hreached, rfl, rfl⟩ | ⟨j, hj, rfl⟩⟩ := mem_calls.mp hcall
    · exact (kept_mem_runs_iff hr hreached).mpr (h.whole p r hr hreached hskip)
    · exact absurd (h.rest j (List.getElem?_eq_some_iff.mp hj).1) hskip

/-- The last value of a row without a terminator loses its last character. -/
theorem not_unaltered_runout :
    (readRow runout "sort |12 3.5" fun _ => []).map Prod.snd = some [.send "pct" "3."] ∧
      ¬Unaltered runout "sort |12 3.5" fun _ => [] := by
  refine ⟨by decide, fun h => ?_⟩
  have hrun := h.runs (1, [('3', some 9), ('.', some 10)]) (by decide)
  exact absurd hrun (by decide)

end DaapLog.UnalteredValues
