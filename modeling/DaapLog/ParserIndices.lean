import DaapLog.LineTrimming
import DaapLog.ResultsTrimming
import DaapLog.RowBounds
import DaapLog.TemplateBounds

/-!
The array indices of a run over the three files. What the parsers do behind an index that is
out of range is undefined, so there a run has no result.
-/

namespace DaapLog.ParserIndices

open DaapLog.ByteBuffers
open DaapLog.CStrings
open DaapLog.KeyTemplates
open DaapLog.LineTrimming
open DaapLog.ResultsParser
open DaapLog.ResultsTrimming
open DaapLog.RowBounds
open DaapLog.Runs
open DaapLog.TableRecognition
open DaapLog.TableTemplates
open DaapLog.TemplateBounds

variable {ρ : Type}

/-- The indices of `parseTableTemplate`, whose array `line` is not initialised. -/
def TableTemplateInside (line file : Text) : Prop :=
  (run trimRound line (fgetsPieces file)).isSome ∧
    ∀ access ∈ tableAccessesFrom {} (fgetsLines LINE_LEN file), access.InRange

instance (line file : Text) : Decidable (TableTemplateInside line file) :=
  inferInstanceAs (Decidable (_ ∧ _))

/-- The indices of `parseKeyTemplate`. -/
def KeyTemplateInside (pcre_compile : Text → Option ρ) (line file : Text) : Prop :=
  (run trimRound line (fgetsPieces file)).isSome ∧
    ∀ index ∈ (parseKeyTemplate pcre_compile (some file)).2.2.filterMap KeyEvent.index?,
      index < MAX_KEY_REGEXES

instance (pcre_compile : Text → Option ρ) (line file : Text) :
    Decidable (KeyTemplateInside pcre_compile line file) :=
  inferInstanceAs (Decidable (_ ∧ _))

/-- The tables and the numbers of the headers that the scan of a line reads. -/
def headersRead (p : Parser ρ) (s : LoopState) (piece : Text) : List (Nat × Nat) :=
  match (stripped s piece).2 with
  | none => []
  | some left => (scanAll p.tables s.parser.toRecognizer (stringIn left.1)).2

/-- One round of the loop over the results, whose other indices `resultsRound` looks at. -/
def insideRound (p : Parser ρ) (s : LoopState) (piece : Text) :
    Option (LoopState × List Event) :=
  if ∀ read ∈ headersRead p s piece, read.2 < MAX_HEADERS then resultsRound p s piece else none

theorem insideTemplates_iff (pcre_compile : Text → Option ρ)
    (table_line key_line table_template key_template : Text) :
    TableTemplateInside table_line table_template ∧
        KeyTemplateInside pcre_compile key_line key_template ↔
      (TemplateTrims key_line (some key_template) ∧
        TemplateTrims table_line (some table_template)) ∧
      ArraysInRange pcre_compile (some table_template) (some key_template) := by
  have htrims (line file : Text) :
      (run trimRound line (fgetsPieces file)).isSome ↔ TemplateTrims line (some file) := by
    rw [run_trimRound_isSome_iff, TemplateTrims]
    simp only [Option.some.injEq, forall_eq']
  rw [TableTemplateInside, KeyTemplateInside, htrims, htrims]
  constructor
  · rintro ⟨⟨htable, haccesses⟩, hkey, hindices⟩
    refine ⟨⟨hkey, htable⟩, ?_, fun index hindex => hindices index (index_mem_iff.mpr hindex)⟩
    rintro file ⟨⟩
    exact haccesses
  · rintro ⟨⟨hkey, htable⟩, hrange⟩
    exact ⟨⟨htable, hrange.tables table_template rfl⟩, hkey,
      fun index hindex => hrange.key_regexes index (index_mem_iff.mp hindex)⟩

theorem insideRound_eq_some_iff {p : Parser ρ} {s : LoopState} {piece : Text}
    {r : LoopState × List Event} :
    insideRound p s piece = some r ↔
      (∀ read ∈ headersRead p s piece, read.2 < MAX_HEADERS) ∧
        resultsRound p s piece = some r := by
  rw [insideRound]
  split
  · next h => exact (and_iff_right h).symm
  · next h => exact iff_of_false (fun hnone => Option.some_ne_none r hnone.symm) fun hsome => h hsome.1

/-- Every index of a round is in range if it has a result. -/
theorem indicesInside_of_insideRound {p : Parser ρ} {s : LoopState} {piece : Text}
    (h : (insideRound p s piece).isSome) :
    ∃ left, (stripped s piece).2 = some left ∧ IndicesInside p s.parser (stringIn left.1) := by
  obtain ⟨r, hr⟩ := Option.isSome_iff_exists.mp h
  obtain ⟨hheaders, hround⟩ := insideRound_eq_some_iff.mp hr
  obtain ⟨left, hleft, hparse⟩ := Option.bind_eq_some_iff.mp hround
  rw [headersRead, hleft] at hheaders
  refine ⟨left, hleft, hheaders, fun t hrow => ?_⟩
  obtain ⟨after, hafter, -⟩ := Option.map_eq_some_iff.mp hparse
  rw [parseLine, hrow] at hafter
  obtain ⟨columns, hcolumns, -⟩ := Option.map_eq_some_iff.mp hafter
  rw [hcolumns]
  rfl

/-- A run over the results with all indices in range sends what `sentPairs` says. -/
theorem sentPairs_of_inside {p : Parser ρ} {locals : Indeterminate} {line_len : Int}
    {pieces : List Text} {r : LoopState × List Event}
    (h : run (insideRound p) (locals.start line_len) pieces = some r) :
    sentPairs p locals pieces line_len = some (r.2.filterMap fun event =>
      match event with
      | .exec _ _ => none
      | .send key val => some (key, val)) := by
  rw [sentPairs, run_mono (fun _ _ _ hround => (insideRound_eq_some_iff.mp hround).2) h]
  rfl

end DaapLog.ParserIndices
