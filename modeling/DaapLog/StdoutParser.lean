import DaapLog.InitTransport
import DaapLog.LiteralMessages
import DaapLog.ParserIndices
import DaapLog.ProcessLines

/-!
The program `stdout_parser`: its options, its files and the calls of the library that a run
of it comes to. A run has no result behind an index of the parsers that is out of range.
-/

namespace DaapLog.StdoutParser

open DaapLog.BuildInflux
open DaapLog.CStrings
open DaapLog.InfluxRoundTrip
open DaapLog.InitTransport
open DaapLog.JobMarkers
open DaapLog.LibraryCalls
open DaapLog.LineProtocol
open DaapLog.LiteralMessages
open DaapLog.ParserIndices
open DaapLog.PrintfFormats
open DaapLog.ProcessLines
open DaapLog.ResultsParser (Parser)
open DaapLog.ResultsTrimming
open DaapLog.Runs
open DaapLog.TracedCalls

def PATH_MAX : Nat := 4096

/-- An option that `getopt` returns, with its `optarg`; `other` is one it does not know. -/
inductive Opt
  | t
  | s
  | m (optarg : Text)
  | d (optarg : Text)
  | f (optarg : Text)
  | other

structure Settings where
  transport_type : Transport := .NONE
  key_template_file : Text := []
  table_template_file : Text := []
  results_file : Text := []

namespace Settings

/-- One round of the loop over the options; nothing if it calls `usage`. -/
def option (settings : Settings) : Opt → Option Settings
  | .t => some { settings with transport_type := .TCP }
  | .s => some { settings with transport_type := .SYSLOG }
  | .m optarg =>
      some { settings with
        key_template_file := snprintf PATH_MAX settings.key_template_file optarg }
  | .d optarg =>
      some { settings with
        table_template_file := snprintf PATH_MAX settings.table_template_file optarg }
  | .f optarg =>
      some { settings with results_file := snprintf PATH_MAX settings.results_file optarg }
  | .other => none

/-- What `main` asks for. A table template is not part of it. -/
def given (settings : Settings) : Bool :=
  settings.transport_type ≠ .NONE && settings.key_template_file ≠ [] && settings.results_file ≠ []

end Settings

def readOptions (options : List Opt) : Option Settings :=
  (options.foldlM Settings.option {}).filter Settings.given

/-- What a run gets from outside: the file system, PCRE, the locals that are not
initialised, and the surroundings of the library's calls. `key_line` and `table_line` are the
arrays `line` of the two template parsers; `results` has the surroundings of each result that
is sent. -/
structure Surroundings (ρ : Type) where
  fopen : Text → Option Text
  pcre_compile : Text → Option ρ
  pcre_exec : ρ → Text → Int × List Int
  key_line : Text
  table_line : Text
  locals : Indeterminate
  line_len : Int
  init : InitArgs
  results : Nat → LogIo
  env : Environment
  io : LogIo

def pairOf : ResultsParser.Event → Option (Text × Text)
  | .exec _ _ => none
  | .send key val => some (key, val)

/-- The calls of `sendResult` for pairs of which the first has the number `n`. -/
def sendAll (results : Nat → LogIo) :
    Nat → List (Text × Text) → Library → Traced Library Event Unit
  | _, [], l => (l, [], .returns ())
  | n, pair :: rest, l =>
      andThen (sendResult l (some pair.1) (some pair.2) (results n)) fun l _ =>
        sendAll results (n + 1) rest l

section Program

variable {ρ : Type} (w : Surroundings ρ)

/-- The loop over the lines of the results file. -/
def linesLoop (p : Parser ρ) :
    LoopState → Nat → List Text → Library → Traced Library Event Unit
  | _, _, [], l => (l, [], .returns ())
  | s, n, piece :: rest, l =>
      match insideRound p s piece with
      | none => (l, [], .undefined)
      | some r =>
          andThen (sendAll w.results n (r.2.filterMap pairOf) l) fun l _ =>
            linesLoop p r.1 (n + (r.2.filterMap pairOf).length) rest l

def Surroundings.files (settings : Settings) : Files where
  key_template := w.fopen settings.key_template_file
  table_template := w.fopen settings.table_template_file
  results := w.fopen settings.results_file

def Surroundings.parser (settings : Settings) : Parser ρ :=
  (w.files settings).parser w.pcre_compile w.pcre_exec

/-- What `parseResults` does in front of its loop. It has no result if an index of a template
parser is out of range, and nothing to read if a file cannot be opened. -/
def Surroundings.openFiles (settings : Settings) : Option (Option Text) :=
  match (w.files settings).results, (w.files settings).table_template with
  | some results, some table_template =>
      if TableTemplateInside w.table_line table_template then
        match (w.files settings).key_template with
        | some key_template =>
            if KeyTemplateInside w.pcre_compile w.key_line key_template then some (some results)
            else none
        | none => some none
      else none
  | _, _ => some none

def parseResults (settings : Settings) (l : Library) : Traced Library Event Int :=
  match w.openFiles settings with
  | none => (l, [], .undefined)
  | some none => (l, [], .returns (-1))
  | some (some results) =>
      andThen (linesLoop w (w.parser settings) (w.locals.start w.line_len) 0
        (LineTrimming.fgetsPieces results) l) fun l _ => (l, [], .returns 0)

def Surroundings.initArgs (settings : Settings) : InitArgs :=
  { w.init with
    app_name := "daap_stdout_parser".toList
    transport_type := settings.transport_type }

/-- The results of `parseResults` and `daapFinalize` are dropped. -/
def main (options : List Opt) : Traced Library Event Int :=
  match readOptions options with
  | none => ({}, [], .exits 0)
  | some settings =>
      andThen (({} : Library).daapInit (w.initArgs settings)) fun l ret_val =>
        if ret_val ≠ 0 then (l, [], .returns ret_val)
        else
          andThen (parseResults w settings l) fun l _ =>
            andThen (l.daapFinalize w.env w.io) fun l _ => (l, [], .returns 0)

/-- The text of the message for a pair, which `sendResult` makes a format. -/
def Prints (pair : Text × Text) (text : Text) : Prop :=
  printf (pair.1 ++ '=' :: pair.2) [] = some text

/-- The calls for texts of which the first has the number `n`. -/
def logCalls (results : Nat → LogIo) : Nat → List Text → List Call
  | _, [] => []
  | n, text :: rest =>
      .daapLogWrite text { results n with msg_len := text.length } :: logCalls results (n + 1) rest

def Surroundings.process (settings : Settings) (texts : List Text) : Process where
  first := w.initArgs settings
  more := []
  later := logCalls w.results 0 texts
  env := w.env
  io := w.io

def Surroundings.pairsOf (settings : Settings) : Option Text → Option (List (Text × Text))
  | none => some []
  | some results =>
      (run (insideRound (w.parser settings)) (w.locals.start w.line_len)
        (LineTrimming.fgetsPieces results)).map fun r => r.2.filterMap pairOf

/-- The pairs that a run sends, unless an index is out of range. -/
def Surroundings.pairs (settings : Settings) : Option (List (Text × Text)) :=
  (w.openFiles settings).bind (w.pairsOf settings)

theorem sendAll_append (results : Nat → LogIo) (n : Nat) (front back : List (Text × Text))
    (l : Library) :
    sendAll results n (front ++ back) l =
      andThen (sendAll results n front l) fun l _ => sendAll results (n + front.length) back l := by
  induction front generalizing n l with
  | nil => rw [List.nil_append, sendAll, andThen_returns, List.length_nil, Nat.add_zero]
  | cons pair front ih =>
      rw [List.cons_append, sendAll, sendAll, andThen_assoc]
      congr 1
      funext l _
      rw [ih, List.length_cons, Nat.add_assoc, Nat.add_comm 1]

theorem linesLoop_eq_iff {p : Parser ρ} {s : LoopState} {n : Nat} {pieces : List Text}
    {l l' : Library} {events : List Event} :
    linesLoop w p s n pieces l = (l', events, .returns ()) ↔
      ∃ r, run (insideRound p) s pieces = some r ∧
        sendAll w.results n (r.2.filterMap pairOf) l = (l', events, .returns ()) := by
  induction pieces generalizing s n l events with
  | nil => simp [linesLoop, run, sendAll]
  | cons piece rest ih =>
      rw [linesLoop, run]
      cases hround : insideRound p s piece with
      | none => simp
      | some r =>
          simp only [Option.bind_some, andThen_eq_returns_iff, ih]
          constructor
          · rintro ⟨l₁, front, ⟨⟩, back, hfront, ⟨r', hrun, hback⟩, rfl⟩
            refine ⟨(r'.1, r.2 ++ r'.2), by rw [hrun]; rfl, ?_⟩
            rw [List.filterMap_append, sendAll_append, andThen_eq_returns_iff]
            exact ⟨l₁, front, (), back, hfront, hback, rfl⟩
          · rintro ⟨r', hrun, hsend⟩
            obtain ⟨r₂, hrest, rfl⟩ := Option.map_eq_some_iff.mp hrun
            rw [List.filterMap_append, sendAll_append, andThen_eq_returns_iff] at hsend
            obtain ⟨l₁, front, ⟨⟩, back, hfront, hback, rfl⟩ := hsend
            exact ⟨l₁, front, (), back, hfront, ⟨r₂, hrest, hback⟩, rfl⟩

end Program

section Sending

variable {results : Nat → LogIo} {l l' : Library} {events : List Event}

theorem step_eq_iff {c : Call} :
    step l c = some (l', events) ↔ ∃ ret, c.perform l = (l', events, .returns ret) := by
  rw [step_eq_some_iff]
  constructor
  · rintro ⟨⟨ret, hret⟩, hstate⟩
    obtain ⟨rfl, rfl⟩ := Prod.mk.inj hstate
    exact ⟨ret, by rw [← hret]⟩
  · rintro ⟨ret, hperform⟩
    rw [hperform]
    exact ⟨⟨ret, rfl⟩, rfl⟩

theorem step_eq_iff_of_map {α : Type} {c : Call} {r : Traced Library Event α} {f : α → Option Int}
    (hperform : c.perform l = (r.1, r.2.1, r.2.2.map f)) :
    step l c = some (l', events) ↔ ∃ ret, r = (l', events, .returns ret) := by
  rw [step_eq_iff, hperform]
  constructor
  · rintro ⟨ret, h⟩
    obtain ⟨hstate, h⟩ := Prod.mk.inj h
    obtain ⟨hevents, h⟩ := Prod.mk.inj h
    obtain ⟨value, hvalue, -⟩ := Ending.map_eq_returns_iff.mp h
    exact ⟨value, by rw [← hstate, ← hevents, ← hvalue]⟩
  · rintro ⟨ret, rfl⟩
    exact ⟨f ret, rfl⟩

theorem step_daapLogWrite_iff {text : Text} {io : LogIo} :
    step l (.daapLogWrite text io) = some (l', events) ↔
      ∃ ret, l.daapLogWrite .caller text io = (l', events, .returns ret) :=
  step_eq_iff_of_map (f := some) rfl

theorem step_daapFinalize_iff {env : Environment} {io : LogIo} :
    step l (.daapFinalize env io) = some (l', events) ↔
      ∃ ret, l.daapFinalize env io = (l', events, .returns ret) :=
  step_eq_iff

theorem run_cons_iff {c : Call} {calls : List Call} :
    run step l (c :: calls) = some (l', events) ↔
      ∃ l₁ front back, step l c = some (l₁, front) ∧ run step l₁ calls = some (l', back) ∧
        events = front ++ back := by
  rw [run, Option.bind_eq_some_iff]
  constructor
  · rintro ⟨⟨l₁, front⟩, hstep, hrun⟩
    obtain ⟨⟨l₂, back⟩, hback, hsame⟩ := Option.map_eq_some_iff.mp hrun
    obtain ⟨rfl, rfl⟩ := Prod.mk.inj hsame
    exact ⟨l₁, front, back, hstep, hback, rfl⟩
  · rintro ⟨l₁, front, back, hstep, hback, rfl⟩
    exact ⟨(l₁, front), hstep, by rw [hback]; rfl⟩

theorem run_concat_iff {c : Call} {calls : List Call} :
    run step l (calls ++ [c]) = some (l', events) ↔
      ∃ l₁ front back, run step l calls = some (l₁, front) ∧ step l₁ c = some (l', back) ∧
        events = front ++ back := by
  induction calls generalizing l events with
  | nil => simp [run]
  | cons first rest ih =>
      rw [List.cons_append, run_cons_iff]
      simp only [ih, run_cons_iff]
      constructor
      · rintro ⟨l₁, front, _, hfirst, ⟨l₂, middle, back, hmiddle, hlast, rfl⟩, rfl⟩
        exact ⟨l₂, front ++ middle, back, ⟨l₁, front, middle, hfirst, hmiddle, rfl⟩, hlast,
          (List.append_assoc ..).symm⟩
      · rintro ⟨l₂, _, back, ⟨l₁, front, middle, hfirst, hmiddle, rfl⟩, hlast, rfl⟩
        exact ⟨l₁, front, middle ++ back, hfirst, ⟨l₂, middle, back, hmiddle, hlast, rfl⟩,
          List.append_assoc ..⟩

theorem step_daapInit_iff {args : InitArgs} :
    step l (.daapInit args) = some (l', events) ↔
      ∃ ret, l.daapInit args = (l', events, .returns ret) :=
  step_eq_iff_of_map (f := some) rfl

/-- Sending pairs is logging their texts, one call for each. -/
theorem sendAll_eq_iff (hcalled : l.daapInit_called = true) {n : Nat}
    {pairs : List (Text × Text)} :
    sendAll results n pairs l = (l', events, .returns ()) ↔
      ∃ texts, List.Forall₂ Prints pairs texts ∧
        run step l (logCalls results n texts) = some (l', events) := by
  induction pairs generalizing n l events with
  | nil => simp [sendAll, logCalls, run]
  | cons pair rest ih =>
      rw [sendAll, sendResult_eq, LiteralMessages.daapLogWrite, if_neg (by simp [hcalled])]
      cases hprint : printf (pair.1 ++ '=' :: pair.2) [] with
      | none => simp [andThen, List.forall₂_cons_left_iff, Prints, hprint]
      | some text =>
          have hlater (tls : TlsTransport.Tls) :
              ({ l with tls := tls } : Library).daapInit_called = true := hcalled
          simp only [andThen_eq_returns_iff]
          constructor
          · rintro ⟨l₁, front, ret, back, hwrite, hback, rfl⟩
            obtain ⟨tls, htls⟩ := daapLogWrite_frame l .caller text
              { results n with msg_len := text.length }
            obtain rfl : l₁ = { l with tls := tls } := by rw [← htls, hwrite]
            obtain ⟨texts, htexts, hrun⟩ := (ih (hlater tls)).mp hback
            refine ⟨text :: texts, .cons hprint htexts, ?_⟩
            rw [logCalls, run, step_daapLogWrite_iff.mpr ⟨ret, hwrite⟩, Option.bind_some, hrun]
            rfl
          · rintro ⟨texts, htexts, hrun⟩
            obtain ⟨text', texts, hhead, htail, rfl⟩ := List.forall₂_cons_left_iff.mp htexts
            obtain rfl : text = text' := Option.some.inj (hprint.symm.trans hhead)
            obtain ⟨⟨l₁, front⟩, hfirst, hrun⟩ := Option.bind_eq_some_iff.mp hrun
            obtain ⟨⟨l₂, back⟩, hback, hsame⟩ := Option.map_eq_some_iff.mp hrun
            obtain ⟨rfl, rfl⟩ := Prod.mk.inj hsame
            obtain ⟨ret, hwrite⟩ := step_daapLogWrite_iff.mp hfirst
            obtain ⟨tls, htls⟩ := daapLogWrite_frame l .caller text
              { results n with msg_len := text.length }
            obtain rfl : l₁ = { l with tls := tls } := by rw [← htls, hwrite]
            exact ⟨_, front, ret, back, hwrite, (ih (hlater tls)).mpr ⟨texts, htail, hback⟩, rfl⟩

end Sending

section Runs

variable {ρ : Type} {w : Surroundings ρ} {settings : Settings} {l l' : Library}
  {events : List Event}

theorem pairs_of_openFiles {results : Option Text} (h : w.openFiles settings = some results) :
    w.pairs settings = w.pairsOf settings results := by
  rw [Surroundings.pairs, h, Option.bind_some]

/-- The sent part of `parseResults`, whatever its result is. -/
theorem parseResults_eq_iff (hcalled : l.daapInit_called = true) :
    (∃ ret, parseResults w settings l = (l', events, .returns ret)) ↔
      ∃ pairs texts, w.pairs settings = some pairs ∧ List.Forall₂ Prints pairs texts ∧
        run step l (logCalls w.results 0 texts) = some (l', events) := by
  rw [parseResults]
  split
  · next hopen => simp [Surroundings.pairs, hopen]
  · next hopen =>
      rw [pairs_of_openFiles hopen]
      constructor
      · rintro ⟨ret, hsame⟩
        cases hsame
        exact ⟨[], [], rfl, .nil, rfl⟩
      · rintro ⟨pairs, texts, hpairs, htexts, hrun⟩
        obtain rfl := Option.some.inj hpairs
        obtain rfl := List.forall₂_nil_left_iff.mp htexts
        cases hrun
        exact ⟨-1, rfl⟩
  · next results hopen =>
      rw [pairs_of_openFiles hopen]
      constructor
      · rintro ⟨ret, h⟩
        obtain ⟨l₁, front, ⟨⟩, back, hloop, hret, rfl⟩ := andThen_eq_returns_iff.mp h
        cases hret
        obtain ⟨r, hrun, hsend⟩ := (linesLoop_eq_iff w).mp hloop
        obtain ⟨texts, htexts, hlog⟩ := (sendAll_eq_iff hcalled).mp hsend
        rw [List.append_nil]
        exact ⟨_, texts, by rw [Surroundings.pairsOf, hrun]; rfl, htexts, hlog⟩
      · rintro ⟨pairs, texts, hsome, htexts, hlog⟩
        obtain ⟨r, hrun, rfl⟩ := Option.map_eq_some_iff.mp hsome
        have hsend := (sendAll_eq_iff hcalled).mpr ⟨texts, htexts, hlog⟩
        refine ⟨0, andThen_eq_returns_iff.mpr ⟨l', events, (), [], ?_, rfl, ?_⟩⟩
        · exact (linesLoop_eq_iff w).mpr ⟨r, hrun, hsend⟩
        · rw [List.append_nil]

theorem called_of_success {args : InitArgs}
    (h : ({} : Library).daapInit args = (l, events, .returns DAAP_SUCCESS)) :
    l.daapInit_called = true := by
  obtain ⟨name, tls, hinit⟩ := daapInit_of_success rfl (congrArg (·.2.2) h)
  have hcalled := finishInit_called { ({} : Library).populate args name with tls := tls } args
  rw [← hinit, h] at hcalled
  exact hcalled

theorem calls_process (settings : Settings) (texts : List Text) :
    (w.process settings texts).calls ++ [.daapFinalize w.env w.io] =
      .daapInit (w.initArgs settings) ::
        (logCalls w.results 0 texts ++ [.daapFinalize w.env w.io]) := rfl

theorem main_of_settings {options : List Opt} (hread : readOptions options = some settings) :
    main w options = andThen (({} : Library).daapInit (w.initArgs settings)) fun l ret_val =>
      if ret_val ≠ 0 then (l, [], .returns ret_val)
      else
        andThen (parseResults w settings l) fun l _ =>
          andThen (l.daapFinalize w.env w.io) fun l _ => (l, [], .returns 0) := by
  rw [main, hread]

theorem main_zero_iff {options : List Opt} (hread : readOptions options = some settings) :
    main w options = (l, events, .returns 0) ↔
      (({} : Library).daapInit (w.initArgs settings)).2.2 = .returns 0 ∧
        ∃ pairs texts, w.pairs settings = some pairs ∧ List.Forall₂ Prints pairs texts ∧
          run step {} ((w.process settings texts).calls ++ [.daapFinalize w.env w.io]) =
            some (l, events) := by
  rw [main_of_settings hread, andThen_eq_returns_iff]
  constructor
  · rintro ⟨l₁, front, ret_val, back, hinit, hrest, rfl⟩
    obtain rfl : ret_val = 0 := by
      by_contra hne
      rw [if_pos hne] at hrest
      cases hrest
      exact hne rfl
    rw [if_neg (not_not.mpr rfl)] at hrest
    obtain ⟨l₂, middle, ret, last, hparse, hfinish, rfl⟩ := andThen_eq_returns_iff.mp hrest
    obtain ⟨l₃, final, ret', nothing, hfinal, hret, rfl⟩ := andThen_eq_returns_iff.mp hfinish
    cases hret
    obtain ⟨pairs, texts, hpairs, htexts, hlog⟩ :=
      (parseResults_eq_iff (called_of_success hinit)).mp ⟨ret, hparse⟩
    refine ⟨by rw [hinit], pairs, texts, hpairs, htexts, ?_⟩
    rw [calls_process, run_cons_iff, List.append_nil]
    refine ⟨l₁, front, middle ++ final, step_daapInit_iff.mpr ⟨0, hinit⟩, ?_, rfl⟩
    exact run_concat_iff.mpr
      ⟨l₂, middle, final, hlog, step_daapFinalize_iff.mpr ⟨ret', hfinal⟩, rfl⟩
  · rintro ⟨hsuccess, pairs, texts, hpairs, htexts, hrun⟩
    rw [calls_process] at hrun
    obtain ⟨l₁, front, back, hfirst, hrest, rfl⟩ := run_cons_iff.mp hrun
    obtain ⟨l₂, middle, final, hlog, hlast, rfl⟩ := run_concat_iff.mp hrest
    obtain ⟨ret, hinit⟩ := step_daapInit_iff.mp hfirst
    obtain ⟨ret', hfinal⟩ := step_daapFinalize_iff.mp hlast
    rw [hinit] at hsuccess
    obtain rfl : ret = 0 := Ending.returns.inj hsuccess
    obtain ⟨result, hparse⟩ := (parseResults_eq_iff (called_of_success hinit)).mpr
      ⟨pairs, texts, hpairs, htexts, hlog⟩
    refine ⟨l₁, front, 0, middle ++ final, hinit, ?_, rfl⟩
    rw [if_neg (not_not.mpr rfl)]
    refine andThen_eq_returns_iff.mpr ⟨l₂, middle, result, final, hparse, ?_, rfl⟩
    exact andThen_eq_returns_iff.mpr
      ⟨l, final, ret', [], hfinal, rfl, (List.append_nil final).symm⟩

theorem openFiles_eq_some {results table_template key_template : Text}
    (hresults : w.fopen settings.results_file = some results)
    (htable : w.fopen settings.table_template_file = some table_template)
    (hkey : w.fopen settings.key_template_file = some key_template)
    {opened : Option Text} (h : w.openFiles settings = some opened) :
    opened = some results ∧ TableTemplateInside w.table_line table_template ∧
      KeyTemplateInside w.pcre_compile w.key_line key_template := by
  rw [Surroundings.openFiles, Surroundings.files, hresults, htable, hkey] at h
  dsimp only at h
  split at h
  · next hinside =>
      split at h
      · next hinside' => exact ⟨(Option.some.inj h).symm, hinside, hinside'⟩
      · cases h
  · cases h

/-- In a run to the end over files that could be opened every index of the parsers was in
range, and what was sent are the pairs of the loop over the results. -/
theorem inside_of_main {options : List Opt} {results table_template key_template : Text}
    (hread : readOptions options = some settings) (hmain : main w options = (l, events, .returns 0))
    (hresults : w.fopen settings.results_file = some results)
    (htable : w.fopen settings.table_template_file = some table_template)
    (hkey : w.fopen settings.key_template_file = some key_template) :
    (LineTrimming.TemplateTrims w.key_line (some key_template) ∧
      LineTrimming.TemplateTrims w.table_line (some table_template)) ∧
    TemplateBounds.ArraysInRange w.pcre_compile (some table_template) (some key_template) ∧
    Throughout (insideRound (w.parser settings)) (fun _ s piece => ∃ left,
        (stripped s piece).2 = some left ∧
          RowBounds.IndicesInside (w.parser settings) s.parser (ByteBuffers.stringIn left.1))
      (w.locals.start w.line_len) (LineTrimming.fgetsPieces results) ∧
    w.pairs settings = sentPairs (w.parser settings) w.locals
      (LineTrimming.fgetsPieces results) w.line_len := by
  obtain ⟨-, pairs, -, hpairs, -⟩ := (main_zero_iff hread).mp hmain
  obtain ⟨opened, hopen, hsent⟩ := Option.bind_eq_some_iff.mp hpairs
  obtain ⟨rfl, hinside⟩ := openFiles_eq_some hresults htable hkey hopen
  obtain ⟨htrims, hrange⟩ := (insideTemplates_iff _ _ _ _ _).mp hinside
  obtain ⟨r, hrun, rfl⟩ := Option.map_eq_some_iff.mp hsent
  refine ⟨htrims, hrange, fun past piece back hpieces before hbefore => ?_, ?_⟩
  · have hround := run_isSome_iff.mp (Option.isSome_of_mem hrun) past piece back hpieces before
      hbefore
    exact indicesInside_of_insideRound hround
  · rw [hpairs, sentPairs_of_inside hrun]
    rfl

theorem table_of_options {options : List Opt} (hnone : ∀ optarg, .d optarg ∉ options)
    {start : Settings} (h : options.foldlM Settings.option start = some settings) :
    settings.table_template_file = start.table_template_file := by
  induction options generalizing start with
  | nil =>
      obtain rfl := Option.some.inj h
      rfl
  | cons option rest ih =>
      rw [List.foldlM_cons] at h
      obtain ⟨next, hnext, hrest⟩ := Option.bind_eq_some_iff.mp h
      rw [ih (fun optarg hmem => hnone optarg (List.mem_cons_of_mem _ hmem)) hrest]
      cases option with
      | d optarg => exact absurd List.mem_cons_self (hnone optarg)
      | other => cases hnext
      | _ =>
          obtain rfl := Option.some.inj hnext
          rfl

/-- Without a table template, which `main` does not ask for, nothing is sent but the messages
of `daapInit` and `daapFinalize`, and the status is 0 all the same. -/
theorem main_without_table {options : List Opt} (hnone : ∀ optarg, .d optarg ∉ options)
    (hopen : w.fopen [] = none) (hread : readOptions options = some settings) :
    main w options = (l, events, .returns 0) ↔
      (({} : Library).daapInit (w.initArgs settings)).2.2 = .returns 0 ∧
        run step {} [.daapInit (w.initArgs settings), .daapFinalize w.env w.io] =
          some (l, events) := by
  obtain ⟨hfold, -⟩ := Option.filter_eq_some_iff.mp hread
  have htable : (w.files settings).table_template = none := by
    rw [Surroundings.files, table_of_options hnone hfold]
    exact hopen
  have hclosed : w.openFiles settings = some none := by
    rw [Surroundings.openFiles, htable]
    split
    · next h => cases h
    · rfl
  rw [main_zero_iff hread, pairs_of_openFiles hclosed]
  constructor
  · rintro ⟨hinit, pairs, texts, hpairs, htexts, hrun⟩
    obtain rfl := Option.some.inj hpairs
    obtain rfl := List.forall₂_nil_left_iff.mp htexts
    exact ⟨hinit, hrun⟩
  · rintro ⟨hinit, hrun⟩
    exact ⟨hinit, [], [], rfl, .nil, hrun⟩

/-- The message that a pair is meant to be. -/
def textOf (pair : Text × Text) : Text := pair.1 ++ '=' :: pair.2

theorem texts_of_plain {pairs : List (Text × Text)} {texts : List Text}
    (h : List.Forall₂ Prints pairs texts) (hplain : ∀ pair ∈ pairs, '%' ∉ textOf pair) :
    texts = pairs.map textOf := by
  induction h with
  | nil => rfl
  | @cons pair text pairs texts hhead _ ih =>
      obtain ⟨hfirst, hrest⟩ := List.forall_mem_cons.mp hplain
      have htext : text = textOf pair :=
        Option.some.inj (hhead.symm.trans (printf_of_not_mem hfirst []))
      rw [List.map_cons, htext, ih hrest]

theorem logged_logCalls (results : Nat → LogIo) (start_time n : Nat) (texts : List Text) :
    (∀ c ∈ logCalls results n texts, (logged start_time c).isSome = true) ∧
      ((logCalls results n texts).filterMap (logged start_time)).map (·.message) = texts := by
  induction texts generalizing n with
  | nil => exact ⟨fun c hc => absurd hc List.not_mem_nil, rfl⟩
  | cons text rest ih =>
      obtain ⟨hall, hmessages⟩ := ih (n + 1)
      refine ⟨List.forall_mem_cons.mpr ⟨rfl, hall⟩, ?_⟩
      have hfirst : logged start_time
          (.daapLogWrite text { results n with msg_len := text.length }) =
            some ⟨text, { results n with msg_len := text.length }⟩ := rfl
      rw [logCalls, List.filterMap_cons_some hfirst, List.map_cons, hmessages]

theorem events_of_run {p : Process}
    (h : run step {} (p.calls ++ [.daapFinalize p.env p.io]) = some (l, events)) :
    p.events = some events := by
  obtain ⟨l₁, front, back, hrun, hlast, rfl⟩ := run_concat_iff.mp h
  obtain ⟨ret, hperform⟩ := step_eq_iff.mp hlast
  rw [Process.events, hrun, Option.map_some, hperform]

/-- The messages of a run that sends pairs. -/
def Surroundings.messages (w : Surroundings ρ) (pairs : List (Text × Text)) : List Text :=
  (if marks w.init then [jobstartText] else []) ++ pairs.map textOf ++
    if marks w.init then [jobendText] else []

theorem messages_process (settings : Settings) (pairs : List (Text × Text)) :
    (entries (w.process settings (pairs.map textOf))).map (·.message) = w.messages pairs := by
  have hlater : ((w.process settings (pairs.map textOf)).later.filterMap
      (logged w.init.time)).map (·.message) = pairs.map textOf :=
    (logged_logCalls w.results w.init.time 0 (pairs.map textOf)).2
  have hmarks : marks (w.process settings (pairs.map textOf)).first = marks w.init := rfl
  rw [entries, List.map_append, List.map_append, hmarks, Surroundings.messages]
  by_cases h : marks w.init = true
  · rw [if_pos h, if_pos h, if_pos h, if_pos h]
    exact congrArg (fun texts => [jobstartText] ++ texts ++ [jobendText]) hlater
  · rw [if_neg h, if_neg h, if_neg h, if_neg h]
    exact congrArg (fun texts => [] ++ texts ++ []) hlater

/-- The options `-s -m k -d t -f r`. -/
def syslogOptions : List Opt := [.s, .m "k".toList, .d "t".toList, .f "r".toList]

/-- The files of `pairFiles` for a single process on syslog, in a run that strips the
newline of the only line. -/
def pairSurroundings : Surroundings Unit where
  fopen name :=
    if name = "k".toList then pairFiles.key_template
    else if name = "t".toList then pairFiles.table_template
    else pairFiles.results
  pcre_compile _ := some ()
  pcre_exec := pairExec
  key_line := zeroed.line
  table_line := zeroed.line
  locals := zeroed
  line_len := 4
  init := { syslogInit with io := { promptIo with msg_len := 15 } }
  results _ := promptIo
  env := serialEnv
  io := { promptIo with msg_len := 13 }

def pairSettings : Settings where
  transport_type := .SYSLOG
  key_template_file := "k".toList
  table_template_file := "t".toList
  results_file := "r".toList

theorem readOptions_syslogOptions : readOptions syslogOptions = some pairSettings := by
  rfl

theorem fgetsPieces_line (line : Text) (hnewline : '\n' ∉ line)
    (hlength : line.length + 1 < TableTemplates.LINE_LEN) :
    LineTrimming.fgetsPieces (line ++ ['\n']) = [line ++ ['\n']] := by
  rw [LineTrimming.fgetsPieces, fgetsFrom_line _ _ _ _ hnewline (by omega)]
  rfl

theorem keyTemplateInside_pair :
    KeyTemplateInside (fun _ => some ()) zeroed.line "(a)=([^b]*)\n".toList := by
  have hpieces : LineTrimming.fgetsPieces "(a)=([^b]*)\n".toList = ["(a)=([^b]*)\n".toList] :=
    fgetsPieces_line "(a)=([^b]*)".toList (by decide) (by decide)
  constructor
  · rw [LineTrimming.run_trimRound_isSome_iff, LineTrimming.throughout_trimsInside_iff, hpieces]
    exact List.forall_mem_singleton.mpr (.inr ⟨'(', by decide, by decide⟩)
  · intro index hindex
    rw [TemplateBounds.index_mem_iff, TemplateBounds.store_mem_iff] at hindex
    have hlines : fgetsLines TableTemplates.LINE_LEN "(a)=([^b]*)\n".toList =
        ["(a)=([^b]*)\n".toList] := by
      rw [fgetsLines]
      exact congrArg (List.map ByteBuffers.stringIn) hpieces
    rw [hlines] at hindex
    exact lt_trans hindex (by decide)

theorem openFiles_pairSurroundings :
    pairSurroundings.openFiles pairSettings = some (some "a=1\n".toList) := by
  have htable : TableTemplateInside zeroed.line [] := ⟨rfl, fun _ h => absurd h List.not_mem_nil⟩
  change (if TableTemplateInside zeroed.line [] then
    if KeyTemplateInside (fun _ => some ()) zeroed.line "(a)=([^b]*)\n".toList then
      some (some "a=1\n".toList) else none else none) = _
  rw [if_pos htable, if_pos keyTemplateInside_pair]

theorem pairs_pairSurroundings :
    pairSurroundings.pairs pairSettings = some [("a".toList, "1".toList)] := by
  have hpieces : LineTrimming.fgetsPieces "a=1\n".toList = ["a=1\n".toList] :=
    fgetsPieces_line "a=1".toList (by decide) (by decide)
  have hparser : pairSurroundings.parser pairSettings = ⟨[], [()], pairExec⟩ := parser_pairFiles
  rw [pairs_of_openFiles openFiles_pairSurroundings, Surroundings.pairsOf, hparser, hpieces]
  decide +kernel

theorem main_pairSurroundings :
    ∃ l events, main pairSurroundings syslogOptions = (l, events, .returns 0) := by
  have hevaluated : (run step {} ((pairSurroundings.process pairSettings ["a=1".toList]).calls ++
      [.daapFinalize serialEnv { promptIo with msg_len := 13 }])).isSome = true := by
    decide +kernel
  obtain ⟨⟨l, events⟩, hrun⟩ := Option.isSome_iff_exists.mp hevaluated
  have hinit : (({} : Library).daapInit (pairSurroundings.initArgs pairSettings)).2.2 =
      .returns 0 := by decide +kernel
  have hprints : Prints ("a".toList, "1".toList) "a=1".toList := by
    rw [Prints]
    decide
  exact ⟨l, events, (main_zero_iff readOptions_syslogOptions).mpr
    ⟨hinit, _, _, pairs_pairSurroundings, .cons hprints .nil, hrun⟩⟩

end Runs

end DaapLog.StdoutParser
