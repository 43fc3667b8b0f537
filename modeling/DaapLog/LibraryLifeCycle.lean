import DaapLog.LibraryCalls

/-!
The strings of `init_data` over a sequence of calls, against what initialising and
finalising are for: between the two the library holds the strings of its `daapInit`.
-/

namespace DaapLog.LibraryLifeCycle

open DaapLog.CStrings
open DaapLog.BuildInflux (daap_init_t DAAP_ERROR)
open DaapLog.LibraryCalls
open DaapLog.Runs
open DaapLog.TlsTransport (Tls)
open DaapLog.TracedCalls

/-- The texts that a `daapInit` stores and every line is formatted from. -/
structure Names where
  appname : Text
  hostname : Text
  cluster_name : Text
  deriving DecidableEq, Repr

def namesOf (init_data : daap_init_t) : Names :=
  ⟨init_data.appname, init_data.hostname, init_data.cluster_name⟩

/-- The purpose of the calls: uninitialised, or initialised with some names. -/
def specStep (spec : Option Names) : Call → Option Names
  | .daapInit args =>
      match spec, args.hostname with
      | none, .ok name => some ⟨args.app_name, name, args.cluster_name⟩
      | spec, _ => spec
  | .daapFinalize _ _ => none
  | _ => spec

def specAfter (calls : List Call) : Option Names := calls.foldl specStep none

/-- The calls that write a line for the caller. -/
def Call.Logs : Call → Prop
  | .daapInit _ => False
  | .daapFinalize _ _ => False
  | .daapSetRank _ => False
  | _ => True

def Holds (l : Library) (names : Names) : Prop :=
  l.appname = .live names.appname ∧ l.hostname = .live names.hostname ∧
    l.cluster_name = .live names.cluster_name

def Agrees (l : Library) (spec : Option Names) : Prop :=
  l.daapInit_called = spec.isSome ∧ ∀ names, spec = some names → Holds l names

/-- What is expected of a call: no string is released twice, every line is formatted
from the strings of the `daapInit` that is not finalised (or of the call itself), an
uninitialised library writes nothing, and the call leaves what it is for. -/
structure StepOk (spec : Option Names) (l : Library) (c : Call) : Prop where
  releases : Event.release .released ∉ (c.perform l).2.1
  lines : ∀ origin init_data tstamp full_message,
    .influx origin init_data tstamp full_message ∈ (c.perform l).2.1 →
      (specStep spec c).or spec = some (namesOf init_data)
  uninitialised : spec = none → Call.Logs c → c.perform l = (l, [], .returns (some DAAP_ERROR))
  agrees : ∀ ret, (c.perform l).2.2 = .returns ret → Agrees (c.perform l).1 (specStep spec c)

/-- A `daapFinalize` that gets to the strings while the library is initialised, or while
the application name is released already. -/
def Spoils (l : Library) : Call → Prop
  | .daapFinalize env io =>
      (∃ ret, (l.closeTransport env io).2.2 = .returns ret) ∧
        (l.daapInit_called = true ∨ l.appname = .released)
  | _ => False

def Inv (spec : Option Names) (l : Library) : Prop :=
  Agrees l spec ∧ (spec = none → l.hostname = .unset ∧ l.cluster_name = .unset)

section Strings

variable {l l' : Library} {spec : Option Names} {names : Names}

def SameStrings (l l' : Library) : Prop :=
  l'.daapInit_called = l.daapInit_called ∧ l'.appname = l.appname ∧
    l'.hostname = l.hostname ∧ l'.cluster_name = l.cluster_name

theorem sameStrings_of_tls {tls : Tls} (h : l' = { l with tls := tls }) : SameStrings l l' := by
  subst h
  exact ⟨rfl, rfl, rfl, rfl⟩

theorem sameStrings_readRank (l : Library) (env : Environment) :
    SameStrings l (l.readRank env) := by
  obtain ⟨zero, rank, hrank⟩ := readRank_frame l env
  rw [hrank]
  exact ⟨rfl, rfl, rfl, rfl⟩

theorem agrees_sameStrings (h : SameStrings l l') (hagrees : Agrees l spec) : Agrees l' spec := by
  obtain ⟨hcalled, happ, hhost, hcluster⟩ := h
  refine ⟨hcalled.trans hagrees.1, fun names hnames => ?_⟩
  rw [Holds, happ, hhost, hcluster]
  exact hagrees.2 names hnames

theorem inv_sameStrings (h : SameStrings l l') (hinv : Inv spec l) : Inv spec l' := by
  refine ⟨agrees_sameStrings h hinv.1, fun hspec => ?_⟩
  rw [h.2.2.1, h.2.2.2]
  exact hinv.2 hspec

theorem agrees_some (hcalled : l.daapInit_called = true) (hholds : Holds l names) :
    Agrees l (some names) := by
  refine ⟨hcalled, fun names' hnames => ?_⟩
  rw [← Option.some.inj hnames]
  exact hholds

theorem init_data_isSome_iff :
    l.init_data.isSome = true ↔ ∃ names, Holds l names := by
  rw [Library.init_data]
  constructor
  · intro h
    split at h
    · next appname hostname cluster_name happ hhost hcluster =>
        exact ⟨⟨appname, hostname, cluster_name⟩, happ, hhost, hcluster⟩
    · exact absurd h nofun
  · rintro ⟨names, happ, hhost, hcluster⟩
    rw [happ, hhost, hcluster]
    rfl

theorem holds_populate (l : Library) (args : InitArgs) (name : Text) (tls : Tls) :
    Holds { l.populate args name with tls := tls } ⟨args.app_name, name, args.cluster_name⟩ :=
  ⟨rfl, rfl, rfl⟩

theorem namesOf_init_data {init_data : daap_init_t} (h : l.init_data = some init_data)
    (hholds : Holds l names) : names = namesOf init_data := by
  obtain ⟨happ, hhost, hcluster⟩ := hholds
  rw [Library.init_data, happ, hhost, hcluster] at h
  rw [← Option.some.inj h]
  rfl

end Strings

section Lines

variable {l : Library} {spec : Option Names} {names : Names}

/-- The events of a call that frees nothing and formats from what the state holds. -/
def LinesFrom (spec : Option Names) (events : List Event) : Prop :=
  Event.release .released ∉ events ∧
    ∀ origin init_data tstamp full_message,
      .influx origin init_data tstamp full_message ∈ events → spec = some (namesOf init_data)

@[simp]
theorem linesFrom_nil (spec : Option Names) : LinesFrom spec [] := by
  refine ⟨List.not_mem_nil, ?_⟩
  intro origin init_data tstamp full_message h
  exact absurd h List.not_mem_nil

theorem linesFrom_tls (spec : Option Names) (events : List TlsTransport.TlsEvent) :
    LinesFrom spec (events.map .tls) := by
  refine ⟨by simp, ?_⟩
  intro origin init_data tstamp full_message h
  simp at h

theorem linesFrom_append {front back : List Event} (hfront : LinesFrom spec front)
    (hback : LinesFrom spec back) : LinesFrom spec (front ++ back) := by
  refine ⟨fun h => (List.mem_append.mp h).elim hfront.1 hback.1, ?_⟩
  intro origin init_data tstamp full_message h
  exact (List.mem_append.mp h).elim (hfront.2 _ _ _ _) (hback.2 _ _ _ _)

theorem linesFrom_cons {event : Event} {events : List Event}
    (hevent : event ≠ .release .released)
    (hline : ∀ origin init_data tstamp full_message,
      event = .influx origin init_data tstamp full_message → spec = some (namesOf init_data))
    (hevents : LinesFrom spec events) : LinesFrom spec (event :: events) := by
  refine ⟨fun h => (List.mem_cons.mp h).elim (fun h => hevent h.symm) hevents.1, ?_⟩
  intro origin init_data tstamp full_message h
  exact (List.mem_cons.mp h).elim (fun h => hline _ _ _ _ h.symm) (hevents.2 _ _ _ _)

theorem linesFrom_transmit (spec : Option Names) (l : Library) (influx_str : Text)
    (io : TlsTransport.WriteIo) : LinesFrom spec (l.transmit influx_str io).2.1 := by
  rw [Library.transmit]
  split
  · exact linesFrom_nil spec
  · refine ⟨by simp, ?_⟩
    intro origin init_data tstamp full_message h
    simp at h
  · exact linesFrom_tls spec _

theorem linesFrom_daapLogWrite (hagrees : Agrees l spec) (origin : Origin) (formatted : Text)
    (io : LogIo) : LinesFrom spec (l.daapLogWrite origin formatted io).2.1 := by
  rw [Library.daapLogWrite]
  split
  · exact linesFrom_nil spec
  next hcalled =>
  split
  · exact linesFrom_nil spec
  next init_data hdata =>
  have hsome : spec.isSome = true := by
    rw [← hagrees.1]
    simpa using hcalled
  obtain ⟨names, hnames⟩ := Option.isSome_iff_exists.mp hsome
  have hline : spec = some (namesOf init_data) := by
    rw [hnames, namesOf_init_data hdata (hagrees.2 names hnames)]
  refine linesFrom_cons (by simp) ?_ (linesFrom_transmit spec l _ _)
  intro origin' init_data' tstamp full_message h
  obtain ⟨-, rfl, -, -⟩ := Event.influx.inj h
  exact hline

theorem linesFrom_daapLogRawWrite (spec : Option Names) (l : Library) (formatted : Text)
    (io : LogIo) : LinesFrom spec (l.daapLogRawWrite formatted io).2.1 := by
  rw [Library.daapLogRawWrite]
  split
  · exact linesFrom_nil spec
  · refine linesFrom_cons (by simp) ?_ (linesFrom_transmit spec l _ _)
    intro origin init_data tstamp full_message h
    simp at h

end Lines

section Initialising

variable {l : Library} {names : Names}

theorem finishInit_linesFrom (hholds : Holds l names) (args : InitArgs) :
    LinesFrom (some names) (l.finishInit args).2.1 ∧
      Agrees (l.finishInit args).1 (some names) := by
  have hcalled : Agrees { l with daapInit_called := true } (some names) :=
    agrees_some rfl hholds
  have hrank := agrees_sameStrings (sameStrings_readRank _ args.env) hcalled
  rw [Library.finishInit]
  split
  · refine ⟨linesFrom_daapLogWrite hrank .jobStart jobstartText args.io, ?_⟩
    obtain ⟨tls, htls⟩ := daapLogWrite_frame
      ({ l with daapInit_called := true }.readRank args.env) .jobStart jobstartText args.io
    exact agrees_sameStrings (sameStrings_of_tls htls) hrank
  · exact ⟨linesFrom_nil _, hrank⟩

theorem initTransport_linesFrom (hholds : Holds l names) (args : InitArgs) :
    LinesFrom (some names) (l.initTransport args).2.1 ∧
      ∀ ret, (l.initTransport args).2.2 = .returns ret →
        Agrees (l.initTransport args).1 (some names) := by
  rw [Library.initTransport]
  split
  · split
    · next tls value hsetup =>
        have hfinish := finishInit_linesFrom (l := { l with tls := tls }) hholds args
        exact ⟨hfinish.1, fun _ _ => hfinish.2⟩
    · refine ⟨linesFrom_nil _, fun _ h => ?_⟩
      cases h
  · have hfinish := finishInit_linesFrom hholds args
    exact ⟨hfinish.1, fun _ _ => hfinish.2⟩

end Initialising

section Finalising

variable {l : Library} {spec : Option Names}

theorem closeTransport_linesFrom (hagrees : Agrees l spec) (env : Environment) (io : LogIo) :
    LinesFrom spec (l.closeTransport env io).2.1 := by
  have hmessage : LinesFrom spec (l.finalMessage env io).2.1 := by
    rw [Library.finalMessage]
    split
    · exact linesFrom_daapLogWrite hagrees .jobEnd jobendText io
    · exact linesFrom_nil spec
  rw [Library.closeTransport, andThen]
  split
  · exact linesFrom_append hmessage (linesFrom_tls spec _)
  · exact hmessage
  · exact hmessage
  · exact hmessage

theorem daapFinalize_of_not_closed {env : Environment} {io : LogIo}
    (h : ∀ ret, (l.closeTransport env io).2.2 ≠ .returns ret) :
    l.daapFinalize env io = l.closeTransport env io := by
  rw [Library.daapFinalize, andThen]
  generalize hclose : l.closeTransport env io = r at h
  obtain ⟨state, events, ending⟩ := r
  cases ending with
  | returns ret => exact absurd rfl (h ret)
  | exits status => rfl
  | undefined => rfl
  | running => rfl

theorem daapFinalize_of_closed {env : Environment} {io : LogIo} {ret : Option Int}
    (h : (l.closeTransport env io).2.2 = .returns ret) :
    l.daapFinalize env io =
      ((l.closeTransport env io).1.freeStrings.1,
        (l.closeTransport env io).2.1 ++ (l.closeTransport env io).1.freeStrings.2.1,
        (l.closeTransport env io).1.freeStrings.2.2.map fun _ => ret) := by
  rw [Library.daapFinalize, andThen_of_returns h]

theorem closeTransport_sameStrings (l : Library) (env : Environment) (io : LogIo) :
    SameStrings l (l.closeTransport env io).1 := by
  obtain ⟨tls, htls⟩ := closeTransport_frame l env io
  exact sameStrings_of_tls htls

theorem freeStrings_of_holds {names : Names} (h : Holds l names) :
    l.freeStrings.2.2 = .returns () := by
  obtain ⟨happ, hhost, hcluster⟩ := h
  have hlive : Str.released ∉
      [.live names.hostname, .live names.appname, .live names.cluster_name] := by simp
  rw [Library.freeStrings, happ, hhost, hcluster]
  simp only [if_neg hlive]

theorem freeStrings_of_unset (h : l.hostname = .unset ∧ l.cluster_name = .unset)
    (happ : l.appname ≠ .released) :
    Event.release .released ∉ l.freeStrings.2.1 ∧
      l.freeStrings.1.hostname = .unset ∧ l.freeStrings.1.cluster_name = .unset := by
  rw [Library.freeStrings, h.1, h.2]
  refine ⟨?_, rfl, rfl⟩
  simpa using happ.symm

theorem not_stepOk_of_spoils (hinv : Inv spec l) {env : Environment} {io : LogIo}
    (h : Spoils l (.daapFinalize env io)) : ¬StepOk spec l (.daapFinalize env io) := by
  intro hok
  obtain ⟨⟨ret, hret⟩, hstate⟩ := h
  have hsame := closeTransport_sameStrings l env io
  have hfinalize := daapFinalize_of_closed hret
  rcases hstate with hcalled | hreleased
  · have hsome : spec.isSome = true := hinv.1.1.symm.trans hcalled
    obtain ⟨names, rfl⟩ := Option.isSome_iff_exists.mp hsome
    have hfree := freeStrings_of_holds ((agrees_sameStrings hsame hinv.1).2 names rfl)
    have hreturns : (l.daapFinalize env io).2.2 = .returns ret := by
      rw [hfinalize, hfree]
      rfl
    have hagrees := (hok.agrees ret hreturns).1
    rw [Call.perform, hfinalize] at hagrees
    have hflag : (l.closeTransport env io).1.daapInit_called = false := hagrees
    rw [hsame.1, hcalled] at hflag
    exact Bool.noConfusion hflag
  · refine hok.releases ?_
    rw [Call.perform, hfinalize, Library.freeStrings, hsame.2.1, hreleased]
    simp

theorem daapFinalize_closed_ok (hinv : Inv spec l) {env : Environment} {io : LogIo}
    {ret : Option Int} (hret : (l.closeTransport env io).2.2 = .returns ret)
    (h : ¬Spoils l (.daapFinalize env io)) :
    LinesFrom spec (l.daapFinalize env io).2.1 ∧ Inv none (l.daapFinalize env io).1 := by
  have hsame := closeTransport_sameStrings l env io
  have hcalled : l.daapInit_called = false :=
    Bool.eq_false_iff.mpr fun hcalled => h ⟨⟨ret, hret⟩, .inl hcalled⟩
  have happ : (l.closeTransport env io).1.appname ≠ .released := by
    rw [hsame.2.1]
    exact fun happ => h ⟨⟨ret, hret⟩, .inr happ⟩
  have hspec : spec = none := by
    rw [hinv.1.1] at hcalled
    exact Option.isNone_iff_eq_none.mp (by simpa using hcalled)
  have hunset := (inv_sameStrings hsame hinv).2 hspec
  obtain ⟨hreleases, hhost, hcluster⟩ := freeStrings_of_unset hunset happ
  rw [daapFinalize_of_closed hret]
  refine ⟨linesFrom_append (closeTransport_linesFrom hinv.1 env io) ⟨hreleases, ?_⟩,
    ⟨hsame.1.trans hcalled, nofun⟩, fun _ => ⟨hhost, hcluster⟩⟩
  intro origin init_data tstamp full_message h
  simp [Library.freeStrings] at h

theorem daapFinalize_stepOk (hinv : Inv spec l) {env : Environment} {io : LogIo}
    (h : ¬Spoils l (.daapFinalize env io)) : StepOk spec l (.daapFinalize env io) := by
  have hlines : LinesFrom spec (l.daapFinalize env io).2.1 := by
    by_cases hclosed : ∃ ret, (l.closeTransport env io).2.2 = .returns ret
    · obtain ⟨ret, hret⟩ := hclosed
      exact (daapFinalize_closed_ok hinv hret h).1
    · rw [daapFinalize_of_not_closed fun ret h => hclosed ⟨ret, h⟩]
      exact closeTransport_linesFrom hinv.1 env io
  refine ⟨hlines.1, fun origin init_data tstamp full_message h => ?_, fun _ h => absurd h id, ?_⟩
  · rw [hlines.2 _ _ _ _ h]
    rfl
  · intro ret hret
    obtain ⟨ret', hret', -⟩ := andThen_returns_iff.mp hret
    exact (daapFinalize_closed_ok hinv hret' h).2.1

end Finalising

section Calls

variable {l : Library} {spec : Option Names}

theorem spec_eq_none (hinv : Inv spec l) (hcalled : l.daapInit_called = false) : spec = none := by
  rw [hinv.1.1] at hcalled
  exact Option.isNone_iff_eq_none.mp (by simpa using hcalled)

/-- A call that leaves the strings alone and is no part of the life cycle. -/
theorem stepOk_of_log {c : Call} (hinv : Inv spec l) (hspec : specStep spec c = spec)
    (hlines : LinesFrom spec (c.perform l).2.1) (hsame : SameStrings l (c.perform l).1)
    (huninit : l.daapInit_called = false → Call.Logs c →
      c.perform l = (l, [], .returns (some DAAP_ERROR))) : StepOk spec l c := by
  refine ⟨hlines.1, ?_, ?_, ?_⟩
  · intro origin init_data tstamp full_message h
    rw [hspec, hlines.2 _ _ _ _ h]
    rfl
  · intro hnone
    refine huninit ?_
    rw [hinv.1.1, hnone]
    rfl
  · intro _ _
    rw [hspec]
    exact agrees_sameStrings hsame hinv.1

theorem daapLogWrite_of_uninitialised (h : l.daapInit_called = false) (origin : Origin)
    (formatted : Text) (io : LogIo) :
    l.daapLogWrite origin formatted io = (l, [], .returns DAAP_ERROR) := by
  rw [Library.daapLogWrite, h]
  rfl

theorem daapLogRawWrite_of_uninitialised (h : l.daapInit_called = false) (formatted : Text)
    (io : LogIo) : l.daapLogRawWrite formatted io = (l, [], .returns DAAP_ERROR) := by
  rw [Library.daapLogRawWrite, h]
  rfl

theorem log_sameStrings (l : Library) (formatted : Text) (io : LogIo) :
    SameStrings l (Call.perform.log l formatted io).1 := by
  obtain ⟨tls, htls⟩ := daapLogWrite_frame l .caller formatted io
  exact sameStrings_of_tls htls

theorem daapLogRawWrite_sameStrings (l : Library) (formatted : Text) (io : LogIo) :
    SameStrings l (l.daapLogRawWrite formatted io).1 := by
  obtain ⟨tls, htls⟩ := daapLogRawWrite_frame l formatted io
  exact sameStrings_of_tls htls

theorem stepOk_of_daapLogWrite {c : Call} {formatted : Text} {io : LogIo} (hinv : Inv spec l)
    (hspec : specStep spec c = spec) (hperform : c.perform l = Call.perform.log l formatted io) :
    StepOk spec l c := by
  refine stepOk_of_log hinv hspec ?_ ?_ ?_
  · rw [hperform]
    exact linesFrom_daapLogWrite hinv.1 .caller formatted io
  · rw [hperform]
    exact log_sameStrings l formatted io
  · intro hcalled _
    rw [hperform, Call.perform.log, daapLogWrite_of_uninitialised hcalled]
    rfl

theorem stepOk_of_daapInit_again (hinv : Inv spec l) (hcalled : l.daapInit_called = true)
    (args : InitArgs) : StepOk spec l (.daapInit args) := by
  have hsome : spec.isSome = true := hinv.1.1.symm.trans hcalled
  obtain ⟨names, rfl⟩ := Option.isSome_iff_exists.mp hsome
  have hperform : (Call.daapInit args).perform l =
      (l, [], .returns (some BuildInflux.DAAP_SUCCESS)) := by
    rw [Call.perform, daapInit_of_called hcalled]
    rfl
  refine stepOk_of_log hinv rfl ?_ ?_ fun _ h => absurd h id
  · rw [hperform]
    exact linesFrom_nil _
  · rw [hperform]
    exact ⟨rfl, rfl, rfl, rfl⟩

theorem stepOk_of_hostname_error {args : InitArgs} {error : HostnameError}
    (hcalled : l.daapInit_called = false) (hname : args.hostname = .error error) :
    StepOk none l (.daapInit args) := by
  have hperform : (Call.daapInit args).perform l =
      (l.startInit args, [], .returns (some error.code)) := by
    rw [Call.perform, daapInit_of_error hcalled hname]
    rfl
  have hspec : specStep none (.daapInit args) = none := by
    simp only [specStep, hname]
  refine ⟨?_, ?_, fun _ h => absurd h id, ?_⟩
  · rw [hperform]
    exact List.not_mem_nil
  · intro origin init_data tstamp full_message h
    rw [hperform] at h
    exact absurd h List.not_mem_nil
  · intro _ _
    rw [hperform, hspec]
    refine ⟨hcalled, ?_⟩
    intro names hnames
    exact absurd hnames.symm (Option.some_ne_none names)

theorem stepOk_of_hostname {args : InitArgs} {name : Text} (hcalled : l.daapInit_called = false)
    (hname : args.hostname = .ok name) : StepOk none l (.daapInit args) := by
  have hspec : specStep none (.daapInit args) =
      some ⟨args.app_name, name, args.cluster_name⟩ := by
    simp only [specStep, hname]
  have hholds : Holds (l.populate args name)
      ⟨args.app_name, name, args.cluster_name⟩ := holds_populate l args name l.tls
  obtain ⟨hlines, hagrees⟩ := initTransport_linesFrom hholds args
  rw [← daapInit_of_ok hcalled hname] at hlines hagrees
  refine ⟨hlines.1, ?_, fun _ h => absurd h id, ?_⟩
  · intro origin init_data tstamp full_message h
    rw [hspec, ← hlines.2 _ _ _ _ h]
    rfl
  · intro ret hret
    obtain ⟨ret', hret', -⟩ := Ending.map_eq_returns_iff.mp hret
    rw [hspec]
    exact hagrees ret' hret'

theorem stepOk_of_daapInit (hinv : Inv spec l) (args : InitArgs) :
    StepOk spec l (.daapInit args) := by
  cases hcalled : l.daapInit_called with
  | true => exact stepOk_of_daapInit_again hinv hcalled args
  | false =>
      obtain rfl := spec_eq_none hinv hcalled
      cases hname : args.hostname with
      | error error => exact stepOk_of_hostname_error hcalled hname
      | ok name => exact stepOk_of_hostname hcalled hname

theorem stepOk_iff (hinv : Inv spec l) (c : Call) : StepOk spec l c ↔ ¬Spoils l c := by
  cases c with
  | daapInit args => exact iff_of_true (stepOk_of_daapInit hinv args) id
  | daapFinalize env io =>
      exact ⟨fun hok h => not_stepOk_of_spoils hinv h hok, daapFinalize_stepOk hinv⟩
  | daapSetRank rank =>
      refine iff_of_true (stepOk_of_log hinv rfl (linesFrom_nil spec) ⟨rfl, rfl, rfl, rfl⟩ ?_) id
      intro _ h
      exact absurd h id
  | daapLogRawWrite formatted io =>
      refine iff_of_true (stepOk_of_log hinv rfl (linesFrom_daapLogRawWrite spec l formatted io)
        (daapLogRawWrite_sameStrings l formatted io) ?_) id
      intro hcalled _
      rw [Call.perform, daapLogRawWrite_of_uninitialised hcalled]
      rfl
  | daapLogWrite formatted io => exact iff_of_true (stepOk_of_daapLogWrite hinv rfl rfl) id
  | daapLogHeartbeat io => exact iff_of_true (stepOk_of_daapLogWrite hinv rfl rfl) id
  | daapLogJobStart io => exact iff_of_true (stepOk_of_daapLogWrite hinv rfl rfl) id
  | daapLogJobDuration cur_time io => exact iff_of_true (stepOk_of_daapLogWrite hinv rfl rfl) id
  | daapLogJobEnd io => exact iff_of_true (stepOk_of_daapLogWrite hinv rfl rfl) id

theorem unset_of_perform (hinv : Inv spec l) {c : Call} (hspoils : ¬Spoils l c)
    (hreturns : ∃ ret, (c.perform l).2.2 = .returns ret) (hspec : specStep spec c = none) :
    (c.perform l).1.hostname = .unset ∧ (c.perform l).1.cluster_name = .unset := by
  cases c with
  | daapInit args =>
      cases spec with
      | some names => exact absurd hspec nofun
      | none =>
          cases hname : args.hostname with
          | error error =>
              rw [Call.perform, daapInit_of_error hinv.1.1 hname]
              exact hinv.2 rfl
          | ok name =>
              simp only [specStep, hname] at hspec
              exact absurd hspec nofun
  | daapFinalize env io =>
      obtain ⟨ret, hret⟩ := hreturns
      obtain ⟨ret', hclose, -⟩ := andThen_returns_iff.mp hret
      exact (daapFinalize_closed_ok hinv hclose hspoils).2.2 rfl
  | daapSetRank rank => exact hinv.2 hspec
  | daapLogRawWrite formatted io =>
      exact (inv_sameStrings (daapLogRawWrite_sameStrings l formatted io) hinv).2 hspec
  | daapLogWrite formatted io =>
      exact (inv_sameStrings (log_sameStrings l formatted io) hinv).2 hspec
  | daapLogHeartbeat io =>
      exact (inv_sameStrings (log_sameStrings l heartbeatText io) hinv).2 hspec
  | daapLogJobStart io =>
      exact (inv_sameStrings (log_sameStrings l jobstartText io) hinv).2 hspec
  | daapLogJobDuration cur_time io =>
      exact (inv_sameStrings (log_sameStrings l (l.jobdurationText cur_time) io) hinv).2 hspec
  | daapLogJobEnd io =>
      exact (inv_sameStrings (log_sameStrings l jobendText io) hinv).2 hspec

theorem inv_step (hinv : Inv spec l) {c : Call} (hspoils : ¬Spoils l c)
    {r : Library × List Event} (h : step l c = some r) : Inv (specStep spec c) r.1 := by
  obtain ⟨⟨ret, hret⟩, rfl⟩ := step_eq_some_iff.mp h
  exact ⟨((stepOk_iff hinv c).mpr hspoils).agrees ret hret,
    unset_of_perform hinv hspoils ⟨ret, hret⟩⟩

end Calls

/-- Over every sequence of calls: each does what it is for exactly if no `daapFinalize`
frees the strings of an initialised library or frees the application name again. -/
theorem stepOk_throughout_iff (calls : List Call) :
    Throughout step (fun past l c => StepOk (specAfter past) l c) {} calls ↔
      Throughout step (fun _ l c => ¬Spoils l c) {} calls := by
  refine throughout_iff (I := fun past l => Inv (specAfter past) l)
    ⟨⟨rfl, nofun⟩, fun _ => ⟨rfl, rfl⟩⟩ ?_ ?_
  · intro past l c hinv
    exact stepOk_iff hinv c
  · intro past l c r hinv hspoils h
    rw [specAfter, List.foldl_append, List.foldl_cons, List.foldl_nil]
    exact inv_step hinv hspoils h

/-- After one `daapInit` and one `daapFinalize` the library still counts as initialised. -/
theorem stepOk_fails_on_finalize :
    ¬Throughout step (fun past l c => StepOk (specAfter past) l c) {}
      [.daapInit syslogInit, .daapFinalize serialEnv promptIo] := by
  intro h
  have hok := h [.daapInit syslogInit] (.daapFinalize serialEnv promptIo) [] rfl _ rfl
  exact Bool.noConfusion (hok.agrees (some 0) rfl).1

end DaapLog.LibraryLifeCycle
