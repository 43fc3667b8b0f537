import DaapLog.SoloCalls

/-!
Log calls of any number of threads. Over TLS `write_mutex` makes every mixture of their
steps a sequence of the whole calls; the other transports take a line with one step.
-/

namespace DaapLog.ConcurrentWrites

open DaapLog.BuildInflux (DAAP_SUCCESS Transport)
open DaapLog.CriticalSections
open DaapLog.LibraryCalls
open DaapLog.LibraryThreads
open DaapLog.Runs
open DaapLog.SoloCalls
open DaapLog.Threads
open DaapLog.TracedCalls

/-- The calls that write a line for their caller. -/
def Call.logs : Call → Bool
  | .daapInit _ => false
  | .daapFinalize _ _ => false
  | .daapSetRank _ => false
  | _ => true

/-- What log calls only read. -/
def globals (l : Library) : Library := { l with tls := {} }

def Message.zone (m : Message) (z : Zone) : Zone :=
  match m.origin with
  | .caller => z
  | _ => .elsewhere

/-- The points of a log call in front of, under and behind `write_mutex`. -/
def zone : Point → Zone
  | .call c => if Call.logs c then .before else .elsewhere
  | .log m => Message.zone m .before
  | .warn m => Message.zone m .before
  | .build m => Message.zone m .before
  | .transmit m _ _ => Message.zone m .before
  | .socket m _ _ => Message.zone m .inside
  | .connect m _ => Message.zone m .inside
  | .SSL_new m _ => Message.zone m .inside
  | .SSL_connect m _ => Message.zone m .inside
  | .SSL_write m _ _ => Message.zone m .inside
  | .exit m => Message.zone m .inside
  | .close m => Message.zone m .inside
  | .unlockWrite m => Message.zone m .inside
  | .SSL_CTX_free (.connect m) => Message.zone m .inside
  | .SSL_free (.connect m) => Message.zone m .inside
  | .done _ => .behind
  | _ => .elsewhere

inductive Front : Point → Prop
  | call {c : Call} (h : Call.logs c = true) : Front (.call c)
  | log {m : Message} (h : m.origin = .caller) : Front (.log m)
  | warn {m : Message} (h : m.origin = .caller) : Front (.warn m)
  | build {m : Message} (h : m.origin = .caller) : Front (.build m)
  | transmit {m : Message} {line : Event} {influx_str : CStrings.Text} (h : m.origin = .caller) :
      Front (.transmit m line influx_str)

inductive Locked : Point → Prop
  | socket {m : Message} {line : Event} {buf_size : Nat} (h : m.origin = .caller) :
      Locked (.socket m line buf_size)
  | connect {m : Message} {buf_size : Nat} (h : m.origin = .caller) : Locked (.connect m buf_size)
  | SSL_new {m : Message} {buf_size : Nat} (h : m.origin = .caller) : Locked (.SSL_new m buf_size)
  | SSL_connect {m : Message} {buf_size : Nat} (h : m.origin = .caller) :
      Locked (.SSL_connect m buf_size)
  | SSL_write {m : Message} {buf_size : Nat} {loop : TcpLogWrite.WriteLoop}
      (h : m.origin = .caller) : Locked (.SSL_write m buf_size loop)
  | exit {m : Message} (h : m.origin = .caller) : Locked (.exit m)
  | close {m : Message} (h : m.origin = .caller) : Locked (.close m)
  | unlockWrite {m : Message} (h : m.origin = .caller) : Locked (.unlockWrite m)
  | SSL_CTX_free {m : Message} (h : m.origin = .caller) : Locked (.SSL_CTX_free (.connect m))
  | SSL_free {m : Message} (h : m.origin = .caller) : Locked (.SSL_free (.connect m))

theorem zone_of_caller {m : Message} (h : m.origin = .caller) (z : Zone) :
    Message.zone m z = z := by
  rw [Message.zone, h]

theorem caller_of_zone {m : Message} {z z' : Zone} (h : Message.zone m z = z')
    (hz : z' ≠ .elsewhere) : m.origin = .caller ∧ z = z' := by
  rw [Message.zone] at h
  split at h
  · next hcaller => exact ⟨hcaller, h⟩
  · exact absurd h.symm hz

theorem front_or_locked (point : Point) (h : zone point ≠ .elsewhere) :
    zone point = .before ∧ Front point ∨ zone point = .inside ∧ Locked point ∨
      ∃ ret_val, point = .done ret_val := by
  cases point with
  | call c =>
      rw [zone] at h ⊢
      split
      · next hlogs => exact .inl ⟨rfl, .call hlogs⟩
      · next hlogs => exact absurd (if_neg hlogs) h
  | log m =>
      obtain ⟨hcaller, -⟩ := caller_of_zone rfl h
      exact .inl ⟨zone_of_caller hcaller _, .log hcaller⟩
  | warn m =>
      obtain ⟨hcaller, -⟩ := caller_of_zone rfl h
      exact .inl ⟨zone_of_caller hcaller _, .warn hcaller⟩
  | build m =>
      obtain ⟨hcaller, -⟩ := caller_of_zone rfl h
      exact .inl ⟨zone_of_caller hcaller _, .build hcaller⟩
  | transmit m line influx_str =>
      obtain ⟨hcaller, -⟩ := caller_of_zone rfl h
      exact .inl ⟨zone_of_caller hcaller _, .transmit hcaller⟩
  | socket m line buf_size =>
      obtain ⟨hcaller, -⟩ := caller_of_zone rfl h
      exact .inr (.inl ⟨zone_of_caller hcaller _, .socket hcaller⟩)
  | connect m buf_size =>
      obtain ⟨hcaller, -⟩ := caller_of_zone rfl h
      exact .inr (.inl ⟨zone_of_caller hcaller _, .connect hcaller⟩)
  | SSL_new m buf_size =>
      obtain ⟨hcaller, -⟩ := caller_of_zone rfl h
      exact .inr (.inl ⟨zone_of_caller hcaller _, .SSL_new hcaller⟩)
  | SSL_connect m buf_size =>
      obtain ⟨hcaller, -⟩ := caller_of_zone rfl h
      exact .inr (.inl ⟨zone_of_caller hcaller _, .SSL_connect hcaller⟩)
  | SSL_write m buf_size loop =>
      obtain ⟨hcaller, -⟩ := caller_of_zone rfl h
      exact .inr (.inl ⟨zone_of_caller hcaller _, .SSL_write hcaller⟩)
  | exit m =>
      obtain ⟨hcaller, -⟩ := caller_of_zone rfl h
      exact .inr (.inl ⟨zone_of_caller hcaller _, .exit hcaller⟩)
  | close m =>
      obtain ⟨hcaller, -⟩ := caller_of_zone rfl h
      exact .inr (.inl ⟨zone_of_caller hcaller _, .close hcaller⟩)
  | unlockWrite m =>
      obtain ⟨hcaller, -⟩ := caller_of_zone rfl h
      exact .inr (.inl ⟨zone_of_caller hcaller _, .unlockWrite hcaller⟩)
  | SSL_CTX_free at_ =>
      cases at_ with
      | connect m =>
          obtain ⟨hcaller, -⟩ := caller_of_zone rfl h
          exact .inr (.inl ⟨zone_of_caller hcaller _, .SSL_CTX_free hcaller⟩)
      | finalize ret_val => exact absurd rfl h
  | SSL_free at_ =>
      cases at_ with
      | connect m =>
          obtain ⟨hcaller, -⟩ := caller_of_zone rfl h
          exact .inr (.inl ⟨zone_of_caller hcaller _, .SSL_free hcaller⟩)
      | finalize ret_val => exact absurd rfl h
  | done ret_val => exact .inr (.inr ⟨ret_val, rfl⟩)
  | _ => exact absurd rfl h

theorem front_of_zone {point : Point} (h : zone point = .before) : Front point := by
  rcases front_or_locked point (by rw [h]; decide) with ⟨-, hfront⟩ | ⟨hinside, -⟩ | ⟨ret_val, rfl⟩
  · exact hfront
  · cases h.symm.trans hinside
  · cases h

theorem locked_of_zone {point : Point} (h : zone point = .inside) : Locked point := by
  rcases front_or_locked point (by rw [h]; decide) with ⟨hbefore, -⟩ | ⟨-, hlocked⟩ | ⟨ret_val, rfl⟩
  · cases h.symm.trans hbefore
  · exact hlocked
  · cases h

/-- Only the TLS transport has a section. -/
def zoneOver (transport_type : Transport) (point : Point) : Zone :=
  if transport_type ≠ .TCP ∧ zone point = .inside then .elsewhere else zone point

section Transports

variable {transport_type : Transport} {point : Point}

theorem zoneOver_of_not_inside (h : zone point ≠ .inside) :
    zoneOver transport_type point = zone point := if_neg fun hboth => h hboth.2

theorem zoneOver_of_tcp (h : transport_type = .TCP) : zoneOver transport_type point = zone point :=
  if_neg fun hboth => hboth.1 h

theorem zoneOver_ne_inside (h : transport_type ≠ .TCP) : zoneOver transport_type point ≠ .inside := by
  rw [zoneOver]
  split
  · decide
  · next hnot => exact fun hinside => hnot ⟨h, hinside⟩

theorem zoneOver_before (h : zone point = .before) : zoneOver transport_type point = .before := by
  rw [zoneOver_of_not_inside (by rw [h]; decide), h]

theorem zone_of_zoneOver {z : Zone} (h : zoneOver transport_type point = z) (hz : z ≠ .elsewhere) :
    zone point = z := by
  rw [zoneOver] at h
  split at h
  · exact absurd h.symm hz
  · exact h

end Transports

section Sections

variable {l l' : Library}

theorem called_of_globals (h : globals l = globals l') (hcalled : l'.daapInit_called = true) :
    l.daapInit_called = true :=
  (congrArg Library.daapInit_called h).trans hcalled

theorem transport_of_globals (h : globals l = globals l') : l.transport_type = l'.transport_type := by
  have hsame := congrArg Library.transport_type h
  exact hsame

theorem not_called (h : l.daapInit_called = true) : ¬(!l.daapInit_called) = true := by
  simp [h]

theorem buildLine_globals (h : globals l = globals l') (m : Message) :
    buildLine l m = buildLine l' m := by
  have hl : buildLine (globals l) m = buildLine l m := rfl
  have hl' : buildLine (globals l') m = buildLine l' m := rfl
  rw [← hl, h, hl']

theorem jobdurationText_globals (h : globals l = globals l') (cur_time : Nat) :
    l.jobdurationText cur_time = l'.jobdurationText cur_time := by
  have hl : (globals l).jobdurationText cur_time = l.jobdurationText cur_time := rfl
  have hl' : (globals l').jobdurationText cur_time = l'.jobdurationText cur_time := rfl
  rw [← hl, h, hl']

/-- The line goes out with one step, unless it goes over TLS. -/
theorem transmit_acts (h : l.transport_type ≠ .TCP) (m : Message) (line : Event)
    (influx_str : CStrings.Text) :
    ∃ events, code l (.transmit m line influx_str) =
      .acts l events (afterLog DAAP_SUCCESS m.origin) := by
  rw [code]
  cases htransport : l.transport_type with
  | NONE => exact ⟨_, rfl⟩
  | SYSLOG => exact ⟨_, rfl⟩
  | TCP => exact absurd htransport h

theorem transmit_locks (h : l.transport_type = .TCP) (m : Message) (line : Event)
    (influx_str : CStrings.Text) :
    code l (.transmit m line influx_str) =
      .lock .write_mutex (.socket m line influx_str.length) := by
  rw [code, h]

theorem code_of_globals (h : globals l = globals l') (hcalled : l'.daapInit_called = true)
    {point : Point} (hfront : Front point) :
    code l point = code l' point ∨
      ∃ state events next, code l' point = .acts state events next := by
  have hcalled' := called_of_globals h hcalled
  cases hfront with
  | @call c hlogs =>
      cases c with
      | daapInit args => cases hlogs
      | daapFinalize env io => cases hlogs
      | daapSetRank rank => cases hlogs
      | daapLogJobDuration cur_time io =>
          exact .inl (congrArg (fun text => Action.goes (Point.log ⟨.caller, false, text, io⟩))
            (jobdurationText_globals h cur_time))
      | _ => exact .inl rfl
  | log hcaller =>
      exact .inl (by rw [code, code, if_neg (not_called hcalled), if_neg (not_called hcalled')])
  | warn hcaller => exact .inl rfl
  | build hcaller => exact .inl (by rw [code, code, buildLine_globals h])
  | @transmit m line influx_str hcaller =>
      rcases eq_or_ne l'.transport_type .TCP with htcp | htcp
      · rw [transmit_locks htcp, transmit_locks ((transport_of_globals h).trans htcp)]
        exact .inl rfl
      · obtain ⟨events, hacts⟩ := transmit_acts htcp m line influx_str
        exact .inr ⟨l', events, _, hacts⟩

theorem inFront_code (hcalled : l.daapInit_called = true) {point : Point} (hfront : Front point) :
    InFront (zoneOver l.transport_type) .write_mutex globals l (code l point) := by
  cases hfront with
  | @call c hlogs =>
      cases c with
      | daapInit args => cases hlogs
      | daapFinalize env io => cases hlogs
      | daapSetRank rank => cases hlogs
      | _ => exact zoneOver_before rfl
  | @log m hcaller =>
      rw [code, if_neg (not_called hcalled)]
      split
      · exact .inr ⟨by decide, zoneOver_before (zone_of_caller hcaller _)⟩
      · exact zoneOver_before (zone_of_caller hcaller _)
  | @warn m hcaller => exact ⟨by decide, zoneOver_before (zone_of_caller hcaller _)⟩
  | @build m hcaller =>
      rw [code]
      split
      · trivial
      · exact zoneOver_before (zone_of_caller hcaller _)
  | @transmit m line influx_str hcaller =>
      rcases eq_or_ne l.transport_type .TCP with htcp | htcp
      · rw [transmit_locks htcp]
        exact .inl ⟨rfl, (zoneOver_of_tcp htcp).trans (zone_of_caller hcaller _)⟩
      · obtain ⟨events, hacts⟩ := transmit_acts htcp m line influx_str
        have hnext : zone (afterLog DAAP_SUCCESS m.origin) = .behind := by
          rw [hcaller]
          rfl
        rw [hacts]
        refine ⟨fun point => zoneOver_ne_inside htcp, ?_, rfl⟩
        rw [zoneOver_of_not_inside (by rw [hnext]; decide), hnext]

theorem inside_code (l : Library) {point : Point} (hlocked : Locked point) :
    Inside zone .write_mutex globals l (code l point) := by
  cases hlocked with
  | @socket m line buf_size hcaller =>
      rw [code]
      split
      · exact ⟨zone_of_caller hcaller _, rfl⟩
      · exact ⟨zone_of_caller hcaller _, rfl⟩
  | @connect m buf_size hcaller =>
      rw [code]
      split
      · exact zone_of_caller hcaller _
      · exact zone_of_caller hcaller _
  | @SSL_new m buf_size hcaller =>
      rw [code]
      split
      · trivial
      · exact ⟨zone_of_caller hcaller _, rfl⟩
  | @SSL_connect m buf_size hcaller =>
      rw [code]
      split
      · exact zone_of_caller hcaller _
      · exact ⟨zone_of_caller hcaller _, rfl⟩
  | @SSL_write m buf_size loop hcaller =>
      rw [code]
      split
      · exact zone_of_caller hcaller _
      · refine ⟨?_, rfl⟩
        rw [Point.afterWrite]
        split
        · exact zone_of_caller hcaller _
        · exact zone_of_caller hcaller _
        · exact zone_of_caller hcaller _
  | exit hcaller => trivial
  | @close m hcaller => exact ⟨zone_of_caller hcaller _, rfl⟩
  | @unlockWrite m hcaller =>
      have hnext : zone (afterLog DAAP_SUCCESS m.origin) = .behind := by
        rw [hcaller]
        rfl
      exact .inl ⟨rfl, hnext⟩
  | @SSL_CTX_free m hcaller =>
      rw [code]
      split
      · trivial
      · exact ⟨zone_of_caller hcaller _, rfl⟩
      · exact ⟨zone_of_caller hcaller _, rfl⟩
  | @SSL_free m hcaller =>
      rw [code]
      split
      · trivial
      · exact zone_of_caller hcaller _
      · exact ⟨zone_of_caller hcaller _, rfl⟩

theorem sectioned_code (hcalled : l.daapInit_called = true) :
    Sectioned code .write_mutex globals (globals l) (zoneOver l.transport_type) where
  before s point hs hzone := by
    rw [← transport_of_globals hs]
    exact inFront_code (called_of_globals hs hcalled)
      (front_of_zone (zone_of_zoneOver hzone (by decide)))
  reads s s' point hs hs' hzone :=
    code_of_globals (hs'.trans hs.symm) (called_of_globals hs hcalled)
      (front_of_zone (zone_of_zoneOver hzone (by decide)))
  inside s point hs hzone := by
    have htcp : l.transport_type = .TCP := not_not.mp fun hnot => zoneOver_ne_inside hnot hzone
    have hsame : zoneOver l.transport_type = zone := funext fun point => zoneOver_of_tcp htcp
    rw [hsame] at hzone ⊢
    exact inside_code s (locked_of_zone hzone)
  behind point hzone := by
    have hbehind := zone_of_zoneOver hzone (by decide)
    rcases front_or_locked point (by rw [hbehind]; decide) with ⟨hbefore, -⟩ | ⟨hinside, -⟩ |
      ⟨ret_val, rfl⟩
    · cases hbehind.symm.trans hbefore
    · cases hbehind.symm.trans hinside
    · exact ⟨ret_val, fun s _ => rfl⟩

end Sections

section Orders

variable {ι : Type*}

/-- Whole calls one behind the other, each with its thread and its result. -/
inductive Performed (l : Library) :
    List (ι × Call × Option Int) → Library → List (ι × Event) → Prop
  | nil : Performed l [] l []
  | snoc {order : List (ι × Call × Option Int)} {l₁ l₂ : Library} {trace : List (ι × Event)} {i : ι}
      {c : Call} {rounds : Nat} {events : List Event} {ret : Option Int}
      (hfront : Performed l order l₁ trace)
      (hperform : (Call.within rounds c).perform l₁ = (l₂, events, .returns ret)) :
      Performed l (order ++ [(i, c, ret)]) l₂ (trace ++ events.map fun e => (i, e))

def asCall : ι × Point × Option Int → Option (ι × Call × Option Int)
  | (i, .call c, ret) => some (i, c, ret)
  | _ => none

theorem performed_of_serial {l l₁ : Library} {order : List (ι × Point × Option Int)}
    {trace : List (ι × Event)} (h : Serial code l order l₁ trace)
    (hcalls : ∀ x ∈ order, ∃ c, x.2.1 = .call c) :
    Performed l (order.filterMap asCall) l₁ trace := by
  induction h with
  | nil => exact .nil
  | @snoc order s₁ s₂ trace i entry point value n events hfront hleads hreturns ih =>
      obtain ⟨hold, hlast⟩ := List.forall_mem_append.mp hcalls
      obtain ⟨c, hc⟩ := hlast _ (List.mem_singleton_self _)
      obtain rfl : entry = .call c := hc
      rw [List.filterMap_append]
      rcases perform_of_leads s₁ hleads (by rw [hreturns]; trivial) with ⟨value', hperform, rfl⟩ |
        ⟨status, -, hcode⟩ | ⟨-, hcode⟩
      · obtain rfl := Action.returns.inj hreturns
        exact .snoc (ih hold) hperform
      · cases hreturns.symm.trans hcode
      · cases hreturns.symm.trans hcode

variable [DecidableEq ι]

theorem entriesOf_filterMap {order : List (ι × Point × Option Int)}
    (hcalls : ∀ x ∈ order, ∃ c, x.2.1 = .call c) (i : ι) :
    entriesOf order i = (entriesOf (order.filterMap asCall) i).map .call ∧
      resultsOf order i = resultsOf (order.filterMap asCall) i := by
  induction order with
  | nil => exact ⟨rfl, rfl⟩
  | cons x order ih =>
      obtain ⟨⟨c, hc⟩, hlater⟩ := List.forall_mem_cons.mp hcalls
      obtain ⟨j, point, ret⟩ := x
      obtain rfl : point = .call c := hc
      obtain ⟨hentries, hresults⟩ := ih hlater
      have hhead : asCall (j, .call c, ret) = some (j, c, ret) := rfl
      rw [List.filterMap_cons_some hhead]
      simp only [entriesOf, resultsOf, List.filter_cons] at hentries hresults ⊢
      by_cases hj : j = i
      · simp [hj, hentries, hresults]
      · simp [hj, hentries, hresults]

/-- What a mixture of the calls of the threads has come to: whole calls one behind the
other, and under `write_mutex` a part of the next call of one thread. -/
structure Linearised (l : Library) (calls : ι → List Call)
    (p : Process ι Mutex Library Event Point (Option Int)) (trace : List (ι × Event))
    (order : List (ι × Call × Option Int)) : Prop where
  calls_prefix : ∀ i, entriesOf order i <+: calls i
  finished : ∀ i, p.threads i = [] → entriesOf order i = calls i
  results : ∀ i, resultsOf order i = p.results i ∨
    ∃ ret later, p.threads i = .done ret :: later ∧ resultsOf order i = p.results i ++ [ret]
  state : ∃ l₁ trace₁, Performed l order l₁ trace₁ ∧
    (p.locked .write_mutex = false ∧ p.state = l₁ ∧ trace = trace₁ ∨
      p.locked .write_mutex = true ∧ ∃ i c n events point later,
        entriesOf order i ++ [c] <+: calls i ∧ p.threads i = point :: later ∧
        Leads code n l₁ (.call c) events p.state point ∧
        trace = trace₁ ++ events.map fun e => (i, e))

variable {l : Library} {calls : ι → List Call}
  {p q : Process ι Mutex Library Event Point (Option Int)} {trace : List (ι × Event)}

theorem calls_of_serialised {order : List (ι × Point × Option Int)} {l₁ : Library}
    {trace₁ : List (ι × Event)} {holder : Option ι}
    (h : Serialised code globals (globals l) (zoneOver l.transport_type) .write_mutex l
      (fun i => (calls i).map .call) p trace order l₁ trace₁ holder) (i : ι) :
    entriesOf order i <+: (calls i).map .call := by
  cases h.stages i with
  | idle hthreads hcalls hresults => exact hcalls ▸ List.prefix_rfl
  | before hthreads hcalls hresults hzone hreads => exact hcalls ▸ List.prefix_append _ _
  | inside hthreads hcalls hresults hzone hleads htrace => exact hcalls ▸ List.prefix_append _ _
  | behind hthreads hcalls hresults hzone hreturns => exact hcalls ▸ List.prefix_append _ _

theorem forall_call_of_serialised {order : List (ι × Point × Option Int)} {l₁ : Library}
    {trace₁ : List (ι × Event)} {holder : Option ι}
    (h : Serialised code globals (globals l) (zoneOver l.transport_type) .write_mutex l
      (fun i => (calls i).map .call) p trace order l₁ trace₁ holder) :
    ∀ x ∈ order, ∃ c, x.2.1 = .call c := by
  intro x hx
  have hmem : x.2.1 ∈ entriesOf order x.1 :=
    List.mem_map_of_mem (List.mem_filter.mpr ⟨hx, decide_eq_true rfl⟩)
  obtain ⟨c, -, hc⟩ := List.mem_map.mp ((calls_of_serialised h x.1).subset hmem)
  exact ⟨c, hc.symm⟩

theorem map_call_injective : Function.Injective (List.map Point.call) :=
  List.map_injective_iff.mpr fun _ _ h => Point.call.inj h

theorem linearised_of_serialised {order : List (ι × Point × Option Int)} {l₁ : Library}
    {trace₁ : List (ι × Event)} {holder : Option ι}
    (h : Serialised code globals (globals l) (zoneOver l.transport_type) .write_mutex l
      (fun i => (calls i).map .call) p trace order l₁ trace₁ holder) :
    Linearised l calls p trace (order.filterMap asCall) := by
  have hcalls := forall_call_of_serialised h
  have hinjective : Function.Injective Point.call := fun _ _ heq => Point.call.inj heq
  have hentries (i : ι) := (entriesOf_filterMap hcalls i).1
  have hresults (i : ι) := (entriesOf_filterMap hcalls i).2
  refine ⟨fun i => ?_, fun i hdone => ?_, fun i => ?_, l₁, trace₁, performed_of_serial h.serial hcalls,
    ?_⟩
  · have hprefix := calls_of_serialised h i
    rw [hentries] at hprefix
    exact (List.prefix_map_iff_of_injective hinjective).mp hprefix
  · have hstage := h.stages i
    rw [hentries] at hstage
    cases hstage with
    | idle hthreads hall hres => exact (map_call_injective hall).symm
    | before hthreads hall hres hzone hreads => cases hdone.symm.trans hthreads
    | inside hthreads hall hres hzone hleads htrace => cases hdone.symm.trans hthreads
    | behind hthreads hall hres hzone hreturns => cases hdone.symm.trans hthreads
  · have hstage := h.stages i
    rw [hresults] at hstage
    cases hstage with
    | idle hthreads hall hres => exact .inl hres.symm
    | before hthreads hall hres hzone hreads => exact .inl hres.symm
    | inside hthreads hall hres hzone hleads htrace => exact .inl hres.symm
    | @behind point later value hthreads hall hres hzone hreturns =>
        have hzone := zone_of_zoneOver hzone (by decide)
        rcases front_or_locked point (by rw [hzone]; decide) with ⟨hbefore, -⟩ | ⟨hinside, -⟩ |
          ⟨ret_val, rfl⟩
        · cases hzone.symm.trans hbefore
        · cases hzone.symm.trans hinside
        · obtain rfl := Action.returns.inj (hreturns l₁ h.stable_serial)
          exact .inr ⟨ret_val, later, hthreads, hres⟩
  · cases hholder : holder with
    | none =>
        obtain ⟨hstate, htrace⟩ := h.free hholder
        exact .inl ⟨by rw [h.locked, hholder]; rfl, hstate, htrace⟩
    | some i =>
        obtain ⟨point, later, hthreads⟩ := List.exists_cons_of_ne_nil (h.occupied i hholder)
        have hzone := (h.inside i point later hthreads).mpr hholder
        obtain ⟨entry, n, events, hall, -, hleads, htrace⟩ := (h.stages i).of_inside hthreads hzone
        have hmem : entry ∈ (calls i).map Point.call := by
          rw [hall]
          exact List.mem_append_right _ List.mem_cons_self
        obtain ⟨c, -, rfl⟩ := List.mem_map.mp hmem
        have hprefix : (entriesOf (order.filterMap asCall) i ++ [c]).map Point.call <+:
            (calls i).map Point.call := by
          rw [hall, hentries, List.map_append, List.map_singleton]
          exact ⟨later, List.append_assoc _ _ _⟩
        exact .inr ⟨by rw [h.locked, hholder]; rfl, i, c, n, events, point, later,
          (List.prefix_map_iff_of_injective hinjective).mp hprefix, hthreads, hleads, htrace⟩

/-- Calls that are all over are whole. -/
theorem Linearised.performed {order : List (ι × Call × Option Int)}
    (h : Linearised l calls p trace order) (hdone : ∀ i, p.threads i = []) :
    Performed l order p.state trace := by
  obtain ⟨l₁, trace₁, hperformed, hstate⟩ := h.state
  rcases hstate with ⟨-, rfl, rfl⟩ | ⟨-, i, c, n, events, point, later, -, hthreads, -⟩
  · exact hperformed
  · cases (hdone i).symm.trans hthreads

theorem zone_of_logs (transport_type : Transport) {cs : List Call}
    (hlogs : ∀ c ∈ cs, Call.logs c = true) :
    ∀ point ∈ cs.map Point.call, zoneOver transport_type point = .before := by
  intro point hpoint
  obtain ⟨c, hc, rfl⟩ := List.mem_map.mp hpoint
  exact zoneOver_before (if_pos (hlogs c hc))

/-- What a run of log calls comes to. -/
theorem linearised_run (hcalled : l.daapInit_called = true)
    (hlogs : ∀ i, ∀ c ∈ calls i, Call.logs c = true)
    {schedule : List ι} {r : Process ι Mutex Library Event Point (Option Int) × List (ι × Event)}
    (hrun : run (step code) (Process.start l fun i => (calls i).map .call) schedule = some r) :
    ∃ order, Linearised l calls r.1 r.2 order := by
  obtain ⟨order, l₁, trace₁, holder, h⟩ :=
    serialised_run (sectioned_code hcalled) rfl (fun i => zone_of_logs l.transport_type (hlogs i)) hrun
  exact ⟨_, linearised_of_serialised h⟩

/-- However the steps of log calls are mixed, they come to whole calls one behind the
other: the calls of each thread in their order, with their results, the globals and all
events, up to a part of the call that holds `write_mutex`. Further steps only add calls
at the end, so a call that was over before another one began stands in front of it. -/
theorem log_calls_linearised (hcalled : l.daapInit_called = true)
    (hlogs : ∀ i, ∀ c ∈ calls i, Call.logs c = true)
    {schedule more : List ι} {first later : Process ι Mutex Library Event Point (Option Int) ×
      List (ι × Event)}
    (hfirst : run (step code) (Process.start l fun i => (calls i).map .call) schedule = some first)
    (hlater : run (step code) first.1 more = some later) :
    ∃ order order', order <+: order' ∧ Linearised l calls first.1 first.2 order ∧
      Linearised l calls later.1 (first.2 ++ later.2) order' := by
  have hsections := sectioned_code hcalled
  have hentries (i : ι) := zone_of_logs l.transport_type (hlogs i)
  obtain ⟨order, l₁, trace₁, holder, h⟩ := serialised_run hsections rfl hentries hfirst
  obtain ⟨order', l₂, trace₂, holder', hprefix, h'⟩ :=
    serialised_later hsections hentries h hlater
  exact ⟨_, _, hprefix.filterMap asCall, linearised_of_serialised h, linearised_of_serialised h'⟩

/-- A library that is set up with a context. -/
def usableLibrary : Library where
  daapInit_called := true
  appname := .live "flag".toList
  hostname := .live "gr0959".toList
  cluster_name := .live "grizzly".toList
  transport_type := .TCP
  tls := { sslctx := .live }

/-- Two threads that send one message each. -/
def heartbeats : Fin 2 → List Call := fun _ => [.daapLogHeartbeat promptIo]

/-- The first thread is under the mutex, and later both are done. -/
theorem log_calls_linearised_pair :
    ∃ first later order order',
      run (step code) (Process.start usableLibrary fun i => (heartbeats i).map .call)
        [0, 1, 0, 1, 0, 1, 0, 0] = some first ∧
      run (step code) first.1 ([0, 0, 0, 0, 0, 0, 0, 0] ++ [1, 1, 1, 1, 1, 1, 1, 1, 1, 1]) =
        some later ∧
      first.1.locked .write_mutex = true ∧ (∀ i, later.1.threads i = []) ∧ order <+: order' ∧
      Linearised usableLibrary heartbeats first.1 first.2 order ∧
      Linearised usableLibrary heartbeats later.1 (first.2 ++ later.2) order' := by
  have hevaluated : (run (step code) (Process.start usableLibrary fun i => (heartbeats i).map .call)
      [0, 1, 0, 1, 0, 1, 0, 0]).any (fun first => first.1.locked .write_mutex &&
        (run (step code) first.1 ([0, 0, 0, 0, 0, 0, 0, 0] ++ [1, 1, 1, 1, 1, 1, 1, 1, 1, 1])).any
          fun later => (later.1.threads 0).isEmpty && (later.1.threads 1).isEmpty) = true := by
    decide +kernel
  obtain ⟨first, hfirst, hlocked⟩ := (Option.any_eq_true _ _).mp hevaluated
  rw [Bool.and_eq_true] at hlocked
  obtain ⟨later, hlater, hdone⟩ := (Option.any_eq_true _ _).mp hlocked.2
  rw [Bool.and_eq_true, List.isEmpty_iff, List.isEmpty_iff] at hdone
  have hlogs : ∀ i, ∀ c ∈ heartbeats i, Call.logs c = true := by
    intro i c hc
    rw [List.mem_singleton.mp hc]
    rfl
  obtain ⟨order, order', hprefix, hthen, hend⟩ :=
    log_calls_linearised rfl hlogs hfirst hlater
  exact ⟨first, later, order, order', hfirst, hlater, hlocked.1, Fin.forall_fin_two.mpr hdone,
    hprefix, hthen, hend⟩

end Orders

end DaapLog.ConcurrentWrites
